import ChunkPlan.Build
import ChunkPlan.CommandLine.Request

/-!
# Footprints

The paths that a request depends on, so that nothing else has to be known of the files around it.
Some are named by the command line and others by the files that it names.
-/

set_option autoImplicit false

namespace ChunkPlan.CommandLine

structure Footprint where
  /-- Paths that count with everything below them. -/
  scanned : List String := []
  /-- Paths of which only the item itself counts. -/
  visited : List String := []
  deriving DecidableEq, Repr, Inhabited

namespace Footprint

/-- Both footprints together; empty paths name nothing. -/
def union (a b : Footprint) : Footprint :=
  let both (x y : List String) : List String := (x ++ y).filter (!·.isEmpty)
  ⟨both a.scanned b.scanned, both a.visited b.visited⟩

def ofSelection (selection : Selection) : Footprint :=
  { scanned := selection.roots ++ selection.inputs.getD [], visited := [selection.config] }

def ofCommand : Command → Footprint
  | .order selection output => union (ofSelection selection) { visited := [output] }
  | .build selection output .. => union (ofSelection selection) { visited := [output] }
  | .modules selection output => union (ofSelection selection) { visited := [output] }
  | .flags selection output => union (ofSelection selection) { visited := [output] }
  | .deps entries output => { scanned := entries.flatMap (·.locators), visited := [output] }
  | .moduleDeps selection _ _ infoFile =>
    union (ofSelection selection) { visited := [infoFile] }
  | .checkRequires check => { scanned := check.locators ++ check.externs }

/-- What a configuration names: the inputs of its modules, and where output goes. -/
def ofConfig (config : ModuleConfig) : Footprint :=
  { scanned := config.modules.values.flatMap (·.inputs)
    visited := Path.directory config.outputPrefix :: config.modules.keys.map config.outputFile }

end Footprint

def Command.selection? : Command → Option Selection
  | .order selection _ => some selection
  | .build selection .. => some selection
  | .modules selection _ => some selection
  | .flags selection _ => some selection
  | .moduleDeps selection .. => some selection
  | .deps .. => none
  | .checkRequires _ => none

namespace Request

def footprint (request : Request) : Footprint :=
  .union (.ofCommand request.command) { visited := [request.cacheFile] }

/-- The configuration that a request reads, if it can be read. -/
def config? (request : Request) (files : FileSystem) : Option ModuleConfig := do
  let selection ← request.command.selection?
  if selection.config.isEmpty then none
  else (Build.readConfig files selection.config).toOption

def cachedPaths (request : Request) (files : FileSystem) : List String :=
  if request.cacheFile.isEmpty then []
  else (SourceCache.load files request.cacheFile).1.entries.keys

/-- What the configuration and the cache of a request name, where `files` holds at least its
footprint. -/
def namedFootprint (request : Request) (files : FileSystem) : Footprint :=
  let cached : Footprint := { visited := request.cachedPaths files }
  match request.config? files with
  | some config => .union (.ofConfig config) cached
  | none => cached

end Request

end ChunkPlan.CommandLine
