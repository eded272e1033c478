import ChunkPlan.Compiler.Invocation
import ChunkPlan.Diagnostic
import ChunkPlan.Json.Parser
import ChunkPlan.Module.Graph
import ChunkPlan.Module.Plan
import ChunkPlan.SourceScanner

/-!
# Builds

A build scans the sources, makes the module tree and plans which units each module holds; the
compiler can then be run on the plan.  Build errors become diagnostics of the result.
-/

set_option autoImplicit false

namespace ChunkPlan

/-- What a build has come to. -/
structure BuildResult where
  /-- The planned tree; none after a build error. -/
  tree : Option ModuleTree := none
  config : Option ModuleConfig := none
  units : UnitList := []
  output : String := ""
  diagnostics : List Diagnostic := []
  deriving Inhabited

namespace BuildResult

def hasErrors (result : BuildResult) : Bool := result.diagnostics.any (·.severity = .error)

def hasWarnings (result : BuildResult) : Bool := result.diagnostics.any (·.severity = .warning)

/-- All units in load order, those of parents before those of children. -/
def orderedUnits (result : BuildResult) : UnitList :=
  match result.tree with
  | some tree => tree.sources
  | none => []

def moduleUnits (result : BuildResult) : Entries UnitList :=
  match result.tree with
  | some tree => .ofPairs (tree.nodes.map fun node => (node.name, node.units))
  | none => []

def failed (result : BuildResult) (error : BuildError) : BuildResult :=
  { result with diagnostics := result.diagnostics ++ [.ofError error] }

def plan? (result : BuildResult) : Option ModuleTree :=
  if result.hasErrors then none else result.tree

end BuildResult

/-- What a build works on: the files, and what the scanner remembers. -/
structure BuildSession where
  files : FileSystem
  scanner : SourceScanner := {}
  deriving Inhabited

namespace BuildSession

def note (session : BuildSession) (entry : LogEntry) : BuildSession :=
  { session with scanner := session.scanner.note entry }

def saveCache (session : BuildSession) : BuildSession :=
  let (files, log) := SourceCache.saveIfAny session.files session.scanner.cache
  { files, scanner := { session.scanner with log := session.scanner.log ++ log } }

end BuildSession

namespace Build

def singleModule : String := "main"

def scanAll (files : FileSystem) (options : RunOptions) (locators : List String) :
    Scan UnitList := do
  Scan.note (.stage "Scanning sources")
  let units ← SourceScanner.scan files options locators
  Scan.note (.elapsed s!"{units.length} sources scanned.")
  return units

def plan (pool : UnitList) (tree : ModuleTree) : Except BuildError ModuleTree :=
  let attempt := tree.build pool
  match attempt.error with
  | some error => .error error
  | none => .ok attempt.tree

def loadSingle (files : FileSystem) (options : RunOptions) (locators inputs : List String) :
    Scan (ModuleTree × UnitList) := do
  let pool ← scanAll files options (locators ++ inputs)
  let entries ← SourceScanner.scan files options inputs
  Scan.note (.stage "Building dependency tree")
  let tree ← Scan.ofExcept (plan pool (.node { name := singleModule, entries } []))
  let count := tree.value.deps.length
  Scan.note (.message .debug s!"Module '{singleModule}' has {count} source(s)")
  Scan.note (.elapsed "Dependencies resolved.")
  return (tree, pool)

def materialize (files : FileSystem) (options : RunOptions)
    (entry : String × ModuleDeclaration) : Scan ModuleNode := do
  let declaration := entry.2
  let entries ← SourceScanner.scan files options declaration.inputs
  Scan.note (.message .debug s!"Module '{entry.1}' has {entries.length} input source(s)")
  return {
    name := entry.1
    parent := declaration.deps.head?
    entries
    wrapper :=
      if declaration.wrapper.isEmpty then none else some (.template declaration.wrapper) }

/-- Makes the tree of the declared modules.  That every module has a place in it is checked after
the inputs are scanned. -/
def buildTree (files : FileSystem) (options : RunOptions)
    (modules : Entries ModuleDeclaration) : Scan ModuleTree := do
  let grown ← Scan.ofExcept (ModuleGraph.grown modules)
  let tree ← grown.traverse (materialize files options)
  match ModuleGraph.unreachable modules grown with
  | [] => return tree
  | names => Scan.ofExcept (.error (.unreachableModules names))

def loadModules (files : FileSystem) (options : RunOptions) (config : ModuleConfig)
    (locators : List String) : Scan (ModuleTree × UnitList) := do
  let inputs := config.modules.values.flatMap (·.inputs)
  let pool ← scanAll files options (locators ++ inputs)
  Scan.note (.stage "Building module tree")
  let tree ← buildTree files options config.modules
  let tree ← Scan.ofExcept (plan pool tree)
  tree.nodes.forM fun node =>
    Scan.note (.message .debug s!"Module '{node.name}': {node.flag}")
  Scan.note (.elapsed "Module dependencies normalized.")
  return (tree, pool)

/-- Reads the object in a configuration file.  No file has a name with U+0000 in it, so nothing is
read for such a path. -/
def readConfigFile (files : FileSystem) (path : String) : Except BuildError (Entries Json) :=
  let fault (fault : ConfigFault) : BuildError := .config fault (some path)
  if path.toList.contains '\x00' then .error (fault .notJson)
  else
    match files.readText (Path.tidy path) with
    | .error (.file cause) => .error (fault (.unreadable cause))
    | .error (.notUtf8 _) => .error (fault .notJson)
    | .ok text =>
      match Json.parse? text with
      | none => .error (fault .notJson)
      | some (.object members) => .ok members
      | some _ => .error (fault .notAnObject)

def readConfig (files : FileSystem) (path : String) : Except BuildError ModuleConfig := do
  ModuleConfig.ofJson files.workingDirectory (← readConfigFile files path) path

/-- Completes a result by the plan that some scanning work makes.  The cache is saved in any
case. -/
def finish (result : BuildResult) (work : Scan (ModuleTree × UnitList)) (label : String)
    (session : BuildSession) : BuildResult × BuildSession :=
  let (outcome, scanner) := work session.scanner
  let session := { session with scanner }.saveCache
  match outcome with
  | .ok (tree, units) => ({ result with tree := some tree, units }, session.note (.elapsed label))
  | .error error => (result.failed error, session)

def single (options : RunOptions) (locators inputs : List String) (session : BuildSession) :
    BuildResult × BuildSession :=
  finish {} (loadSingle session.files options locators inputs)
    "Total time. Dependencies resolved." session

def modules (options : RunOptions) (configFile : String) (locators : List String)
    (session : BuildSession) : BuildResult × BuildSession :=
  let label := "Total time. Modules resolved."
  match readConfig session.files configFile with
  | .error error => finish {} (Scan.ofExcept (.error error)) label session
  | .ok config =>
    finish { config := some config } (loadModules session.files options config locators) label
      session

/-- The name that the compiler gives to the source map of a module. -/
def moduleSourceMap : String := "%outname%.map"

structure Compiled where
  result : BuildResult
  files : FileSystem
  launcher : Launcher
  log : Log := []
  /-- Why the output directory cannot be made. -/
  fault : Option FileError := none
  deriving Inhabited

def compiled (result : BuildResult) (files : FileSystem) (keepOutput : Bool)
    (run : Except BuildError String × Compiler.Trace) : Compiled :=
  let left : Compiled :=
    { result, files, launcher := run.2.launcher, log := .stage "Compiling" :: run.2.log }
  match run.1 with
  | .error error => { left with result := result.failed error }
  | .ok output =>
    { left with
      result := if keepOutput then { result with output } else result
      log := left.log ++ [.elapsed "JavaScript compilation succeeded."] }

/-- Runs the compiler on a result.  The output of one module is kept in the result; several modules
are written by the compiler itself, into a directory that is made for them. -/
def compile (result : BuildResult) (compiler : Compiler) (sourceMap : String)
    (extraArgs : List String) (files : FileSystem) (launcher : Launcher) : Compiled :=
  match result.plan? with
  | none => { result, files, launcher }
  | some tree =>
    let sources := UnitList.paths tree.sources
    match result.config with
    | none =>
      let compilation : Compilation := { sources, sourceMap, extraArgs }
      compiled result files true (compiler.run launcher compilation)
    | some config =>
      let made := files.ensureDirectory (Path.directory config.outputPrefix)
      match made.error with
      | some _ =>
        { result, files := made.files, launcher, log := [.stage "Compiling"], fault := made.error }
      | none =>
        let compilation : Compilation := {
          sources
          modules := tree.specs config
          outputPrefix := config.outputPrefix
          sourceMap := if sourceMap.isEmpty then "" else moduleSourceMap
          extraArgs }
        compiled result made.files false (compiler.run launcher compilation)

end Build

end ChunkPlan
