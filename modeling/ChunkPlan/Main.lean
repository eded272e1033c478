import ChunkPlan.CommandLine.Footprint
import ChunkPlan.CommandLine.Run
import ChunkPlan.FileSystem.Change
import Std.Time.Format

/-!
# The command line

Loads what a request depends on from the disk, runs the request, and writes the outcome back.  No
program is started from here, so a request that needs the compiler ends with the report that it
cannot be run.
-/

set_option autoImplicit false

namespace ChunkPlan.CommandLine

/-- The date of an item on the disk in nanoseconds. -/
def moment (time : IO.FS.SystemTime) : Int := time.sec * 1000000000 + time.nsec.toNat

def loadFile (path : String) (data : IO.FS.Metadata) : IO FileItem :=
  return .file (← IO.FS.readBinFile path) (moment data.modified)

/-- Loads the items in a directory with everything below them.  The path is one without links, and
no link to a directory is followed. -/
partial def loadItems (directory : String) : IO (List (String × FileItem)) := do
  let entries ← (← IO.FS.realPath directory).readDir
  let items ← entries.toList.mapM fun entry => do
    let path := Path.join directory entry.fileName
    try
      let place ← IO.FS.realPath path
      let data ← place.metadata
      match data.type with
      | .file => return some (entry.fileName, ← loadFile path data)
      | .dir =>
        if place.toString = path then
          return some (entry.fileName, .directory (← loadItems path) (moment data.modified))
        else return none
      | _ => return some (entry.fileName, .special (moment data.modified))
    catch _ => return none
  return items.filterMap id

/-- Loads the item at a path; a directory with everything below it if asked for, else empty. -/
def loadItem (deep : Bool) (path : String) : IO (Option FileItem) := do
  try
    let place ← IO.FS.realPath path
    let data ← place.metadata
    match data.type with
    | .file => return some (← loadFile path data)
    | .dir =>
      let items ← if deep then loadItems place.toString else pure []
      return some (.directory items (moment data.modified))
    | _ => return some (.special (moment data.modified))
  catch _ => return none

/-- Takes the item at a place into the files.  Without what is below it, an item that is there
already only gets its date. -/
def loadPlace (deep : Bool) (files : FileSystem) (place : List String) : IO FileSystem := do
  if place.isEmpty then return files
  match ← loadItem deep (Path.ofNames place) with
  | none => return files
  | some item =>
    if deep || (files.at? place).isNone then
      return { files with root := files.root.put place item }
    else return { files with root := files.root.redate item.modified place }

/-- Takes the item that a path leads to into the files, after the directories on the way. -/
def loadPath (deep : Bool) (files : FileSystem) (path : String) : IO FileSystem := do
  let place := Path.locate files.workingDirectory path
  let files ← (List.range place.length).foldlM
    (fun files count => loadPlace false files (place.take count)) files
  loadPlace deep files place

def loadFootprint (files : FileSystem) (footprint : Footprint) : IO FileSystem := do
  let files ← footprint.scanned.foldlM (loadPath true) files
  footprint.visited.foldlM (loadPath false) files

def loadFiles (request : Request) : IO FileSystem := do
  let directory := (← IO.currentDir).toString
  let files ← loadFootprint (.empty (Path.locate "/" directory)) request.footprint
  loadFootprint files (request.namedFootprint files)

def applyChange : FileChange → IO Unit
  | .directory path => IO.FS.createDir path
  | .file path bytes => IO.FS.writeBinFile path bytes

def usage : String := "usage: cbc [-v] [-l] [--cache FILE] [--scan-hidden] COMMAND [OPTION ...]"

/-- Runs a request on the disk; the result is the exit code. -/
def runOnDisk (request : Request) : IO UInt32 := do
  let started ← IO.monoMsNow
  let files ← loadFiles request
  let outcome := request.run files {}
  (files.changes outcome.files).forM applyChange
  let now ← Std.Time.PlainDateTime.now
  let clock : Clock :=
    { stamp := now.format "uuuu-MM-dd HH:mm:ss"
      milliseconds := toString ((← IO.monoMsNow) - started) }
  IO.eprint (outcome.log.render request.options clock)
  IO.print outcome.printed
  match outcome.ending with
  | .exit code => return UInt32.ofNat code
  | .fault error =>
    IO.eprintln error.message
    return 1
  | .missingOption name =>
    IO.eprintln s!"the command has no option --{name}"
    return 1

end ChunkPlan.CommandLine

open ChunkPlan.CommandLine in
def main (args : List String) : IO UInt32 := do
  let environment : Environment :=
    { compilerJar := (← IO.getEnv "CLOSURE_COMPILER_JAR").getD ""
      java := (← IO.getEnv "JAVA").getD "" }
  match Request.parse? environment args with
  | some request => runOnDisk request
  | none =>
    IO.eprintln usage
    return 2
