import ChunkPlan.Build
import ChunkPlan.CommandLine.Request
import ChunkPlan.LoaderFile

/-!
# Running commands

What a command does: the files it leaves, what it prints, its log and its exit code.  A command that
meets a build error reports it, prints nothing and writes no file but the cache.
-/

set_option autoImplicit false

namespace ChunkPlan.CommandLine

inductive Ending where
  | exit (code : Nat)
  | fault (error : FileError)
  /-- The command looks for the values of an option that it does not have. -/
  | missingOption (name : String)
  deriving DecidableEq, Repr, Inhabited

structure Outcome where
  files : FileSystem
  launcher : Launcher := {}
  log : Log := []
  printed : String := ""
  ending : Ending := .exit 0
  deriving Inhabited

def diagnosticLog (workingDirectory : String) (result : BuildResult) : Log :=
  result.diagnostics.map fun diagnostic =>
    .message .error (diagnostic.format workingDirectory)

def errorLog (workingDirectory : String) (error : BuildError) : Log :=
  [.message .error ((Diagnostic.ofError error).format workingDirectory)]

namespace Outcome

def failed (outcome : Outcome) : Outcome := { outcome with ending := .exit 1 }

/-- Gives a text out: into a file if one is named, else as a printed line. -/
def emit (outcome : Outcome) (text path : String) : Outcome :=
  if path.isEmpty then { outcome with printed := outcome.printed ++ text ++ "\n" }
  else
    let attempt := outcome.files.writeOutput path text
    { outcome with
      files := attempt.files
      ending := match attempt.error with
        | none => outcome.ending
        | some error => .fault error }

end Outcome

def openSession (files : FileSystem) (cacheFile : String) : BuildSession :=
  if cacheFile.isEmpty then { files }
  else
    let (cache, log) := SourceCache.load files cacheFile
    let notice := "Using cache file: " ++ cacheFile
    { files, scanner := { cache := some cache, log := .message .info notice :: log } }

/-- Makes the build that a selection names: of its modules, or without a configuration of its inputs.
There is none if both are missing. -/
def resolve (options : RunOptions) (selection : Selection) (session : BuildSession) :
    Option (BuildResult × BuildSession) :=
  if selection.config.isEmpty then
    selection.inputs.map fun inputs => Build.single options selection.roots inputs session
  else some (Build.modules options selection.config selection.roots session)

/-- Makes the build that a selection names and goes on with its plan.  A build without a plan is
reported and fails. -/
def withPlan (options : RunOptions) (selection : Selection) (session : BuildSession)
    (launcher : Launcher) (next : BuildResult → ModuleTree → Outcome → Outcome) : Outcome :=
  match resolve options selection session with
  | none =>
    { files := session.files, launcher, log := session.scanner.log, ending := .missingOption "input" }
  | some (result, session) =>
    let outcome : Outcome :=
      { files := session.files
        launcher
        log := session.scanner.log ++ diagnosticLog session.files.workingDirectory result }
    match result.plan? with
    | none => outcome.failed
    | some tree => next result tree outcome

def moduleLines (node : ModuleNode) : List String :=
  node.flag :: node.units.map fun unit => "  " ++ unit.path

def compile (compiler : Compiler) (sourceMap output : String) (result : BuildResult)
    (outcome : Outcome) : Outcome :=
  let compiled := Build.compile result compiler sourceMap [] outcome.files outcome.launcher
  let outcome :=
    { outcome with
      files := compiled.files
      launcher := compiled.launcher
      log := outcome.log ++ compiled.log }
  match compiled.fault with
  | some error => { outcome with ending := .fault error }
  | none =>
    let report := diagnosticLog outcome.files.workingDirectory compiled.result
    let outcome := { outcome with log := outcome.log ++ report }
    if compiled.result.hasErrors then outcome.failed
    else if compiled.result.config.isSome then outcome
    else outcome.emit compiled.result.output output

def writeDeps (options : RunOptions) (entries : List DepsEntry) (output : String)
    (session : BuildSession) (launcher : Launcher) : Outcome :=
  let (generated, scanner) := DepsFile.generate session.files options entries session.scanner
  let directory := session.files.workingDirectory
  let close (files : FileSystem) (log : Log) (printed : String) (ending : Ending) : Outcome :=
    let session : BuildSession := { files, scanner := { scanner with log := scanner.log ++ log } }
    let session := session.saveCache
    { files := session.files, launcher, log := session.scanner.log, printed, ending }
  match generated with
  | .error error => close session.files (errorLog directory error) "" (.exit 1)
  | .ok content =>
    if output.isEmpty then close session.files [] content (.exit 0)
    else
      let attempt := session.files.writeOutput output content
      match attempt.error with
      | some error => close attempt.files [] "" (.fault error)
      | none => close attempt.files [.message .info s!"Wrote {output}"] "" (.exit 0)

/-- Writes the loader files of a planned build.  Files that cannot be written are reported. -/
def writeLoaders (plan : LoaderPlan) (outcome : Outcome) : Outcome :=
  let writing := plan.write outcome.files
  let outcome := { outcome with files := writing.files, log := outcome.log ++ writing.log }
  match writing.error with
  | none => outcome
  | some error =>
    let report := "error: cannot write module files: " ++ error.message
    { outcome with log := outcome.log ++ [LogEntry.message .error report] }.failed

def checkRequires (options : RunOptions) (check : RequireCheck) (files : FileSystem)
    (launcher : Launcher) : Outcome :=
  let (result, log) := check.run files options
  match result with
  | .error error =>
    { files, launcher, log := log ++ errorLog files.workingDirectory error, ending := .exit 1 }
  | .ok report =>
    { files, launcher, log
      printed := report.format ++ "\n"
      ending := .exit (if report.ok then 0 else 1) }

def noCompilerMessage : String :=
  "error: [CMP-0010] no compiler jar given (use --compiler-jar or $CLOSURE_COMPILER_JAR)"

def Request.run (request : Request) (files : FileSystem) (launcher : Launcher) : Outcome :=
  let options := request.options
  let session := openSession files request.cacheFile
  match request.command with
  | .order selection output =>
    withPlan options selection session launcher fun result _ outcome =>
      outcome.emit ("\n".intercalate (UnitList.paths result.orderedUnits)) output
  | .modules selection output =>
    withPlan options selection session launcher fun _ tree outcome =>
      outcome.emit ("\n".intercalate (tree.nodes.flatMap moduleLines)) output
  | .flags selection output =>
    withPlan options selection session launcher fun _ tree outcome =>
      outcome.emit ("\n".intercalate (tree.nodes.map fun node => "--module " ++ node.flag)) output
  | .build selection output compiler sourceMap =>
    if compiler.jar.isEmpty then
      { files, launcher, log := [.message .error noCompilerMessage], ending := .exit 1 }
    else
      withPlan options selection session launcher fun result _ outcome =>
        compile compiler sourceMap output result outcome
  | .deps entries output => writeDeps options entries output session launcher
  | .moduleDeps selection defines loadAsync infoFile =>
    withPlan options selection session launcher fun result tree outcome =>
      match result.config with
      | some config => writeLoaders { config, tree, defines, loadAsync, infoFile } outcome
      | none => outcome
  | .checkRequires check => checkRequires options check files launcher

end ChunkPlan.CommandLine
