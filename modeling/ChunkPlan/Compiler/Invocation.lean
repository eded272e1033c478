import ChunkPlan.BuildError
import ChunkPlan.Compiler.Define
import ChunkPlan.Compiler.JavaVersion
import ChunkPlan.Compiler.Wrapper
import ChunkPlan.Log

/-!
# Compiler invocations

The command line of the compiler and a run of it.  Programs are started by a launcher, which knows
how each start will end and records what was started.
-/

set_option autoImplicit false

namespace ChunkPlan

inductive RunOutcome where
  | finished (exitCode : Int) (output : String) (errorOutput : String)
  | timedOut
  | failed (reason : String)
  deriving DecidableEq, Repr, Inhabited

structure Launcher where
  /-- How the next programs end. -/
  pending : List RunOutcome := []
  /-- The argument lists of the programs started so far. -/
  calls : List (List String) := []
  deriving Inhabited

def Launcher.start (launcher : Launcher) (args : List String) : RunOutcome × Launcher :=
  let calls := launcher.calls ++ [args]
  match launcher.pending with
  | [] => (.failed "no such program", { launcher with calls })
  | outcome :: pending => (outcome, ⟨pending, calls⟩)

/-- A number of seconds. -/
inductive TimeLimit where
  | whole (seconds : Int)
  | fractional (seconds : Binary64)
  deriving DecidableEq, Repr, Inhabited

def TimeLimit.describe : Option TimeLimit → String
  | none => "None"
  | some (.whole seconds) => toString seconds
  | some (.fractional seconds) => seconds.render .plain

structure Compiler where
  jar : String
  java : String := "java"
  javaFlags : List String := []
  flags : List String := []
  defines : Defines := []
  externs : List String := []
  timeLimit : Option TimeLimit := none
  deriving Inhabited

structure Compilation where
  sources : List String
  modules : List ModuleSpec := []
  outputPrefix : String := ""
  sourceMap : String := ""
  extraArgs : List String := []
  deriving Inhabited

namespace Compiler

def allFlags (compiler : Compiler) : List String :=
  compiler.defines.flatMap (fun define => ["--define", Defines.argument define])
    ++ compiler.externs.flatMap (fun file => ["--externs", file])
    ++ compiler.flags

/-- An option with a value that may be empty, which leaves it out. -/
def optional (option value : String) : List String := if value.isEmpty then [] else [option, value]

def args (compiler : Compiler) (compilation : Compilation) : List String :=
  compiler.java :: compiler.javaFlags ++ ["-jar", compiler.jar] ++ compiler.allFlags
    ++ compilation.sources.flatMap (fun path => ["--js", path])
    ++ compilation.modules.flatMap
      (fun spec => ["--module", spec.flag, "--module_wrapper", spec.wrapper])
    ++ (if compilation.modules.isEmpty then []
        else optional "--module_output_path_prefix" compilation.outputPrefix)
    ++ optional "--create_source_map" compilation.sourceMap
    ++ compilation.extraArgs

/-- What is left after a step of a run: the launcher and the log of the step. -/
structure Trace where
  launcher : Launcher
  log : Log := []
  deriving Inhabited

def javaVersion (compiler : Compiler) (launcher : Launcher) :
    Except BuildError (Option JavaVersion) × Launcher :=
  let args := [compiler.java, "-version"]
  match launcher.start args with
  | (.failed reason, launcher) =>
    (.error (.compiler (.versionUnknown compiler.java reason)), launcher)
  | (.timedOut, launcher) =>
    let limit := TimeLimit.describe compiler.timeLimit
    let reason := s!"Command '{Text.quotedList args}' timed out after {limit} seconds"
    (.error (.compiler (.versionUnknown compiler.java reason)), launcher)
  | (.finished _ output errorOutput, launcher) =>
    (.ok (JavaVersion.parse? (if errorOutput.isEmpty then output else errorOutput)), launcher)

def checkJava (compiler : Compiler) (launcher : Launcher) : Except BuildError Unit × Trace :=
  match compiler.javaVersion launcher with
  | (.error error, launcher) => (.error error, { launcher })
  | (.ok version, launcher) =>
    let log := [.message .debug ("Java version: " ++ JavaVersion.describe version)]
    if version.any (·.isSupported) then (.ok (), ⟨launcher, log⟩)
    else (.error (.compiler .javaTooOld), ⟨launcher, log⟩)

def withoutTrailingBlanks (text : String) : String :=
  String.ofList (Text.trimEnd CharClass.isBlank text.toList)

/-- Runs the compiler.  The result is what it writes to its output. -/
def run (compiler : Compiler) (launcher : Launcher) (compilation : Compilation) :
    Except BuildError String × Trace :=
  match compiler.checkJava launcher with
  | (.error error, trace) => (.error error, trace)
  | (.ok (), trace) =>
    let args := compiler.args compilation
    let command := "Compiling with the following command: " ++ " ".intercalate args
    let log := trace.log ++ [.message .info command]
    match trace.launcher.start args with
    | (.timedOut, launcher) =>
      (.error (.compiler (.timedOut (TimeLimit.describe compiler.timeLimit))), ⟨launcher, log⟩)
    | (.failed reason, launcher) => (.error (.compiler (.notRun reason)), ⟨launcher, log⟩)
    | (.finished exitCode output errorOutput, launcher) =>
      if exitCode ≠ 0 then
        (.error (.compiler (.failed exitCode errorOutput)), ⟨launcher, log⟩)
      else if errorOutput.isEmpty then (.ok output, ⟨launcher, log⟩)
      else
        (.ok output, ⟨launcher, log ++ [.message .info (withoutTrailingBlanks errorOutput)]⟩)

end Compiler

end ChunkPlan
