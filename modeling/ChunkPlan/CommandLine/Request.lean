import ChunkPlan.CommandLine.Option
import ChunkPlan.Compiler.Invocation
import ChunkPlan.DepsFile
import ChunkPlan.RequireCheck.Report

/-!
# Requests

What a command line asks for: options of the run, a command, and the options of the command.
-/

set_option autoImplicit false

namespace ChunkPlan.CommandLine

/-- Which build a command works on. -/
structure Selection where
  roots : List String
  config : String := ""
  /-- The inputs of a single build; none if the command has no option for them. -/
  inputs : Option (List String) := none
  deriving DecidableEq, Repr, Inhabited

inductive Command where
  | order (selection : Selection) (output : String)
  | build (selection : Selection) (output : String) (compiler : Compiler) (sourceMap : String)
  | modules (selection : Selection) (output : String)
  | flags (selection : Selection) (output : String)
  | deps (entries : List DepsEntry) (output : String)
  | moduleDeps (selection : Selection) (defines : Defines) (loadAsync : Bool) (infoFile : String)
  | checkRequires (check : RequireCheck)

/-- The variables of the environment that a command line looks at, empty if not set. -/
structure Environment where
  compilerJar : String := ""
  java : String := ""
  deriving DecidableEq, Repr, Inhabited

structure Request where
  options : RunOptions
  cacheFile : String
  command : Command

namespace Request

/-! ## Options -/

def verboseOption : OptionSpec := { short := some 'v', long := "verbose", values := 0 }
def logOption : OptionSpec := { short := some 'l', long := "log", values := 0 }
def cacheOption : OptionSpec := { long := "cache" }
def scanHiddenOption : OptionSpec := { long := "scan-hidden", values := 0 }
def rootOption : OptionSpec := { short := some 'r', long := "root" }
def configOption : OptionSpec := { short := some 'c', long := "config" }
def inputOption : OptionSpec := { short := some 'i', long := "input" }
def outputOption : OptionSpec := { short := some 'o', long := "output" }
def defineOption : OptionSpec := { short := some 'D', long := "define" }
def externsOption : OptionSpec := { long := "externs" }

def runSpecs : List OptionSpec := [verboseOption, logOption, cacheOption, scanHiddenOption]

def commandSpecs : Entries (List OptionSpec) :=
  [("order", [rootOption, configOption, inputOption, outputOption]),
    ("build", [rootOption, configOption, inputOption, outputOption, defineOption,
      { short := some 'j', long := "compiler-jar" }, { long := "java" }, { long := "jvm-flag" },
      { short := some 'f', long := "compiler-flag" }, externsOption, { long := "source-map" },
      { long := "timeout" }]),
    ("modules", [rootOption, configOption, outputOption]),
    ("flags", [rootOption, configOption, outputOption]),
    ("deps", [rootOption, outputOption, { long := "base-dir" },
      { long := "root-with-prefix", values := 2 }, { long := "path-with-depspath", values := 2 }]),
    ("module-deps", [rootOption, configOption, defineOption, { long := "load-async", values := 0 },
      { long := "module-info" }]),
    ("check-requires", [rootOption, externsOption, { long := "exclude" }])]

/-! ## Reading a command line -/

def selection (takesInputs : Bool) (given : List Occurrence) : Selection :=
  { roots := Occurrence.all given "root"
    config := Occurrence.last given "config"
    inputs := if takesInputs then some (Occurrence.all given "input") else none }

def timeLimit? (given : List Occurrence) : Option (Option TimeLimit) :=
  (Occurrence.all given "timeout").foldlM (fun _ text =>
    (Numeral.binary64? text).map fun seconds => some (.fractional seconds)) none

def compiler? (environment : Environment) (given : List Occurrence) : Option Compiler := do
  let timeLimit ← timeLimit? given
  let java := if environment.java.isEmpty then "java" else environment.java
  return {
    jar := Occurrence.last given "compiler-jar" environment.compilerJar
    java := Occurrence.last given "java" java
    javaFlags := Occurrence.all given "jvm-flag"
    flags := Occurrence.all given "compiler-flag"
    defines := Defines.parse (Occurrence.all given "define")
    externs := Occurrence.all given "externs"
    timeLimit }

def depsEntries (given : List Occurrence) : List DepsEntry :=
  let roots := Occurrence.all given "root"
  (if roots.isEmpty then [] else [.files roots (Occurrence.last given "base-dir") ""])
    ++ (Occurrence.pairs given "root-with-prefix").map (fun (root, lead) => .files [root] root lead)
    ++ (Occurrence.pairs given "path-with-depspath").map (fun (file, path) => .file file path)

/-- The command of a name with some options.  A command on modules needs a configuration. -/
def command? (environment : Environment) (name : String) (given : List Occurrence) :
    Option Command :=
  let selection := selection (name = "order" || name = "build") given
  let output := Occurrence.last given "output"
  let configured := Occurrence.has given "config"
  if name = "order" then some (.order selection output)
  else if name = "build" then
    (compiler? environment given).map fun compiler =>
      .build selection output compiler (Occurrence.last given "source-map")
  else if name = "modules" && configured then some (.modules selection output)
  else if name = "flags" && configured then some (.flags selection output)
  else if name = "deps" then some (.deps (depsEntries given) output)
  else if name = "module-deps" && configured then
    some (.moduleDeps selection (Defines.parse (Occurrence.all given "define"))
      (Occurrence.has given "load-async") (Occurrence.last given "module-info"))
  else if name = "check-requires" then
    some (.checkRequires
      ⟨Occurrence.all given "root", Occurrence.all given "externs",
        Occurrence.all given "exclude"⟩)
  else none

/-- Reads a command line; `none` for one that is not understood. -/
def parse? (environment : Environment) (words : List String) : Option Request := do
  let (run, rest) ← takeOptions runSpecs words
  match rest with
  | [] => none
  | name :: words =>
    let specs ← commandSpecs.find? name
    let (given, rest) ← takeOptions specs words
    if rest.isEmpty then
      let command ← command? environment name given
      return {
        options := .ofVerbosity (Occurrence.count run "verbose") (Occurrence.has run "log")
          (Occurrence.has run "scan-hidden")
        cacheFile := Occurrence.last run "cache"
        command }
    else none

end Request

end ChunkPlan.CommandLine
