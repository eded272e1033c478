import ChunkPlan.FileSystem.Fault
import ChunkPlan.Source.Script
import ChunkPlan.Source.Unit
import ChunkPlan.Text.Utf8

/-!
# Build errors

What stops a build: a fault in the sources, in their dependencies, in the module tree, in the
configuration, or in a run of the compiler.  Each error has a stable code and a message; both
follow from the cause.
-/

set_option autoImplicit false

namespace ChunkPlan

/-- The code and message of an error that is worded by whoever raises it. -/
structure Statement where
  message : String
  code : String
  deriving DecidableEq, Repr, Inhabited

/-- What is wrong with one entry of the `modules` of a configuration. -/
inductive DescriptorFault where
  | notAnObject
  | notStrings (field : String)
  | severalParents (parents : List String)
  | stated (reason : String)
  deriving DecidableEq, Repr, Inhabited

/-- What is wrong with a configuration. -/
inductive ConfigFault where
  | unreadable (fault : FileFault)
  | notJson
  | notAnObject
  | noModules
  | modulesNotObject
  | badScopeName
  | noOutputPath
  | noProductionUri
  | badRenameNamespace
  | emptyModuleList
  /-- A configuration that is only asked for its modules has no production address. -/
  | emptyProductionUri
  | stated (statement : Statement)
  deriving DecidableEq, Repr, Inhabited

/-- What is wrong with a source file. -/
inductive SourceFault where
  | unclosed (what : Unclosed)
  | notFound
  | unreadable (fault : FileFault)
  | notUtf8 (fault : Utf8.Fault)
  | stated (statement : Statement)
  deriving DecidableEq, Repr, Inhabited

/-- A place in a source file, as far as it is known. -/
structure Place where
  line : Option Int := none
  column : Option Int := none
  deriving DecidableEq, Repr, Inhabited

/-- What goes wrong with the external compiler. -/
inductive CompilerFault where
  | versionUnknown (java reason : String)
  | javaTooOld
  | timedOut (limit : String)
  | notRun (reason : String)
  | failed (exitCode : Int) (output : String)
  | stated (statement : Statement) (output : String)
  deriving DecidableEq, Repr, Inhabited

inductive BuildError where
  /-- Two files provide one namespace: the earlier and the later one. -/
  | duplicateProvide (name : String) (earlier later : SourceUnit)
  | unknownNamespace (name : String) (requiredBy : Option SourceUnit)
  | circularDependency (path : List String)
  | noRootModule
  | severalRootModules (names : List String)
  | noModuleInputs (name : String)
  | malformedModule (name : String) (fault : DescriptorFault)
  | noBootstrap
  | severalBootstraps (paths : List String)
  | unknownParent (name parent : String)
  | unreachableModules (names : List String)
  | config (fault : ConfigFault) (file : Option String)
  | source (fault : SourceFault) (file : Option String) (place : Place)
  | compiler (fault : CompilerFault)
  | stated (statement : Statement) (file : Option String)
  deriving Repr, Inhabited

namespace Unclosed

def statement : Unclosed → Statement
  | .string => ⟨"unterminated string literal", "SRC-0010"⟩
  | .blockComment => ⟨"unterminated block comment", "SRC-0020"⟩
  | .template => ⟨"unterminated template literal", "SRC-0030"⟩
  | .regex => ⟨"unterminated regular expression literal", "SRC-0040"⟩

end Unclosed

namespace DescriptorFault

def reason : DescriptorFault → String
  | .notAnObject => "descriptor must be an object"
  | .notStrings field => s!"'{field}' must be a string or a list of strings"
  | .severalParents parents =>
    "a module may depend on one parent module only, got " ++ ", ".intercalate parents
  | .stated reason => reason

end DescriptorFault

namespace ConfigFault

def statement : ConfigFault → Statement
  | .unreadable fault => ⟨"cannot read config file: " ++ fault.reason, "CFG-0010"⟩
  | .notJson => ⟨"config file is not valid JSON", "CFG-0010"⟩
  | .notAnObject => ⟨"Wrong config file.", "CFG-0010"⟩
  | .noModules => ⟨"Modules not found.", "CFG-0020"⟩
  | .modulesNotObject => ⟨"'modules' must be an object.", "CFG-0020"⟩
  | .badScopeName => ⟨"Wrong scope name.", "CFG-0030"⟩
  | .noOutputPath => ⟨"Empty output path.", "CFG-0040"⟩
  | .noProductionUri => ⟨"Empty production uri.", "CFG-0050"⟩
  | .badRenameNamespace => ⟨"Wrong field 'renamePrefixNamespace'.", "CFG-0060"⟩
  | .emptyModuleList => ⟨"Wrong config file: empty list of modules", "CFG-0020"⟩
  | .emptyProductionUri => ⟨"Wrong config file: empty production URI", "CFG-0050"⟩
  | .stated statement => statement

end ConfigFault

namespace SourceFault

def statement : SourceFault → Statement
  | .unclosed what => what.statement
  | .notFound => ⟨"source path not found", "SRC-0050"⟩
  | .unreadable fault => ⟨"cannot read source file: " ++ fault.reason, "SRC-0050"⟩
  | .notUtf8 fault => ⟨"source file is not valid UTF-8: " ++ fault.message, "SRC-0050"⟩
  | .stated statement => statement

end SourceFault

namespace CompilerFault

def statement : CompilerFault → Statement
  | .versionUnknown java reason => ⟨s!"cannot run '{java} -version': {reason}", "CMP-0010"⟩
  | .javaTooOld =>
    ⟨"Closure Compiler requires Java 1.6 or higher. Please visit http://www.java.com/getjava",
      "CMP-0010"⟩
  | .timedOut limit => ⟨s!"compiler timed out after {limit} s", "CMP-0030"⟩
  | .notRun reason => ⟨"cannot run compiler: " ++ reason, "CMP-0020"⟩
  | .failed exitCode _ => ⟨s!"compilation failed with exit code {exitCode}", "CMP-0020"⟩
  | .stated statement _ => statement

def output : CompilerFault → String
  | .failed _ output => output
  | .stated _ output => output
  | _ => ""

end CompilerFault

namespace BuildError

def quotedNames (names : List String) : String :=
  ", ".intercalate (names.map fun name => s!"'{name}'")

def statement : BuildError → Statement
  | .duplicateProvide name earlier later =>
    ⟨s!"namespace '{name}' provided more than once in sources: {earlier.path}, {later.path}",
      "DEP-0010"⟩
  | .unknownNamespace name requiredBy =>
    let message := s!"namespace '{name}' never provided"
    match requiredBy with
    | none => ⟨message, "DEP-0020"⟩
    | some unit => ⟨message ++ s!"; required in {unit.path}", "DEP-0020"⟩
  | .circularDependency path =>
    ⟨"encountered circular dependency: " ++ " -> ".intercalate path, "DEP-0030"⟩
  | .noRootModule =>
    ⟨"root module not found: exactly one module must have no 'deps'", "MOD-0010"⟩
  | .severalRootModules names =>
    ⟨"only one root module is allowed, found: " ++ quotedNames names, "MOD-0020"⟩
  | .noModuleInputs name => ⟨s!"module '{name}' has no 'inputs' field", "MOD-0030"⟩
  | .malformedModule name fault =>
    ⟨s!"module '{name}' is malformed: {fault.reason}", "MOD-0040"⟩
  | .noBootstrap => ⟨"no Closure base.js file found", "MOD-0050"⟩
  | .severalBootstraps paths =>
    ⟨"more than one Closure base.js file found at these paths: " ++ ", ".intercalate paths,
      "MOD-0060"⟩
  | .unknownParent name parent =>
    ⟨s!"module '{name}' depends on undeclared module '{parent}'", "MOD-0070"⟩
  | .unreachableModules names =>
    ⟨"modules not reachable from the root module: " ++ quotedNames names, "MOD-0080"⟩
  | .config fault _ => fault.statement
  | .source fault .. => fault.statement
  | .compiler fault => fault.statement
  | .stated statement _ => statement

def message (error : BuildError) : String := error.statement.message

def code (error : BuildError) : String := error.statement.code

def file : BuildError → Option String
  | .config _ file => file
  | .source _ file _ => file
  | .stated _ file => file
  | _ => none

def place : BuildError → Place
  | .source _ _ place => place
  | _ => {}

def summary (error : BuildError) : String := s!"[{error.code}] {error.message}"

def numberText : Option Int → String
  | some number => toString number
  | none => "None"

/-- The full text of an error: where it is, if that is known, and its summary. -/
def format (error : BuildError) : String :=
  match error.file with
  | none => error.summary
  | some file =>
    if file.isEmpty then error.summary
    else
      match error.place.line with
      | some line => s!"{file}:{line}:{numberText error.place.column}: {error.summary}"
      | none => s!"{file}: {error.summary}"

def ofFailure (file : String) (failure : Script.Failure) : BuildError :=
  .source (.unclosed failure.unclosed) (some file)
    ⟨some failure.position.line, some failure.position.column⟩

end BuildError

/-- Work that succeeds succeeds at each of its steps. -/
theorem of_bind_ok {α β ε : Type} {first : Except ε α} {rest : α → Except ε β} {final : β}
    (ok : first >>= rest = .ok final) :
    ∃ middle, first = .ok middle ∧ rest middle = .ok final := by
  cases first with
  | error fault => simp [bind, Except.bind] at ok
  | ok middle => exact ⟨middle, rfl, by simpa [bind, Except.bind] using ok⟩

theorem exists_of_isOk {α ε : Type} {result : Except ε α} (ok : result.isOk = true) :
    ∃ value, result = .ok value := by
  cases result with
  | ok value => exact ⟨value, rfl⟩
  | error fault => cases ok

theorem exists_error_of_isOk {α ε : Type} {result : Except ε α} (failed : result.isOk = false) :
    ∃ error, result = .error error := by
  cases result with
  | ok value => cases failed
  | error fault => exact ⟨fault, rfl⟩

theorem eq_ok_of_toOption {α ε : Type} {result : Except ε α} {value : α}
    (some : result.toOption = some value) : result = .ok value := by
  cases result with
  | ok value => exact congrArg _ (Option.some.inj some)
  | error fault => cases some

end ChunkPlan
