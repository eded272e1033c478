import ChunkPlan.BuildError
import ChunkPlan.Json.Basic
import ChunkPlan.Path

/-!
# Module declarations

The `modules` of a configuration: for each name the modules it depends on, its input files and the
wrapper of its output.
-/

set_option autoImplicit false

namespace ChunkPlan

structure ModuleDeclaration where
  name : String
  /-- The modules that it is loaded after; a usable declaration has at most one. -/
  deps : List String
  inputs : List String
  wrapper : String := ""
  deriving DecidableEq, Repr, Inhabited

namespace ModuleDeclaration

/-- The texts of a field that may hold one text, a list of texts, or nothing. -/
def texts (name field : String) (value : Json) : Except BuildError (List String) :=
  if value.isEmpty then .ok []
  else
    match value with
    | .string text => .ok [text]
    | value =>
      match value.strings? with
      | some texts => .ok texts
      | none => .error (.malformedModule name (.notStrings field))

/-- The declaration of one module.  Inputs are seen from a directory if one is given. -/
def ofJson (directory : Option String) (name : String) (descriptor : Json) :
    Except BuildError ModuleDeclaration :=
  match descriptor with
  | .object members => do
    let deps ← texts name "deps" (Json.member members "deps")
    let inputs ← texts name "inputs" (Json.member members "inputs")
    if inputs.isEmpty then .error (.noModuleInputs name)
    else
      return {
        name, deps
        inputs := match directory with
          | some directory => inputs.map fun input => Path.normalize (Path.join directory input)
          | none => inputs
        wrapper := (Json.member members "wrapper").string?.getD "" }
  | _ => .error (.malformedModule name .notAnObject)

def listOfJson (directory : Option String) :
    List (String × Json) → Except BuildError (List (String × ModuleDeclaration))
  | [] => .ok []
  | (name, descriptor) :: rest => do
    let declaration ← ofJson directory name descriptor
    return (name, declaration) :: (← listOfJson directory rest)

/-- The declarations of a `modules` value. -/
def ofModules (directory : Option String) (modules : Json) :
    Except BuildError (Entries ModuleDeclaration) :=
  if modules.isEmpty then .error (.config .noModules none)
  else
    match modules with
    | .object members => listOfJson directory members
    | _ => .error (.config .modulesNotObject none)

end ModuleDeclaration

end ChunkPlan
