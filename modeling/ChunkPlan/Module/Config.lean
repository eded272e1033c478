import ChunkPlan.Module.Declaration

/-!
# Module configurations

The options of a build with several modules, and the declarations of the modules.
-/

set_option autoImplicit false

namespace ChunkPlan

structure ModuleConfig where
  /-- What the path of an output file begins with; the name of the module and `.js` follow. -/
  outputPrefix : String
  /-- What the address of an output file begins with. -/
  productionUri : String
  /-- The name of an object that all modules share, empty if there is none. -/
  scopeName : String := ""
  /-- The name of the shared object inside a wrapper. -/
  renameNamespace : String := "z"
  modules : Entries ModuleDeclaration := []
  /-- The absolute path of the file it was read from, empty if there is none. -/
  file : String := ""
  deriving Repr, Inhabited

namespace ModuleConfig

def directory (workingDirectory : String) (config : ModuleConfig) : String :=
  if config.file.isEmpty then workingDirectory else Path.directory config.file

def outputFile (config : ModuleConfig) (name : String) : String :=
  config.outputPrefix ++ name ++ ".js"

/-- The text of a field that may be left out, or the given error for any other value. -/
def optionalText (value : Json) (fault : BuildError) : Except BuildError String :=
  if value.isEmpty then .ok ""
  else
    match value with
    | .string text => .ok text
    | _ => .error fault

def requiredText (value : Json) (fault : BuildError) : Except BuildError String :=
  match value with
  | .string text => if text.isEmpty then .error fault else .ok text
  | _ => .error fault

/-- Reads a configuration; paths in it are seen from the directory of its file. -/
def ofJson (workingDirectory : String) (members : Entries Json) (file : String) :
    Except BuildError ModuleConfig := do
  let fault (fault : ConfigFault) : BuildError :=
    .config fault (if file.isEmpty then none else some file)
  let absolute := Path.absolute workingDirectory file
  let directory := if file.isEmpty then workingDirectory else Path.directory absolute
  let scopeName ← optionalText (Json.member members "globalScopeName") (fault .badScopeName)
  let outputPath ← requiredText (Json.member members "outputPath") (fault .noOutputPath)
  let productionUri ← requiredText (Json.member members "productionUri") (fault .noProductionUri)
  let renamed ← optionalText (Json.member members "renamePrefixNamespace")
    (fault .badRenameNamespace)
  let output := Path.normalize (Path.join directory outputPath)
  return {
    outputPrefix := if outputPath.toList.getLast? = some '/' then output ++ "/" else output
    productionUri, scopeName
    renameNamespace := if renamed.isEmpty then "z" else renamed
    modules := ← ModuleDeclaration.ofModules (some directory) (Json.member members "modules")
    file := if file.isEmpty then "" else absolute }

end ModuleConfig

/-- What the configuration alone says about the module tree: for each module the ones it is loaded
after, and the address that it is loaded from. -/
structure ModuleMap where
  info : Entries (List String)
  uris : Entries String
  deriving Repr, Inhabited

namespace ModuleMap

def ofDescriptors (productionUri : String) :
    List (String × Json) → Except BuildError ModuleMap
  | [] => .ok ⟨[], []⟩
  | (name, descriptor) :: rest => do
    let deps := match descriptor with
      | .object members => Json.member members "deps"
      | _ => .null
    let deps ← ModuleDeclaration.texts name "deps" deps
    let map ← ofDescriptors productionUri rest
    return ⟨(name, deps) :: map.info, (name, productionUri ++ name ++ ".js") :: map.uris⟩

def ofJson (members : Entries Json) : Except BuildError ModuleMap :=
  let modules := Json.member members "modules"
  let productionUri := Json.member members "productionUri"
  if modules.isEmpty then .error (.config .emptyModuleList none)
  else
    match modules with
    | .object descriptors =>
      if productionUri.isEmpty then .error (.config .emptyProductionUri none)
      else ofDescriptors productionUri.text descriptors
    | _ => .error (.config .modulesNotObject none)

end ModuleMap

end ChunkPlan
