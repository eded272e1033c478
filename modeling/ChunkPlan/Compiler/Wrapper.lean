import ChunkPlan.Json.Printer
import ChunkPlan.Module.Basic
import ChunkPlan.Module.Config
import ChunkPlan.Text.Substitution

/-!
# Module wrappers

What the compiler puts around the output of each module.  A wrapper is a template with placeholders
between percent signs; the compiler itself fills in the compiled source.
-/

set_option autoImplicit false

namespace ChunkPlan

namespace Json

def ofInfo (info : Entries (List String)) : Json :=
  .object (info.map fun entry => (entry.1, .ofStrings entry.2))

def ofUris (uris : Entries String) : Json :=
  .object (uris.map fun entry => (entry.1, .string entry.2))

end Json

namespace Wrapper

def child : String := "%source%\n//# sourceURL=%productionUri%%name%.js"

/-- The wrapper of a module below the root that works on a shared object. -/
def childWithScope : String :=
  "(function(%renamePrefixNamespace%)\x7b%source%\x7d)(%globalScopeName%);\n"
    ++ "//# sourceURL=%productionUri%%name%.js"

def rootDefinitions : String :=
  "MODULE_INFO=%moduleInfo%;\nMODULE_URIS=%moduleUris%;\nMODULE_USE_DEBUG_MODE=false;\n"

def root : String := rootDefinitions ++ "%source%"

def rootWithScope : String :=
  rootDefinitions ++ "%globalScopeName%=\x7b\x7d;\n"
    ++ "(function(%renamePrefixNamespace%)\x7b%source%\x7d)(%globalScopeName%);"

def builtIn (node : ModuleNode) (scopeName : String) : String :=
  match node.parent, scopeName.isEmpty with
  | some _, true => child
  | some _, false => childWithScope
  | none, true => root
  | none, false => rootWithScope

def placeholders (config : ModuleConfig) (info : Entries (List String)) (uris : Entries String)
    (name : String) : List (String × String) :=
  [("%globalScopeName%", config.scopeName),
    ("%moduleInfo%", (Json.ofInfo info).render .compact),
    ("%moduleUris%", (Json.ofUris uris).render .compact),
    ("%name%", name),
    ("%productionUri%", config.productionUri),
    ("%renamePrefixNamespace%", config.renameNamespace),
    ("%source%", "%s")]

def expand (config : ModuleConfig) (info : Entries (List String)) (uris : Entries String)
    (name template : String) : String :=
  Text.substitute (placeholders config info uris name) template

end Wrapper

/-- What the compiler is told of one module: its flag and its wrapper. -/
structure ModuleSpec where
  flag : String
  wrapper : String
  deriving DecidableEq, Repr, Inhabited

namespace ModuleTree

def specs (tree : ModuleTree) (config : ModuleConfig) : List ModuleSpec :=
  let info := tree.info
  let uris := tree.uris config.productionUri
  tree.nodes.map fun node =>
    let template := node.template (Wrapper.builtIn node config.scopeName)
    let wrapper := Wrapper.expand config info uris node.name template
    ⟨node.flag, node.name ++ ":" ++ wrapper⟩

end ModuleTree

end ChunkPlan
