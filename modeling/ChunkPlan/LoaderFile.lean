import ChunkPlan.Compiler.Define
import ChunkPlan.Compiler.Wrapper
import ChunkPlan.FileSystem.Basic
import ChunkPlan.Log

/-!
# Loader files

For pages that are not compiled, each module has a loader file: a script that loads the sources of
the module in order.  The loader of the root also publishes the module graph, unless that goes into
a file of its own.
-/

set_option autoImplicit false

namespace ChunkPlan

/-- What the loader files of a tree have in common. -/
structure LoaderPlan where
  config : ModuleConfig
  tree : ModuleTree
  defines : Defines := []
  /-- Whether sources are loaded without waiting for each other. -/
  loadAsync : Bool := false
  /-- The path of the file that the module graph goes into, empty if there is none. -/
  infoFile : String := ""

namespace LoaderPlan

def loaderTemplate : String := String.join <| List.map (· ++ "\n")
  ["(function(deps, loadAsync) \x7b",
    "  var head = document.getElementsByTagName('head')[0];",
    "  deps.forEach(function(dep) \x7b",
    "    var uri = dep[0];",
    "    var isModule = dep[1];",
    "    var text = isModule ? 'goog.loadModuleFromUrl(' + JSON.stringify(uri) + ');' : '';",
    "    if (loadAsync) \x7b",
    "      var script = document.createElement('script');",
    "      script.async = false;",
    "      if (isModule) \x7b",
    "        script.text = text;",
    "      \x7d else \x7b",
    "        script.src = uri;",
    "      \x7d",
    "      head.appendChild(script);",
    "    \x7d else \x7b",
    "      document.write(isModule ? '<script>' + text + '</script>' : '<script src=\""
      ++ "' + uri + '\"></script>');",
    "    \x7d",
    "  \x7d);",
    "\x7d)(%deps%, %loadAsync%);"]

def rootTemplate : String := String.join <| List.map (· ++ "\n")
  ["var MODULE_INFO = %moduleInfo%;",
    "var MODULE_URIS = %moduleUris%;",
    "var MODULE_USE_DEBUG_MODE = true;",
    "var CLOSURE_UNCOMPILED_DEFINES = %defines%;"]

/-- The addresses of the sources of a module, seen from where its loader file is served. -/
def fileUris (workingDirectory : String) (config : ModuleConfig) (node : ModuleNode) :
    List String :=
  let served := Path.directory (config.productionUri ++ node.name ++ ".js")
  let output := Path.absolute workingDirectory (config.outputFile node.name)
  node.units.map fun unit =>
    served ++ "/"
      ++ Path.withSlashes (Path.relative workingDirectory unit.path (Path.directory output))

/-- The addresses with the marks of module files, as the loader takes them. -/
def loaderDeps (uris : List String) (units : UnitList) : Json :=
  .array <| (uris.zip units).map fun (uri, unit) => .array [.string uri, .bool unit.isModule]

def builtInTemplate (plan : LoaderPlan) (uris : List String) (node : ModuleNode) : String :=
  let loader := Text.substitute
    [("%deps%", (loaderDeps uris node.units).render),
      ("%loadAsync%", if plan.loadAsync then "true" else "false")] loaderTemplate
  if node.parent.isNone && plan.infoFile.isEmpty then rootTemplate ++ loader else loader

def placeholders (plan : LoaderPlan) (uris : List String) (node : ModuleNode) :
    List (String × String) :=
  [("%defines%", plan.defines.toJson.render),
    ("%moduleInfo%", (Json.ofInfo plan.tree.info).render),
    ("%moduleUris%", (Json.ofUris (plan.tree.uris plan.config.productionUri)).render),
    ("%name%", node.name),
    ("%productionUri%", plan.config.productionUri),
    ("%files%", (Json.ofStrings uris).render)]

def content (workingDirectory : String) (plan : LoaderPlan) (node : ModuleNode) : String :=
  let uris := fileUris workingDirectory plan.config node
  Text.substitute (plan.placeholders uris node) (node.template (plan.builtInTemplate uris node))

end LoaderPlan

namespace ModuleMap

def uriLine (name uri : String) : String :=
  s!"    '{name}': TrustedResourceUrl.fromConstant(Const.from('{uri}')),\n"

def infoLine (name : String) (deps : List String) : String :=
  s!"    '{name}': [" ++ ", ".intercalate (deps.map fun dep => s!"'{dep}'") ++ "],\n"

def content (map : ModuleMap) : String :=
  let info := map.uris.keys.map fun name => infoLine name ((map.info.find? name).getD [])
  let uris := map.uris.map fun (name, uri) => uriLine name uri
  String.join
    ["goog.module('moduleInfo');\n\n",
      "const Const = goog.require('goog.string.Const');\n",
      "const TrustedResourceUrl = goog.require('goog.html.TrustedResourceUrl');\n\n",
      "exports = \x7b\n  moduleInfo: \x7b\n", String.join info,
      "  \x7d,\n  trustedUris: \x7b\n", String.join uris,
      "  \x7d,\n\x7d;"]

def ofTree (tree : ModuleTree) (productionUri : String) : ModuleMap :=
  ⟨tree.info, tree.uris productionUri⟩

end ModuleMap

/-- Files being written: what is there now, what was written, and the log.  An error ends the
writing; what was done before it stays. -/
structure Writing where
  files : FileSystem
  written : List String := []
  log : Log := []
  error : Option FileError := none
  deriving Inhabited

namespace Writing

/-- Writes one file; `announced` files are told of in the log. -/
def write (writing : Writing) (path text : String) (announced : Bool) : Writing :=
  let attempt := writing.files.writeOutput path text
  match attempt.error with
  | some _ => { writing with files := attempt.files, error := attempt.error }
  | none =>
    { writing with
      files := attempt.files
      written := writing.written ++ [path]
      log := if announced then writing.log ++ [.message .info s!"Wrote {path}"] else writing.log }

end Writing

namespace LoaderPlan

/-- Writes the loader files of some modules, up to the first error. -/
def writeNodes (plan : LoaderPlan) (writing : Writing) : List ModuleNode → Writing
  | [] => writing
  | node :: nodes =>
    match writing.error with
    | some _ => writing
    | none =>
      let text := plan.content writing.files.workingDirectory node
      writeNodes plan (writing.write (plan.config.outputFile node.name) text true) nodes

/-- Writes the file of the module graph, if there is one, and all loader files. -/
def write (plan : LoaderPlan) (files : FileSystem) : Writing :=
  let nodes := plan.tree.nodes
  if plan.infoFile.isEmpty then plan.writeNodes { files } nodes
  else
    let map := ModuleMap.ofTree plan.tree plan.config.productionUri
    plan.writeNodes (Writing.write { files } plan.infoFile map.content false) nodes

end LoaderPlan

end ChunkPlan
