import ChunkPlan.Entries
import ChunkPlan.Source.Unit
import ChunkPlan.Text.Quoted
import ChunkPlan.Tree

/-!
# Module trees

A build writes one output file for each module.  Modules form a tree: a module is loaded after its
parent, so it can use everything that its ancestors hold.
-/

set_option autoImplicit false

namespace ChunkPlan

/-- How the output of a module is wrapped. -/
inductive Wrapper where
  | template (text : String)
  | generator (make : String → String)

instance : Inhabited Wrapper := ⟨.template ""⟩

def Wrapper.render : Wrapper → String → String
  | .template text, _ => text
  | .generator make, name => make name

structure ModuleNode where
  name : String
  parent : Option String := none
  entries : UnitList := []
  wrapper : Option Wrapper := none
  /-- The units that the module holds, in load order. -/
  deps : UnitList := []
  deriving Inhabited

namespace ModuleNode

/-- The held units, each file once. -/
def units (node : ModuleNode) : UnitList := UnitList.addAll [] node.deps

/-- What the compiler is told of a module: its name, how many sources it takes, and its parent. -/
def flag (node : ModuleNode) : String :=
  s!"{node.name}:{node.units.length}" ++
    match node.parent with
    | some parent => ":" ++ parent
    | none => ""

/-- The template of a module, or the given one if it has no wrapper. -/
def template (node : ModuleNode) (default : String) : String :=
  match node.wrapper with
  | some wrapper => wrapper.render node.name
  | none => default

end ModuleNode

abbrev ModuleTree := Tree ModuleNode

namespace ModuleTree

mutual

/-- The units held by a module and everything below it, each file once: where it comes first. -/
def allUnits : ModuleTree → UnitList
  | .node node children => childUnits node.units children

def childUnits (listed : UnitList) : List ModuleTree → UnitList
  | [] => listed
  | tree :: trees => childUnits (listed.addAll (allUnits tree)) trees

end

def nodes (tree : ModuleTree) : List ModuleNode := tree.preorder

/-- Every module's units, module by module: the list that the counts of the flags refer to. -/
def sources (tree : ModuleTree) : UnitList := tree.nodes.flatMap (·.units)

/-- For each module the modules that it is loaded directly after. -/
def info (tree : ModuleTree) : Entries (List String) :=
  .ofPairs (tree.nodes.map fun node => (node.name, node.parent.toList))

/-- For each module the address that it is loaded from. -/
def uris (tree : ModuleTree) (productionUri : String) : Entries String :=
  .ofPairs (tree.nodes.map fun node => (node.name, productionUri ++ node.name ++ ".js"))

def describe (tree : ModuleTree) : String :=
  "ModuleNode(" ++ Text.quoted tree.value.name ++ ", deps=" ++ toString tree.value.deps.length
    ++ ", children=" ++ Text.quotedList (tree.children.map (·.value.name)) ++ ")"

end ModuleTree

end ChunkPlan
