import ChunkPlan.Module.Plan

/-!
# Forests of modules

Modules that are declared one by one, known by number, and linked to their children afterwards.  A
module can be linked more than once: it then stands at several places of a tree, and what is done to
it at one place shows at all of them.  Planning therefore goes from place to place, in the order of
the same work on a tree of modules; where no module is linked twice, both come to the same.
-/

set_option autoImplicit false

namespace ChunkPlan

structure ModuleForest where
  /-- Each module with the numbers of its children. -/
  slots : Array (ModuleNode × List Nat)
  deriving Inhabited

namespace ModuleForest

/-! ## Modules and links -/

def node (forest : ModuleForest) (number : Nat) : ModuleNode :=
  match forest.slots[number]? with
  | some slot => slot.1
  | none => default

def nodes (forest : ModuleForest) : List ModuleNode := forest.slots.toList.map (·.1)

def push (forest : ModuleForest) (node : ModuleNode) : ModuleForest :=
  ⟨forest.slots.push (node, [])⟩

def link (forest : ModuleForest) (parent : Nat) (children : List Nat) : ModuleForest :=
  ⟨forest.slots.modify parent fun (node, links) => (node, links ++ children)⟩

def update (forest : ModuleForest) (number : Nat) (change : UnitList → UnitList) : ModuleForest :=
  ⟨forest.slots.modify number fun (node, links) =>
    ({ node with deps := change node.deps }, links)⟩

/-! ## Trees -/

/-- The places below a module, each with the number of what stands there, at most `depth` levels of
them. -/
def places (forest : ModuleForest) : (depth : Nat) → Nat → Tree Nat
  | 0, number => .node number []
  | depth + 1, number =>
    let links := match forest.slots[number]? with
      | some slot => slot.2
      | none => []
    .node number (links.map (places forest depth))

/-- The places below a module; no module is below itself, so there are no more levels than
modules. -/
def below (forest : ModuleForest) (number : Nat) : Tree Nat :=
  places forest forest.slots.size number

def tree (forest : ModuleForest) (number : Nat) : ModuleTree :=
  (forest.below number).map forest.node

/-! ## Planning -/

/-- Strikes one listing of each of some units at every place of a tree. -/
def strike (forest : ModuleForest) (gone : UnitList) (places : Tree Nat) : ModuleForest :=
  places.preorder.foldl (fun forest number => forest.update number (·.removeAll gone)) forest

/-- Lists what the entries of some modules need, one after the other, up to the first error. -/
def collect (catalog : Catalog) (forest : ModuleForest) :
    List Nat → ModuleForest × Option BuildError
  | [] => (forest, none)
  | number :: numbers =>
    match catalog.dependencies (forest.node number).entries with
    | .error error => (forest, some error)
    | .ok units => collect catalog (forest.update number (·.addAll units)) numbers

/-- Lists what each module below a number needs, resolved against a pool of units. -/
def calculate (forest : ModuleForest) (pool : UnitList) (number : Nat) :
    ModuleForest × Option BuildError :=
  match Catalog.ofUnits pool with
  | .error error => (forest, some error)
  | .ok catalog => forest.collect catalog (forest.below number).preorder

mutual

def hoist (forest : ModuleForest) : Tree Nat → ModuleForest
  | .node number children =>
    let taken := ModuleTree.shared (forest.node number).deps []
      (children.map fun child => ModuleTree.allUnits (child.map forest.node))
    hoistAll (forest.update number (·.addAll taken)) taken children

/-- Moves shared units up in some trees, below a module that has taken over the units `gone`. -/
def hoistAll (forest : ModuleForest) (gone : UnitList) : List (Tree Nat) → ModuleForest
  | [] => forest
  | tree :: trees => hoistAll (hoist (forest.strike gone tree) tree) gone trees

end

/-- Moves every shared unit below a module up. -/
def normalize (forest : ModuleForest) (number : Nat) : ModuleForest :=
  forest.hoist (forest.below number)

def build (forest : ModuleForest) (pool : UnitList) (number : Nat) :
    ModuleForest × Option BuildError :=
  match ModuleTree.bootstrap pool with
  | .error error => (forest, some error)
  | .ok unit =>
    match (forest.update number (·.lead unit)).calculate pool number with
    | (forest, some error) => (forest, some error)
    | (forest, none) => (forest.normalize number, none)

end ModuleForest

end ChunkPlan
