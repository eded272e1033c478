import ChunkPlan.Module.Basic

/-!
# Hoisting

A unit that several modules need is held only once: by the nearest module that all of them are
loaded after.  One pass from the root down moves shared units up; each module strikes what the
modules above it have taken over.
-/

set_option autoImplicit false

namespace ChunkPlan.ModuleTree

/-- Strikes one listing of each of some units in every module of a tree. -/
def strike (gone : UnitList) (tree : ModuleTree) : ModuleTree :=
  tree.map fun node => { node with deps := node.deps.removeAll gone }

def holds (tree : ModuleTree) (unit : SourceUnit) : Bool := tree.nodes.any (·.deps.has unit)

/-- The units that a module takes over: those below it that it holds itself and those below two of
its children, each where it is met first.  `seen` holds the units met below earlier children. -/
def shared (own seen : UnitList) : List UnitList → UnitList
  | [] => []
  | units :: later =>
    (units.filter fun unit => !seen.has unit && (own.has unit || later.any (·.has unit)))
      ++ shared own (seen ++ units) later

mutual

/-- Moves shared units up, in a tree below modules that have taken over the units `gone`. -/
def hoist (gone : UnitList) : ModuleTree → ModuleTree
  | .node node children =>
    let own := node.deps.removeAll gone
    let taken := shared own [] (children.map fun child => allUnits (strike gone child))
    .node { node with deps := own.addAll taken } (hoistAll (gone ++ taken) children)

def hoistAll (gone : UnitList) : List ModuleTree → List ModuleTree
  | [] => []
  | tree :: trees => hoist gone tree :: hoistAll gone trees

end

/-- Moves every shared unit up to the nearest module that all its holders are loaded after. -/
def normalize (tree : ModuleTree) : ModuleTree := hoist [] tree

end ChunkPlan.ModuleTree
