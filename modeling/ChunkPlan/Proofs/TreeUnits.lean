import ChunkPlan.Module.Hoisting
import ChunkPlan.Proofs.Place
import ChunkPlan.Proofs.UnitList

/-!
# Units of a tree

The units of a module and of everything below it.  Every module leaves out the files that are listed
again among its own units and among those that its children have come up with; that is the same as
going through the lists of all modules, parents first, and leaving out repetitions at the end.
-/

set_option autoImplicit false

namespace ChunkPlan

namespace UnitList

/-- The listings in front of which their file is not listed yet. -/
def firstListings (units : UnitList) : UnitList :=
  (units.zipIdx.filter fun (unit, index) => unit.path ∉ paths (units.take index)).map Prod.fst

theorem firstListings_concat (units : UnitList) (unit : SourceUnit) :
    firstListings (units ++ [unit]) =
      if unit.path ∈ units.paths then firstListings units else firstListings units ++ [unit] := by
  -- What stands in front of a listing does not depend on what is listed later.
  have unchanged : (units.zipIdx.filter fun (listed, index) =>
      listed.path ∉ paths ((units ++ [unit]).take index)) =
        units.zipIdx.filter fun (listed, index) => listed.path ∉ paths (units.take index) := by
    apply List.filter_congr
    intro (listed, index) member
    have within : index < units.length := by simpa using (List.mem_zipIdx member).2.1
    simp only [List.take_append_of_le_length within.le]
  rw [firstListings, List.zipIdx_append, List.filter_append, unchanged, List.map_append,
    ← firstListings]
  by_cases known : unit.path ∈ units.paths <;> simp [known]

theorem addAll_nil_eq_firstListings (units : UnitList) : addAll [] units = firstListings units := by
  induction units using List.reverseRecOn with
  | nil => rfl
  | append_singleton rest last ih =>
    have known : has (addAll [] rest) last = true ↔ last.path ∈ paths rest := by
      rw [has_addAll, has_nil, Bool.false_or, has_iff_mem_paths]
    rw [addAll_concat, firstListings_concat, ← ih, add]
    simp only [known]

end UnitList

namespace ModuleTree

open UnitList

variable {tree : ModuleTree} {unit : SourceUnit}

theorem childUnits_eq (listed : UnitList) (trees : List ModuleTree) :
    childUnits listed trees = listed.addAll (trees.flatMap allUnits) := by
  induction trees generalizing listed with
  | nil => rfl
  | cons tree trees ih => rw [childUnits, ih, List.flatMap_cons, addAll_append]

/-- Repetitions that a module's children have left out make no difference to the module. -/
theorem allUnits_eq (tree : ModuleTree) :
    tree.allUnits = addAll [] (tree.nodes.flatMap (·.deps)) := by
  induction tree using Tree.induct with
  | node node children ih =>
    rw [allUnits, childUnits_eq, ModuleNode.units, nodes, Tree.preorder_node, List.flatMap_cons,
      addAll_append, List.flatMap_assoc, List.flatMap_congr ih, addAll_flatMap_addAll_nil]
    rfl

theorem distinct_allUnits (tree : ModuleTree) : tree.allUnits.Distinct :=
  allUnits_eq tree ▸ distinct_nil.addAll _

theorem has_allUnits : tree.allUnits.has unit = tree.holds unit := by
  rw [allUnits_eq, has_addAll, has_flatMap]
  rfl

/-- The units of a tree are the first listings of all files in the lists of its modules, one after
the other and parents first. -/
theorem allUnits_eq_firstListings (tree : ModuleTree) :
    tree.allUnits = firstListings (tree.nodes.flatMap (·.deps)) :=
  calc
    tree.allUnits = addAll [] (tree.nodes.flatMap (·.deps)) := allUnits_eq tree
    _ = firstListings (tree.nodes.flatMap (·.deps)) := addAll_nil_eq_firstListings _

/-- Of a file that two modules list with different namespaces, the listing that comes first counts,
although the other one stands nearer to the root. -/
example :
    let left := Tree.node { name := "left" } [
      .node { name := "leaf", deps := [{ path := "a", provides := ["old"] }, { path := "b" }] } []]
    let right := Tree.node { name := "right", deps := [{ path := "a", provides := ["new"] }] } []
    (allUnits (.node { name := "root", deps := [{ path := "b" }, { path := "b" }] } [left, right])).map
      (fun unit => (unit.path, unit.provides)) = [("b", []), ("a", ["old"])] := by
  decide

end ModuleTree

end ChunkPlan
