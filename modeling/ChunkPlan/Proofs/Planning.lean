import ChunkPlan.Module.Plan
import ChunkPlan.Proofs.Layering
import ChunkPlan.Proofs.Resolution

/-!
# What a plan holds

A plan that succeeds holds what the modules need and nothing else, in an order in which it can be
loaded.  Only the bootstrap unit is loaded before what it requires: it comes first whatever it says.
-/

set_option autoImplicit false

namespace ChunkPlan.ModuleTree

open UnitList

variable {catalog : Catalog} {pool : UnitList} {tree planned : ModuleTree} {trees : List ModuleTree}
  {node : ModuleNode} {boot unit : SourceUnit}

/-- A module that lists what its entries need after what it held before. -/
def filled (catalog : Catalog) (node : ModuleNode) : ModuleNode :=
  { node with deps := node.deps.addAll ((catalog.dependencies node.entries).toOption.getD []) }

/-- Whether what the entries of a module need can be listed. -/
def Met (catalog : Catalog) (node : ModuleNode) : Prop :=
  ∃ units, catalog.dependencies node.entries = .ok units

/-! ## Collecting -/

theorem collectAll_ok (done : (collectAll catalog trees).2 = none) :
    (collectAll catalog trees).1 = trees.map (fun tree => (collect catalog tree).tree) ∧
      ∀ tree ∈ trees, (collect catalog tree).error = none := by
  induction trees with
  | nil => exact ⟨by rw [collectAll]; rfl, by simp⟩
  | cons tree trees ih =>
    rw [collectAll] at done ⊢
    cases failed : (collect catalog tree).error with
    | some error => simp [failed] at done
    | none =>
      simp only [failed] at done ⊢
      obtain ⟨collected, complete⟩ := ih done
      refine ⟨by rw [collected, List.map_cons], fun other member => ?_⟩
      rcases List.mem_cons.mp member with rfl | member
      · exact failed
      · exact complete other member

/-- Collecting without an error fills every module. -/
theorem collect_ok (done : (collect catalog tree).error = none) :
    (collect catalog tree).tree = tree.map (filled catalog) ∧ ∀ node ∈ tree.nodes, Met catalog node := by
  induction tree using Tree.induct with
  | node node children ih =>
    rw [collect] at done ⊢
    cases listed : catalog.dependencies node.entries with
    | error error => simp [listed] at done
    | ok units =>
      simp only [listed] at done ⊢
      obtain ⟨collected, complete⟩ := collectAll_ok done
      have filledHere : filled catalog node = { node with deps := node.deps.addAll units } := by
        simp [filled, listed, Except.toOption]
      constructor
      · rw [Tree.map_node, filledHere, collected]
        exact congrArg _ (List.map_congr_left fun child member =>
          (ih child member (complete child member)).1)
      · intro other member
        rw [nodes, Tree.preorder_node] at member
        rcases List.mem_cons.mp member with rfl | below
        · exact ⟨units, listed⟩
        · obtain ⟨child, inside, reached⟩ := List.mem_flatMap.mp below
          exact (ih child inside (complete child inside)).2 other reached

private theorem calculate_ok (done : (calculate pool tree).error = none) :
    ∃ catalog, Catalog.ofUnits pool = .ok catalog ∧
      (calculate pool tree).tree = tree.map (filled catalog) ∧
        ∀ node ∈ tree.nodes, Met catalog node := by
  unfold calculate at done ⊢
  cases made : Catalog.ofUnits pool with
  | error error => simp [made] at done
  | ok catalog =>
    simp only [made] at done ⊢
    exact ⟨catalog, rfl, collect_ok done⟩

theorem calculate_of_build (selected : bootstrap pool = .ok boot)
    (built : build pool tree = ⟨planned, none⟩) : (calculate pool (lead boot tree)).error = none := by
  simp only [build, selected] at built
  cases failed : (calculate pool (lead boot tree)).error with
  | none => rfl
  | some error =>
    simp only [failed] at built
    rw [built] at failed
    cases failed

theorem build_ok (built : build pool tree = ⟨planned, none⟩) :
    ∃ boot catalog, bootstrap pool = .ok boot ∧ Catalog.ofUnits pool = .ok catalog ∧
      planned = normalize ((lead boot tree).map (filled catalog)) ∧
        ∀ node ∈ (lead boot tree).nodes, Met catalog node := by
  cases selected : bootstrap pool with
  | error error => simp [build, selected] at built
  | ok boot =>
    have done := calculate_of_build selected built
    obtain ⟨catalog, made, collected, met⟩ := calculate_ok done
    simp only [build, selected, done, Attempt.mk.injEq] at built
    exact ⟨boot, catalog, rfl, made, collected ▸ built.1.symm, met⟩

private theorem bootstrap_ok (selected : bootstrap pool = .ok boot) : boot ∈ pool := by
  unfold bootstrap at selected
  split at selected
  · next unit only =>
    cases selected
    have member : boot ∈ pool.filter (·.isBootstrap) := by simp [only]
    exact List.mem_of_mem_filter member
  · cases selected
  · cases selected

/-! ## Filled modules -/

/-- A module that holds no unit but the bootstrap unit and is declared with units of a pool. -/
structure Prepared (pool : UnitList) (boot : SourceUnit) (node : ModuleNode) : Prop where
  distinct : node.deps.Distinct
  only : ∀ unit ∈ node.deps, unit = boot
  entries : ∀ entry ∈ node.entries, entry ∈ pool

namespace Prepared

theorem within (selected : bootstrap pool = .ok boot) (prepared : Prepared pool boot node) :
    ∀ unit ∈ node.deps, unit ∈ pool := by
  intro unit member
  exact prepared.only unit member ▸ bootstrap_ok selected

end Prepared

theorem nodes_lead : (lead boot tree).nodes =
    { tree.value with deps := tree.value.deps.lead boot } :: tree.children.flatMap nodes := by
  obtain ⟨node, children⟩ := tree
  exact Tree.preorder_eq _

/-- The bootstrap file, a kit, and two files that share it. -/
def forkPool : UnitList :=
  [.create "/left.js" ["left"] ["kit"] false, .create "/kit.js" ["kit"] ["goog"] false,
    .create "/right.js" ["right"] ["kit", "left"] false, .create "/base.js" ["goog"] [] false]

/-- A root without entries over a module for each of the two files that share the kit. -/
def forkTree : ModuleTree :=
  .node { name := "root" } [
    .node { name := "left", entries := forkPool.take 1 } [],
    .node { name := "right", entries := (forkPool.drop 2).take 1 } []]

end ChunkPlan.ModuleTree
