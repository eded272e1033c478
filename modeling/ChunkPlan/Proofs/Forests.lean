import ChunkPlan.Module.Forest
import ChunkPlan.Proofs.Hoisting

/-!
# Forests that are trees

Where no module is linked twice, each one stands at a single place.  Work on the modules by number
and the same work on their tree then come to the same, also if it stops with an error.
-/

set_option autoImplicit false

namespace ChunkPlan

theorem Tree.map_congr {α β : Type} {f g : α → β} {tree : Tree α}
    (same : ∀ value ∈ tree.preorder, f value = g value) : tree.map f = tree.map g := by
  induction tree using induct with
  | node value children ih =>
    rw [preorder_node, List.forall_mem_cons] at same
    obtain ⟨here, below⟩ := same
    rw [map_node, map_node, here]
    refine congrArg _ (List.map_congr_left fun child member => ih child member fun value inside => ?_)
    exact below value (List.mem_flatMap.mpr ⟨child, member, inside⟩)

namespace ModuleForest

variable {forest middle after : ModuleForest} {number other : Nat} {numbers wider : List Nat}
  {change : UnitList → UnitList} {gone : UnitList} {places : Tree Nat} {trees : List (Tree Nat)}
  {catalog : Catalog}

/-! ## What work leaves alone -/

/-- All links are as before, and so are all modules but some. -/
structure Touches (before : ModuleForest) (numbers : List Nat) (after : ModuleForest) : Prop where
  links : after.slots.map (·.2) = before.slots.map (·.2)
  elsewhere : ∀ other, other ∉ numbers → after.node other = before.node other

theorem Touches.refl (forest : ModuleForest) : Touches forest numbers forest := ⟨rfl, fun _ _ => rfl⟩

theorem Touches.trans (first : Touches forest numbers middle) (second : Touches middle numbers after) :
    Touches forest numbers after :=
  ⟨second.links.trans first.links, fun other apart =>
    (second.elsewhere other apart).trans (first.elsewhere other apart)⟩

theorem Touches.mono (touches : Touches forest numbers after) (fewer : numbers ⊆ wider) :
    Touches forest wider after :=
  ⟨touches.links, fun other apart => touches.elsewhere other fun inside => apart (fewer inside)⟩

theorem Touches.size (touches : Touches forest numbers after) : after.slots.size = forest.slots.size := by
  simpa using congrArg Array.size touches.links

theorem Touches.below (touches : Touches forest numbers after) (number : Nat) :
    after.below number = forest.below number := by
  have links (number : Nat) : after.slots[number]?.map (·.2) = forest.slots[number]?.map (·.2) := by
    simpa using congrArg (·[number]?) touches.links
  have same (depth number : Nat) : after.places depth number = forest.places depth number := by
    induction depth generalizing number with
    | zero => rfl
    | succ depth ih =>
      have linked := links number
      rw [places, places]
      cases before : forest.slots[number]? <;> cases now : after.slots[number]? <;>
        simp_all [funext ih]
  rw [ModuleForest.below, touches.size, same, ModuleForest.below]

/-- A tree of other modules is as before. -/
theorem Touches.map_node (touches : Touches forest numbers after) (places : Tree Nat)
    (apart : ∀ other ∈ places.preorder, other ∉ numbers) :
    places.map after.node = places.map forest.node :=
  Tree.map_congr fun other inside => touches.elsewhere other (apart other inside)

theorem Touches.map_nodes (touches : Touches forest numbers after) (trees : List (Tree Nat))
    (apart : ∀ other ∈ trees.flatMap Tree.preorder, other ∉ numbers) :
    trees.map (Tree.map after.node) = trees.map (Tree.map forest.node) :=
  List.map_congr_left fun tree member => touches.map_node tree fun other inside =>
    apart other (List.mem_flatMap.mpr ⟨tree, member, inside⟩)

theorem node_update_of_ne (apart : number ≠ other) :
    (forest.update number change).node other = forest.node other := by
  simp [node, update, Array.getElem?_modify, apart]

theorem node_update_self (inside : number < forest.slots.size) :
    (forest.update number change).node number =
      { forest.node number with deps := change (forest.node number).deps } := by
  have held := Array.getElem?_eq_getElem inside
  simp only [node, update, Array.getElem?_modify, if_true, held, Option.map_some]

theorem touches_update (member : number ∈ numbers) :
    Touches forest numbers (forest.update number change) := by
  refine ⟨?_, fun other apart => node_update_of_ne fun same => apart (same ▸ member)⟩
  refine Array.ext_getElem? fun position => ?_
  simp only [update, Array.getElem?_map, Array.getElem?_modify]
  split
  · cases forest.slots[position]? <;> rfl
  · rfl

/-- Whether all modules at some places are there, each one at a single place. -/
structure Single (forest : ModuleForest) (numbers : List Nat) : Prop where
  once : numbers.Nodup
  modules : ∀ number ∈ numbers, number < forest.slots.size

theorem Single.touched (single : Single forest numbers) (touches : Touches forest wider after) :
    Single after numbers :=
  ⟨single.once, fun number member => touches.size ▸ single.modules number member⟩

theorem Single.cons (single : Single forest (number :: numbers)) :
    number ∉ numbers ∧ number < forest.slots.size ∧ Single forest numbers := by
  obtain ⟨fresh, once⟩ := List.nodup_cons.mp single.once
  obtain ⟨inside, others⟩ := List.forall_mem_cons.mp single.modules
  exact ⟨fresh, inside, once, others⟩

theorem Single.append (single : Single forest (numbers ++ wider)) :
    Single forest numbers ∧ Single forest wider ∧ ∀ other ∈ wider, other ∉ numbers := by
  obtain ⟨first, second, apart⟩ := List.nodup_append'.mp single.once
  exact ⟨⟨first, fun other member => single.modules other (List.mem_append_left _ member)⟩,
    ⟨second, fun other member => single.modules other (List.mem_append_right _ member)⟩,
    fun other later earlier => apart earlier later⟩

/-! ## Striking -/

theorem touches_strike (forest : ModuleForest) (gone : UnitList) (numbers : List Nat) :
    Touches forest numbers
      (numbers.foldl (fun forest number => forest.update number (·.removeAll gone)) forest) := by
  have all (visited : List Nat) (within : visited ⊆ numbers) (forest : ModuleForest) :
      Touches forest numbers
        (visited.foldl (fun forest number => forest.update number (·.removeAll gone)) forest) := by
    induction visited generalizing forest with
    | nil => exact .refl forest
    | cons number visited ih =>
      obtain ⟨member, others⟩ := List.cons_subset.mp within
      exact (touches_update member).trans (ih others _)
  exact all numbers (List.Subset.refl _) forest

private theorem node_strike (single : Single forest numbers) (member : other ∈ numbers) :
    (numbers.foldl (fun forest number => forest.update number (·.removeAll gone)) forest).node other =
      { forest.node other with deps := (forest.node other).deps.removeAll gone } := by
  induction numbers generalizing forest with
  | nil => cases member
  | cons number numbers ih =>
    obtain ⟨fresh, inside, others⟩ := single.cons
    rw [List.foldl_cons]
    rcases List.mem_cons.mp member with rfl | later
    · rw [(touches_strike _ gone numbers).elsewhere _ fresh, node_update_self inside]
    · have apart : number ≠ other := fun same => fresh (same ▸ later)
      have touches : Touches forest [number] (forest.update number (·.removeAll gone)) :=
        touches_update (List.mem_singleton_self number)
      rw [ih (others.touched touches) later, node_update_of_ne apart]

theorem map_strike (single : Single forest places.preorder) :
    places.map (forest.strike gone places).node = ModuleTree.strike gone (places.map forest.node) := by
  rw [ModuleTree.strike, Tree.map_map]
  exact Tree.map_congr fun other member => node_strike single member

/-! ## Collecting -/

theorem touches_collect (forest : ModuleForest) (catalog : Catalog) (numbers : List Nat) :
    Touches forest numbers (forest.collect catalog numbers).1 := by
  induction numbers generalizing forest with
  | nil => exact .refl forest
  | cons number numbers ih =>
    rw [collect]
    split
    · exact .refl forest
    · exact (touches_update List.mem_cons_self).trans ((ih _).mono (List.subset_cons_self _ _))

theorem collect_append : forest.collect catalog (numbers ++ wider) =
    match forest.collect catalog numbers with
    | (after, none) => after.collect catalog wider
    | (after, some error) => (after, some error) := by
  induction numbers generalizing forest with
  | nil => rfl
  | cons number numbers ih =>
    rw [List.cons_append, collect, collect]
    split
    · rfl
    · exact ih

/-- Collecting tree by tree, where it does on each tree what it does on the modules there. -/
private theorem collectAll_map
    (each : ∀ tree ∈ trees, ∀ forest : ModuleForest, Single forest tree.preorder →
      ModuleTree.collect catalog (tree.map forest.node) =
        ⟨tree.map (forest.collect catalog tree.preorder).1.node,
          (forest.collect catalog tree.preorder).2⟩)
    (single : Single forest (trees.flatMap Tree.preorder)) :
    ModuleTree.collectAll catalog (trees.map (Tree.map forest.node)) =
      (trees.map (Tree.map (forest.collect catalog (trees.flatMap Tree.preorder)).1.node),
        (forest.collect catalog (trees.flatMap Tree.preorder)).2) := by
  induction trees generalizing forest with
  | nil => rfl
  | cons tree trees ih =>
    obtain ⟨first, others⟩ := List.forall_mem_cons.mp each
    rw [List.flatMap_cons] at single ⊢
    obtain ⟨here, later, apart⟩ := single.append
    rw [List.map_cons, ModuleTree.collectAll, first forest here, collect_append]
    have touches := touches_collect forest catalog tree.preorder
    generalize forest.collect catalog tree.preorder = done at touches ⊢
    obtain ⟨middle, error⟩ := done
    have rest := touches.map_nodes trees apart
    cases error with
    | some error => simp only [List.map_cons, rest]
    | none =>
      have kept := (touches_collect middle catalog (trees.flatMap Tree.preorder)).map_node tree
        fun other inside listed => apart other listed inside
      simp only [← rest, ih others (later.touched touches), List.map_cons, kept]

private theorem collect_map (single : Single forest places.preorder) :
    ModuleTree.collect catalog (places.map forest.node) =
      ⟨places.map (forest.collect catalog places.preorder).1.node,
        (forest.collect catalog places.preorder).2⟩ := by
  induction places using Tree.induct generalizing forest with
  | node number children ih =>
    rw [Tree.preorder_node] at single ⊢
    obtain ⟨fresh, inside, others⟩ := single.cons
    rw [Tree.map_node, ModuleTree.collect, collect]
    cases catalog.dependencies (forest.node number).entries with
    | error error => simp only [Tree.map_node]
    | ok units =>
      have touches : Touches forest [number] (forest.update number (·.addAll units)) :=
        touches_update (List.mem_singleton_self number)
      have unchanged := touches.map_nodes children fun other below same =>
        fresh (List.mem_singleton.mp same ▸ below)
      have kept := (touches_collect (forest.update number (·.addAll units)) catalog
        (children.flatMap Tree.preorder)).elsewhere number fresh
      simp only [← unchanged, collectAll_map (fun child member forest => ih child member)
        (others.touched touches), Tree.map_node, kept, node_update_self inside]

/-! ## Moving units up -/

theorem touches_hoistAll (forest : ModuleForest) (gone : UnitList)
    (each : ∀ tree ∈ trees, ∀ forest : ModuleForest,
      Touches forest tree.preorder (forest.hoist tree)) :
    Touches forest (trees.flatMap Tree.preorder) (forest.hoistAll gone trees) := by
  induction trees generalizing forest with
  | nil => exact .refl forest
  | cons tree trees ih =>
    obtain ⟨first, others⟩ := List.forall_mem_cons.mp each
    rw [hoistAll, List.flatMap_cons]
    have here := (touches_strike forest gone tree.preorder).trans (first _)
    exact (here.mono (List.subset_append_left _ _)).trans
      ((ih _ others).mono (List.subset_append_right _ _))

theorem touches_hoist (forest : ModuleForest) (places : Tree Nat) :
    Touches forest places.preorder (forest.hoist places) := by
  induction places using Tree.induct generalizing forest with
  | node number children ih =>
    rw [hoist, Tree.preorder_node]
    exact (touches_update List.mem_cons_self).trans
      ((touches_hoistAll _ _ fun child member forest => ih child member forest).mono
        (List.subset_cons_self _ _))

/-- Moving up tree by tree, where it does on each tree what it does on the modules there. -/
private theorem hoistAll_map
    (each : ∀ tree ∈ trees, ∀ forest : ModuleForest, Single forest tree.preorder →
      tree.map (forest.hoist tree).node = ModuleTree.normalize (tree.map forest.node))
    (single : Single forest (trees.flatMap Tree.preorder)) :
    trees.map (Tree.map (forest.hoistAll gone trees).node) =
      ModuleTree.hoistAll gone (trees.map (Tree.map forest.node)) := by
  induction trees generalizing forest with
  | nil => rfl
  | cons tree trees ih =>
    obtain ⟨first, others⟩ := List.forall_mem_cons.mp each
    rw [List.flatMap_cons] at single
    obtain ⟨here, later, apart⟩ := single.append
    have struck : Touches forest tree.preorder (forest.strike gone tree) :=
      touches_strike forest gone tree.preorder
    have moved := struck.trans (touches_hoist (forest.strike gone tree) tree)
    have rest : Touches ((forest.strike gone tree).hoist tree) (trees.flatMap Tree.preorder)
        (((forest.strike gone tree).hoist tree).hoistAll gone trees) :=
      touches_hoistAll _ gone fun tree _ forest => touches_hoist forest tree
    have kept := rest.map_node tree fun other inside listed => apart other listed inside
    rw [hoistAll, List.map_cons, List.map_cons, ModuleTree.hoistAll, kept,
      first _ (here.touched struck), map_strike here, ModuleTree.normalize_strike,
      ih others (later.touched moved), moved.map_nodes trees apart]

private theorem hoist_map (single : Single forest places.preorder) :
    places.map (forest.hoist places).node = ModuleTree.normalize (places.map forest.node) := by
  induction places using Tree.induct generalizing forest with
  | node number children ih =>
    rw [Tree.preorder_node] at single
    obtain ⟨fresh, inside, others⟩ := single.cons
    generalize split : ModuleTree.shared (forest.node number).deps []
      (children.map fun child => ModuleTree.allUnits (child.map forest.node)) = taken
    have touches : Touches forest [number] (forest.update number (·.addAll taken)) :=
      touches_update (List.mem_singleton_self number)
    have unchanged := touches.map_nodes children fun other below same =>
      fresh (List.mem_singleton.mp same ▸ below)
    have moved : Touches (forest.update number (·.addAll taken)) (children.flatMap Tree.preorder)
        ((forest.update number (·.addAll taken)).hoistAll taken children) :=
      touches_hoistAll _ taken fun tree _ forest => touches_hoist forest tree
    rw [hoist, split, Tree.map_node, Tree.map_node, moved.elsewhere number fresh,
      node_update_self inside, hoistAll_map (fun child member forest => ih child member)
        (others.touched touches), unchanged, ModuleTree.normalize, ModuleTree.hoist]
    have own : (forest.node number).deps.removeAll [] = (forest.node number).deps := rfl
    simp only [ModuleTree.strike_nil, own, List.map_map, Function.comp_def, split, List.nil_append]

/-! ## Planning -/

/-- Whether all modules below a number stand at one place each. -/
def TreeLike (forest : ModuleForest) (number : Nat) : Prop :=
  Single forest (forest.below number).preorder

private theorem TreeLike.touched (treeLike : TreeLike forest number)
    (touches : Touches forest numbers after) : TreeLike after number := by
  rw [TreeLike, touches.below]
  exact Single.touched treeLike touches

/-- A module stands at the root of its tree, and nowhere below it. -/
theorem TreeLike.split (treeLike : TreeLike forest number) : ∃ children,
    forest.below number = .node number children ∧ number < forest.slots.size ∧
      number ∉ children.flatMap Tree.preorder := by
  have root : ∃ children, forest.below number = .node number children := by
    rw [ModuleForest.below]
    cases forest.slots.size with
    | zero => exact ⟨[], rfl⟩
    | succ => exact ⟨_, rfl⟩
  obtain ⟨children, root⟩ := root
  rw [TreeLike, root, Tree.preorder_node] at treeLike
  obtain ⟨fresh, inside, -⟩ := treeLike.cons
  exact ⟨children, root, inside, fresh⟩

theorem touches_lead (forest : ModuleForest) (number : Nat) (unit : SourceUnit) :
    Touches forest [number] (forest.update number (·.lead unit)) :=
  touches_update (List.mem_singleton_self number)

private theorem tree_lead (treeLike : TreeLike forest number) (unit : SourceUnit) :
    (forest.update number (·.lead unit)).tree number = (forest.tree number).lead unit := by
  obtain ⟨children, root, inside, fresh⟩ := treeLike.split
  have touches := touches_lead forest number unit
  have unchanged := touches.map_nodes children fun other below same =>
    fresh (List.mem_singleton.mp same ▸ below)
  rw [tree, touches.below, tree, root, Tree.map_node, Tree.map_node, node_update_self inside,
    unchanged, ModuleTree.lead]

theorem touches_calculate (forest : ModuleForest) (pool : UnitList) (number : Nat) :
    Touches forest (forest.below number).preorder (forest.calculate pool number).1 := by
  rw [calculate]
  split
  · exact .refl forest
  · exact touches_collect forest _ _

/-- Listing what the modules need comes to the same tree and the same error. -/
theorem tree_calculate (treeLike : TreeLike forest number) (pool : UnitList) :
    (forest.tree number).calculate pool =
      ⟨(forest.calculate pool number).1.tree number, (forest.calculate pool number).2⟩ := by
  have same := (touches_calculate forest pool number).below number
  rw [tree, tree, same, ModuleTree.calculate, calculate]
  cases Catalog.ofUnits pool with
  | error error => rfl
  | ok catalog => exact collect_map treeLike

/-- Striking units at all places comes to the same tree. -/
theorem tree_strike (treeLike : TreeLike forest number) (gone : UnitList) :
    (forest.strike gone (forest.below number)).tree number =
      ModuleTree.strike gone (forest.tree number) := by
  have touches : Touches forest (forest.below number).preorder
      (forest.strike gone (forest.below number)) := touches_strike forest gone _
  rw [tree, touches.below, map_strike treeLike, tree]

/-- Moving shared units up comes to the same tree. -/
theorem tree_normalize (treeLike : TreeLike forest number) :
    (forest.normalize number).tree number = (forest.tree number).normalize := by
  rw [tree, normalize, (touches_hoist forest (forest.below number)).below, hoist_map treeLike, tree]

/-- Planning the modules below a number comes to the same tree and the same error as planning their
tree. -/
theorem tree_build (treeLike : TreeLike forest number) (pool : UnitList) :
    (forest.tree number).build pool =
      ⟨(forest.build pool number).1.tree number, (forest.build pool number).2⟩ := by
  rw [ModuleTree.build, build]
  cases ModuleTree.bootstrap pool with
  | error error => rfl
  | ok unit =>
    have ledLike := treeLike.touched (touches_lead forest number unit)
    have calculated := tree_calculate ledLike pool
    have touches := touches_calculate (forest.update number (·.lead unit)) pool number
    simp only [← tree_lead treeLike, calculated]
    generalize (forest.update number (·.lead unit)).calculate pool number = done at touches ⊢
    obtain ⟨later, error⟩ := done
    cases error with
    | some error => rfl
    | none => simp only [tree_normalize (ledLike.touched touches)]

/-- A module with one child. -/
example : TreeLike ⟨#[({ name := "app" }, [1]), ({ name := "page" }, [])]⟩ 0 :=
  ⟨by decide, by decide⟩

end ModuleForest

end ChunkPlan
