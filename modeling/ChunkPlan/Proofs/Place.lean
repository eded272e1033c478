import ChunkPlan.Tree
import Mathlib.Data.List.Infix

/-!
# Places in trees

A place is the way from the root to a subtree.  Two equal subtrees can stand at two places, so laws
about where something stands speak of places and not of values.
-/

set_option autoImplicit false

namespace ChunkPlan

/-- Which child to take at each step from the root down. -/
abbrev TreePlace := List Nat

namespace Tree

variable {α β : Type}

/-- Induction over a tree: a node is settled once its children are. -/
theorem induct {motive : Tree α → Prop}
    (node : ∀ value children, (∀ child ∈ children, motive child) → motive (.node value children)) :
    ∀ tree, motive tree
  | .node value children => node value children fun child _ => induct node child

theorem preorderAll_eq (trees : List (Tree α)) : preorderAll trees = trees.flatMap preorder := by
  induction trees with
  | nil => rfl
  | cons tree trees ih => simp [preorderAll, ih]

theorem mapAll_eq (f : α → β) (trees : List (Tree α)) : mapAll f trees = trees.map (map f) := by
  induction trees with
  | nil => rfl
  | cons tree trees ih => simp [mapAll, ih]

theorem preorder_node (value : α) (children : List (Tree α)) :
    preorder (.node value children) = value :: children.flatMap preorder := by
  rw [preorder, preorderAll_eq]

theorem preorder_eq (tree : Tree α) :
    tree.preorder = tree.value :: tree.children.flatMap preorder := by
  cases tree
  exact preorder_node _ _

theorem map_node (f : α → β) (value : α) (children : List (Tree α)) :
    map f (.node value children) = .node (f value) (children.map (map f)) := by
  rw [map, mapAll_eq]

@[simp] theorem value_map (f : α → β) (tree : Tree α) : (map f tree).value = f tree.value := by
  cases tree
  rw [map_node]
  rfl

@[simp] theorem children_map (f : α → β) (tree : Tree α) :
    (map f tree).children = tree.children.map (map f) := by
  cases tree
  rw [map_node]
  rfl

theorem preorder_map (f : α → β) (tree : Tree α) :
    (map f tree).preorder = tree.preorder.map f := by
  induction tree using induct with
  | node value children ih =>
    rw [map_node, preorder_node, preorder_node, List.flatMap_map, List.map_cons, List.map_flatMap]
    exact congrArg _ (List.flatMap_congr ih)

theorem map_map {γ : Type} (f : α → β) (g : β → γ) (tree : Tree α) :
    map g (map f tree) = map (fun value => g (f value)) tree := by
  induction tree using induct with
  | node value children ih =>
    rw [map_node, map_node, map_node, List.map_map]
    exact congrArg _ (List.map_congr_left ih)

theorem map_id (tree : Tree α) : map (fun value => value) tree = tree := by
  induction tree using induct with
  | node value children ih =>
    rw [map_node, List.map_congr_left ih, List.map_id']

/-! ## Subtrees by place -/

/-- The subtree at a place. -/
def at? (tree : Tree α) : TreePlace → Option (Tree α)
  | [] => some tree
  | index :: place => tree.children[index]?.bind fun child => child.at? place

@[simp] theorem at?_nil (tree : Tree α) : tree.at? [] = some tree := rfl

theorem at?_cons_eq_some {tree subtree : Tree α} {index : Nat} {place : TreePlace} :
    tree.at? (index :: place) = some subtree ↔
      ∃ child, tree.children[index]? = some child ∧ child.at? place = some subtree :=
  Option.bind_eq_some_iff

theorem at?_append (tree : Tree α) (place below : TreePlace) :
    tree.at? (place ++ below) = (tree.at? place).bind (·.at? below) := by
  induction place generalizing tree with
  | nil => rfl
  | cons index place ih =>
    simp only [List.cons_append, at?]
    cases tree.children[index]? with
    | none => rfl
    | some child => exact ih child

theorem at?_map (f : α → β) (tree : Tree α) (place : TreePlace) :
    (map f tree).at? place = (tree.at? place).map (map f) := by
  induction place generalizing tree with
  | nil => rfl
  | cons index place ih =>
    simp only [at?, children_map, List.getElem?_map]
    cases tree.children[index]? with
    | none => rfl
    | some child => exact ih child

theorem mem_preorder_iff {tree : Tree α} {value : α} :
    value ∈ tree.preorder ↔ ∃ place subtree, tree.at? place = some subtree ∧ subtree.value = value := by
  induction tree using induct with
  | node own children ih =>
    rw [preorder_node, List.mem_cons, List.mem_flatMap]
    constructor
    · rintro (rfl | ⟨child, member, below⟩)
      · exact ⟨[], _, rfl, rfl⟩
      · obtain ⟨place, subtree, found, same⟩ := (ih child member).mp below
        obtain ⟨index, selected⟩ := List.getElem?_of_mem member
        exact ⟨index :: place, subtree, at?_cons_eq_some.mpr ⟨child, selected, found⟩, same⟩
    · rintro ⟨place, subtree, found, same⟩
      cases place with
      | nil =>
        cases found
        exact .inl same.symm
      | cons index place =>
        obtain ⟨child, selected, found⟩ := at?_cons_eq_some.mp found
        have member : child ∈ children := List.mem_of_getElem? selected
        exact .inr ⟨child, member, (ih child member).mpr ⟨place, subtree, found, same⟩⟩

/-- What stands at a place of a subtree stands in the tree. -/
theorem mem_preorder_of_at? {tree subtree : Tree α} {place : TreePlace} {value : α}
    (found : tree.at? place = some subtree) (member : value ∈ subtree.preorder) :
    value ∈ tree.preorder := by
  obtain ⟨below, inner, reached, same⟩ := mem_preorder_iff.mp member
  refine mem_preorder_iff.mpr ⟨place ++ below, inner, ?_, same⟩
  rw [at?_append, found]
  exact reached

end Tree

/-! ## Common ancestors -/

/-- The lowest place above some places.  Every place counts as above itself. -/
structure NearestAbove (holds : TreePlace → Prop) (place : TreePlace) : Prop where
  above : ∀ holder, holds holder → place <+: holder
  nearest : ∀ upper : TreePlace, (∀ holder, holds holder → upper <+: holder) → upper <+: place

namespace NearestAbove

variable {holds : TreePlace → Prop}

theorem unique {left right : TreePlace} (first : NearestAbove holds left)
    (second : NearestAbove holds right) : left = right :=
  (second.nearest left first.above).eq_of_length_le (first.nearest right second.above).length_le

/-- Places that do not all begin alike have only the root above them. -/
theorem root {index : Nat} {place other : TreePlace} (left : holds (index :: place))
    (right : holds other) (apart : other.head? ≠ some index) : NearestAbove holds [] := by
  refine ⟨fun _ _ => List.nil_prefix, fun upper above => ?_⟩
  cases upper with
  | nil => exact List.nil_prefix
  | cons first upper =>
    have same : first = index := (List.cons_prefix_cons.mp (above _ left)).1
    obtain ⟨rest, rfl⟩ := above _ right
    exact absurd (by simp [same]) apart

theorem root_of_holds (held : holds []) : NearestAbove holds [] :=
  ⟨fun _ _ => List.nil_prefix, fun _ above => above [] held⟩

/-- Some places that all go through one child are seen from there. -/
theorem cons_iff {index : Nat} {place : TreePlace} (held : ∃ holder, holds holder)
    (through : ∀ holder, holds holder → holder.head? = some index) :
    NearestAbove holds (index :: place) ↔ NearestAbove (fun below => holds (index :: below)) place := by
  constructor
  · intro nearest
    refine ⟨fun below member => (List.cons_prefix_cons.mp (nearest.above _ member)).2, ?_⟩
    intro upper above
    refine (List.cons_prefix_cons.mp (nearest.nearest (index :: upper) fun holder member => ?_)).2
    obtain ⟨below, rfl⟩ := List.head?_eq_some_iff.mp (through holder member)
    exact List.cons_prefix_cons.mpr ⟨rfl, above below member⟩
  · intro nearest
    refine ⟨fun holder member => ?_, fun upper above => ?_⟩
    · obtain ⟨below, rfl⟩ := List.head?_eq_some_iff.mp (through holder member)
      exact List.cons_prefix_cons.mpr ⟨rfl, nearest.above below member⟩
    · cases upper with
      | nil => exact List.nil_prefix
      | cons first upper =>
        obtain ⟨holder, member⟩ := held
        obtain ⟨below, rfl⟩ := List.head?_eq_some_iff.mp (through holder member)
        have same : first = index := (List.cons_prefix_cons.mp (above _ member)).1
        refine List.cons_prefix_cons.mpr ⟨same, nearest.nearest upper fun inner reached => ?_⟩
        exact (List.cons_prefix_cons.mp (above _ reached)).2

theorem of_held (held : ∃ holder, holds holder) : ∃ place, NearestAbove holds place := by
  obtain ⟨holder, member⟩ := held
  induction holder generalizing holds with
  | nil => exact ⟨[], root_of_holds member⟩
  | cons index holder ih =>
    by_cases through : ∀ other, holds other → other.head? = some index
    · obtain ⟨place, nearest⟩ := @ih (fun below => holds (index :: below)) member
      exact ⟨index :: place, (cons_iff ⟨_, member⟩ through).mpr nearest⟩
    · obtain ⟨other, held, apart⟩ : ∃ other, holds other ∧ other.head? ≠ some index := by
        simpa using through
      exact ⟨[], root member held apart⟩

theorem congr {other : TreePlace → Prop} {place : TreePlace} (same : ∀ holder, holds holder ↔ other holder) :
    NearestAbove holds place ↔ NearestAbove other place := by
  rw [funext fun holder => propext (same holder)]

end NearestAbove

end ChunkPlan
