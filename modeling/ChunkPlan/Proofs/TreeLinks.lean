import ChunkPlan.Proofs.Place
import Mathlib.Data.List.Nodup

/-!
# Trees whose values name what is above them

A value that carries a key of its own and the key of the value above it says where it stands.  In
pre-order the value above comes first, and where no key comes twice the list of the values alone is
enough to find the tree again.
-/

set_option autoImplicit false

namespace ChunkPlan.Tree

variable {α : Type} {key : α → String} {above : α → Option String} {tree other : Tree α}
  {trees others : List (Tree α)} {parent value : α} {before after : List α}

/-- A tree in which every value below another one names its key. -/
inductive Linked (key : α → String) (above : α → Option String) : Tree α → Prop where
  | node {value : α} {children : List (Tree α)} :
      (∀ child ∈ children, above child.value = some (key value)) →
      (∀ child ∈ children, Linked key above child) → Linked key above (.node value children)

theorem linked_of_at?
    (named : ∀ place index child, tree.at? (place ++ [index]) = some child →
      ∃ upper, tree.at? place = some upper ∧ above child.value = some (key upper.value)) :
    Linked key above tree := by
  induction tree using Tree.induct with
  | node value children ih =>
    refine .node (fun child among => ?_) fun child among => ih child among ?_
    · obtain ⟨index, selected⟩ := List.getElem?_of_mem among
      obtain ⟨upper, reached, named⟩ :=
        named [] index child (at?_cons_eq_some.mpr ⟨child, selected, rfl⟩)
      cases reached
      exact named
    · obtain ⟨first, selected⟩ := List.getElem?_of_mem among
      intro place index below found
      obtain ⟨upper, reached, named⟩ :=
        named (first :: place) index below (at?_cons_eq_some.mpr ⟨child, selected, found⟩)
      obtain ⟨same, alsoSelected, reached⟩ := at?_cons_eq_some.mp reached
      cases selected.symm.trans alsoSelected
      exact ⟨upper, reached, named⟩

theorem Linked.at? {place : TreePlace} {index : Nat} {child : Tree α}
    (linked : Linked key above tree) (found : tree.at? (place ++ [index]) = some child) :
    ∃ upper, tree.at? place = some upper ∧ above child.value = some (key upper.value) := by
  induction place generalizing tree with
  | nil =>
    obtain ⟨other, selected, same⟩ := at?_cons_eq_some.mp found
    cases same
    cases linked with
    | node tops _ => exact ⟨_, rfl, tops child (List.mem_of_getElem? selected)⟩
  | cons first place ih =>
    obtain ⟨other, selected, inside⟩ := at?_cons_eq_some.mp found
    cases linked with
    | node _ below =>
      obtain ⟨upper, reached, named⟩ := ih (below other (List.mem_of_getElem? selected)) inside
      exact ⟨upper, at?_cons_eq_some.mpr ⟨other, selected, reached⟩, named⟩

theorem linked_map {β : Type} {f : β → α} {tree : Tree β} :
    Linked key above (tree.map f) ↔
      Linked (fun value => key (f value)) (fun value => above (f value)) tree := by
  constructor
  · intro linked
    refine linked_of_at? fun place index child found => ?_
    obtain ⟨upper, reached, named⟩ := linked.at? (by rw [at?_map, found]; rfl)
    rw [at?_map] at reached
    obtain ⟨subtree, original, rfl⟩ := Option.map_eq_some_iff.mp reached
    exact ⟨subtree, original, by rwa [value_map, value_map] at named⟩
  · intro linked
    refine linked_of_at? fun place index child found => ?_
    rw [at?_map] at found
    obtain ⟨subtree, original, rfl⟩ := Option.map_eq_some_iff.mp found
    obtain ⟨upper, reached, named⟩ := linked.at? original
    exact ⟨upper.map f, by rw [at?_map, reached]; rfl, by rwa [value_map, value_map]⟩

/-- What comes in a list of siblings names their parent or something that comes before. -/
theorem named_before_of_siblings
    (each : ∀ tree ∈ trees, ∀ before value after, tree.preorder = before ++ value :: after →
      before ≠ [] → ∃ upper ∈ before, above value = some (key upper))
    (tops : ∀ tree ∈ trees, above tree.value = some (key parent))
    (split : trees.flatMap preorder = before ++ value :: after) :
    ∃ upper ∈ parent :: before, above value = some (key upper) := by
  induction trees generalizing before with
  | nil => simp at split
  | cons tree trees ih =>
    obtain ⟨first, each⟩ := List.forall_mem_cons.mp each
    obtain ⟨top, tops⟩ := List.forall_mem_cons.mp tops
    rw [List.flatMap_cons] at split
    rcases List.append_eq_append_iff.mp split with ⟨rest, rfl, later⟩ | ⟨rest, here, later⟩
    · obtain ⟨upper, member, named⟩ := ih each tops later
      rcases List.mem_cons.mp member with rfl | member
      · exact ⟨upper, by simp, named⟩
      · exact ⟨upper, by simp [member], named⟩
    · cases rest with
      | nil =>
        have split : trees.flatMap preorder = [] ++ value :: after := later.symm
        obtain ⟨upper, member, named⟩ := ih each tops split
        rw [List.mem_singleton.mp member] at named
        exact ⟨parent, by simp, named⟩
      | cons next rest =>
        obtain ⟨rfl, -⟩ := List.cons.inj later
        by_cases begins : before = []
        · rw [begins, List.nil_append, preorder_eq] at here
          obtain ⟨rfl, -⟩ := List.cons.inj here
          exact ⟨parent, by simp, top⟩
        · obtain ⟨upper, member, named⟩ := first before value rest here begins
          exact ⟨upper, List.mem_cons_of_mem _ member, named⟩

namespace Linked

/-- In pre-order every value but the first names one that comes before it. -/
theorem named_before (linked : Linked key above tree)
    (split : tree.preorder = before ++ value :: after) (inner : before ≠ []) :
    ∃ upper ∈ before, above value = some (key upper) := by
  induction linked generalizing before value after with
  | @node top children tops _ ih =>
    rw [preorder_node] at split
    obtain ⟨first, before, rfl⟩ := List.exists_cons_of_ne_nil inner
    rw [List.cons_append] at split
    obtain ⟨rfl, below⟩ := List.cons.inj split
    refine named_before_of_siblings (fun tree among before value after split inner => ?_) tops below
    exact ih tree among split inner

/-- Below the top of a tree nothing names a key that the tree does not have. -/
theorem named_mem (linked : Linked key above tree) (member : value ∈ tree.children.flatMap preorder) :
    ∃ upper ∈ tree.preorder, above value = some (key upper) := by
  obtain ⟨before, after, split⟩ := List.append_of_mem member
  have whole : tree.preorder = (tree.value :: before) ++ value :: after := by
    rw [preorder_eq, split, List.cons_append]
  obtain ⟨upper, earlier, named⟩ := linked.named_before whole (List.cons_ne_nil _ _)
  exact ⟨upper, whole ▸ List.mem_append_left _ earlier, named⟩

end Linked

/-- Two lists go on alike from where a condition holds for the first time. -/
theorem append_inj_of_first {holds : α → Prop} {first second rest others : List α}
    (same : first ++ rest = second ++ others) (left : ∀ value ∈ first, ¬holds value)
    (right : ∀ value ∈ second, ¬holds value) (begins : ∀ value ∈ rest.head?, holds value)
    (alsoBegins : ∀ value ∈ others.head?, holds value) : first = second ∧ rest = others := by
  induction first generalizing second with
  | nil =>
    cases second with
    | nil => exact ⟨rfl, same⟩
    | cons value second =>
      obtain rfl : rest = value :: (second ++ others) := same
      exact absurd (begins value rfl) (right value (by simp))
  | cons value first ih =>
    cases second with
    | nil =>
      obtain rfl : value :: (first ++ rest) = others := same
      exact absurd (alsoBegins value rfl) (left value (by simp))
    | cons next second =>
      rw [List.cons_append, List.cons_append] at same
      obtain ⟨rfl, later⟩ := List.cons.inj same
      obtain ⟨_, left⟩ := List.forall_mem_cons.mp left
      obtain ⟨_, right⟩ := List.forall_mem_cons.mp right
      obtain ⟨rfl, rfl⟩ := ih later left right
      exact ⟨rfl, rfl⟩

/-- Siblings are found again in their list by what names their parent. -/
theorem siblings_eq
    (each : ∀ tree ∈ trees, ∀ other ∈ others, tree.preorder = other.preorder → tree = other)
    (tops : ∀ tree ∈ trees, above tree.value = some (key parent))
    (otherTops : ∀ tree ∈ others, above tree.value = some (key parent))
    (inner : ∀ tree ∈ trees, ∀ value ∈ tree.children.flatMap preorder,
      above value ≠ some (key parent))
    (otherInner : ∀ tree ∈ others, ∀ value ∈ tree.children.flatMap preorder,
      above value ≠ some (key parent))
    (same : trees.flatMap preorder = others.flatMap preorder) : trees = others := by
  have begins {trees : List (Tree α)} (tops : ∀ tree ∈ trees, above tree.value = some (key parent)) :
      ∀ value ∈ (trees.flatMap preorder).head?, above value = some (key parent) := by
    intro value first
    cases trees with
    | nil => cases first
    | cons tree trees =>
      rw [List.flatMap_cons, preorder_eq] at first
      cases first
      exact tops tree (by simp)
  induction trees generalizing others with
  | nil =>
    cases others with
    | nil => rfl
    | cons other others => simp [preorder_eq] at same
  | cons tree trees ih =>
    cases others with
    | nil => simp [preorder_eq] at same
    | cons other others =>
      obtain ⟨top, tops⟩ := List.forall_mem_cons.mp tops
      obtain ⟨otherTop, otherTops⟩ := List.forall_mem_cons.mp otherTops
      obtain ⟨below, inner⟩ := List.forall_mem_cons.mp inner
      obtain ⟨otherBelow, otherInner⟩ := List.forall_mem_cons.mp otherInner
      rw [List.flatMap_cons, List.flatMap_cons, preorder_eq tree, preorder_eq other,
        List.cons_append, List.cons_append] at same
      obtain ⟨head, same⟩ := List.cons.inj same
      obtain ⟨subtrees, rest⟩ :=
        append_inj_of_first same below otherBelow (begins tops) (begins otherTops)
      have equal : tree = other := each tree (by simp) other (by simp)
        (by rw [preorder_eq, preorder_eq, head, subtrees])
      refine congrArg₂ List.cons equal (ih (fun tree among other alsoAmong => ?_) tops otherTops inner
        otherInner rest)
      exact each tree (List.mem_cons_of_mem _ among) other (List.mem_cons_of_mem _ alsoAmong)

/-- Trees without a key that comes twice are equal if their values come in the same order. -/
theorem Linked.eq_of_preorder (linked : Linked key above tree) (otherLinked : Linked key above other)
    (unique : (tree.preorder.map key).Nodup) (same : tree.preorder = other.preorder) :
    tree = other := by
  induction linked generalizing other with
  | @node top children tops below ih =>
    obtain ⟨otherTop, others⟩ := other
    cases otherLinked with
    | node otherTops otherBelow =>
      have inner {trees : List (Tree α)} (tops : ∀ tree ∈ trees, above tree.value = some (key top))
          (below : ∀ tree ∈ trees, Linked key above tree)
          (unique : ((top :: trees.flatMap preorder).map key).Nodup) :
          ∀ tree ∈ trees, ∀ value ∈ tree.children.flatMap preorder,
            above value ≠ some (key top) := by
        intro tree among value member named
        obtain ⟨upper, inside, alsoNamed⟩ := (below tree among).named_mem member
        have apart := (List.nodup_cons.mp unique).1
        rw [named] at alsoNamed
        rw [Option.some.inj alsoNamed] at apart
        exact apart (List.mem_map_of_mem (List.mem_flatMap.mpr ⟨tree, among, inside⟩))
      rw [preorder_node, preorder_node] at same
      rw [preorder_node] at unique
      obtain ⟨rfl, alike⟩ := List.cons.inj same
      refine congrArg _ (siblings_eq (fun tree among other alsoAmong equal => ?_) tops otherTops
        (inner tops below unique) (inner otherTops otherBelow (alike ▸ unique)) alike)
      refine ih tree among (otherBelow other alsoAmong) ?_ equal
      have all := (List.nodup_cons.mp unique).2
      rw [List.map_flatMap, List.nodup_flatMap] at all
      exact all.1 tree among

end ChunkPlan.Tree
