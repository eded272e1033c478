import ChunkPlan.Module.Graph
import ChunkPlan.Proofs.Entries
import ChunkPlan.Proofs.Place
import Mathlib.Logic.Relation

/-!
# Chains of parents

A declared module has one parent at most, so the chain that begins with it is the only one.  A chain
that comes to a module without a parent never meets a module twice.  The tree below that module
therefore ends, although modules are taken without a look at those taken before.
-/

set_option autoImplicit false

namespace ChunkPlan.ModuleGraph

abbrev Outline := Tree (String × ModuleDeclaration)

variable {modules pool : Entries ModuleDeclaration} {name other parent root : String}
  {declaration : ModuleDeclaration} {entry child : String × ModuleDeclaration}
  {tree : Outline}

/-- Whether a module is declared with another one as a parent. -/
def Names (modules : Entries ModuleDeclaration) (name parent : String) : Prop :=
  ∃ declaration, (name, declaration) ∈ modules ∧ parent ∈ declaration.deps

/-- Whether the chain of parents of a module comes to another one. -/
abbrev Leads (modules : Entries ModuleDeclaration) : String → String → Prop :=
  Relation.ReflTransGen (Names modules)

/-- A module without parents or with one that is declared. -/
inductive Placed (modules : Entries ModuleDeclaration) (declaration : ModuleDeclaration) :
    Prop where
  | top : declaration.deps = [] → Placed modules declaration
  | below {parent : String} : declaration.deps = [parent] → parent ∈ modules.keys →
      Placed modules declaration

/-- The names of the modules without parents, in order of declaration. -/
def tops (modules : Entries ModuleDeclaration) : List String :=
  Entries.keys (modules.filter (·.2.deps.isEmpty))

/-- Declarations with one module without a parent. -/
structure OneTop (modules : Entries ModuleDeclaration) (root : String) : Prop where
  unique : modules.keys.Nodup
  tops : tops modules = [root]
  placed : ∀ entry ∈ modules, Placed modules entry.2

/-! ## Chains -/

theorem mem_below : child ∈ below modules parent ↔ child ∈ modules ∧ parent ∈ child.2.deps := by
  simp [below, isChild]

theorem names_iff : Names modules name parent ↔ ∃ child ∈ below modules parent, child.1 = name := by
  constructor
  · rintro ⟨declaration, member, among⟩
    exact ⟨(name, declaration), mem_below.mpr ⟨member, among⟩, rfl⟩
  · rintro ⟨child, member, rfl⟩
    obtain ⟨member, among⟩ := mem_below.mp member
    exact ⟨child.2, member, among⟩

theorem Placed.toList_head? (placed : Placed modules declaration) :
    declaration.deps.head?.toList = declaration.deps := by
  cases placed with
  | top none => rw [none]; rfl
  | below one => rw [one]; rfl

theorem Placed.deps_eq (placed : Placed modules declaration) (named : parent ∈ declaration.deps) :
    declaration.deps = [parent] := by
  cases placed with
  | top none =>
    rw [none] at named
    cases named
  | below one =>
    rw [one] at named
    rw [one, List.mem_singleton.mp named]

theorem mem_tops : root ∈ tops modules ↔
    ∃ declaration, (root, declaration) ∈ modules ∧ declaration.deps = [] := by
  simp [tops, Entries.keys]

namespace OneTop

variable (only : OneTop modules root)

include only

theorem declaration_eq {declaration other : ModuleDeclaration} (first : (name, declaration) ∈ modules)
    (second : (name, other) ∈ modules) : declaration = other :=
  Option.some.inj ((Entries.find?_of_mem only.unique first).symm.trans
    (Entries.find?_of_mem only.unique second))

theorem rightUnique : Relator.RightUnique (Names modules) := by
  rintro name first second ⟨declaration, member, named⟩ ⟨again, present, also⟩
  obtain rfl := only.declaration_eq member present
  have placed := only.placed _ member
  exact List.mem_singleton.mp (placed.deps_eq also ▸ named)

private theorem not_names_root : ¬Names modules root parent := by
  rintro ⟨declaration, member, named⟩
  obtain ⟨top, present, none⟩ := mem_tops.mp (only.tops ▸ List.mem_singleton.mpr rfl)
  rw [only.declaration_eq member present, none] at named
  cases named

/-- A chain that comes to the root never meets a module twice. -/
theorem acyclic (leads : Leads modules name root) : ¬Relation.TransGen (Names modules) name name := by
  -- A cycle through a module goes on through its parent, and so comes to the root.
  induction leads using Relation.ReflTransGen.head_induction_on with
  | refl =>
    intro cycle
    obtain ⟨parent, named, -⟩ := Relation.TransGen.head'_iff.mp cycle
    exact only.not_names_root named
  | @head name parent named _ ih =>
    intro cycle
    obtain ⟨first, step, back⟩ := Relation.TransGen.head'_iff.mp cycle
    obtain rfl := only.rightUnique named step
    exact ih (Relation.TransGen.tail' back named)

private theorem eq_of_siblings (leads : Leads modules parent root)
    (first : Names modules name parent)
    (second : Names modules other parent) (chain : Leads modules name other) : name = other := by
  rcases Relation.ReflTransGen.cases_head chain with same | ⟨next, step, rest⟩
  · exact same
  · obtain rfl := only.rightUnique first step
    exact absurd (Relation.TransGen.tail' rest second) (only.acyclic leads)

end OneTop

/-! ## The recursion -/

/-- The tree that grows from a module, if it has no more than some levels. -/
def descend? (modules : Entries ModuleDeclaration) :
    (levels : Nat) → String × ModuleDeclaration → Option Outline
  | 0, _ => none
  | levels + 1, entry => ((below modules entry.1).mapM (descend? modules levels)).map (.node entry)

/-- A pool that still holds everything below a module. -/
def Full (modules pool : Entries ModuleDeclaration) (name : String) : Prop :=
  ∃ keep : String × ModuleDeclaration → Bool, pool = modules.filter keep ∧
    ∀ entry ∈ modules, Relation.TransGen (Names modules) entry.1 name → keep entry = true

theorem Full.refl (modules : Entries ModuleDeclaration) (name : String) : Full modules modules name :=
  ⟨fun _ => true, by simp, fun _ _ _ => rfl⟩

private theorem Full.below_eq (full : Full modules pool name) :
    below pool name = below modules name := by
  obtain ⟨keep, rfl, kept⟩ := full
  rw [below, below, List.filter_filter]
  refine List.filter_congr fun entry member => ?_
  cases named : isChild name entry with
  | false => rfl
  | true =>
    have step : Names modules entry.1 name := ⟨entry.2, member, by simpa [isChild] using named⟩
    rw [kept entry member (.single step)]
    rfl

theorem Full.step (full : Full modules pool name) (only : OneTop modules root)
    (leads : Leads modules name root) (step : Names modules child.1 name) :
    Full modules (without pool name) child.1 := by
  obtain ⟨keep, rfl, kept⟩ := full
  refine ⟨fun entry => !isChild name entry && keep entry, ?_, fun entry member chain => ?_⟩
  · rw [without, List.filter_filter]
  · show (!isChild name entry && keep entry) = true
    have kept : keep entry = true := kept entry member (chain.tail step)
    rw [kept, Bool.and_true, Bool.not_eq_true']
    -- Otherwise the chain of the entry would come to the module and go on to its child.
    refine Bool.eq_false_iff.mpr fun named => ?_
    have direct : Names modules entry.1 name := ⟨entry.2, member, by simpa [isChild] using named⟩
    obtain ⟨first, up, rest⟩ := Relation.TransGen.head'_iff.mp chain
    obtain rfl := only.rightUnique direct up
    exact only.acyclic leads (Relation.TransGen.tail' rest step)

private theorem grow_eq (pool : Entries ModuleDeclaration) (entry : String × ModuleDeclaration) :
    grow pool entry = .node entry ((below pool entry.1).map (grow (without pool entry.1))) := by
  rw [grow, List.attach_map_val]

theorem mapM_eq_some_iff {α β : Type} {f : α → Option β} {values : List α} {results : List β} :
    values.mapM f = some results ↔
      List.Forall₂ (fun value result => f value = some result) values results := by
  induction values generalizing results with
  | nil => simp [eq_comm]
  | cons value values ih =>
    rw [List.mapM_cons]
    cases results with
    | nil => cases f value <;> cases values.mapM f <;> simp
    | cons result results =>
      rw [List.forall₂_cons, ← ih]
      cases f value <;> cases values.mapM f <;> simp

/-- The recursion ends, and comes to the tree that grows from a pool. -/
theorem descend?_eq_some (only : OneTop modules root) {levels : Nat} (enough : pool.length < levels)
    (leads : Leads modules entry.1 root) (full : Full modules pool entry.1) :
    descend? modules levels entry = some (grow pool entry) := by
  induction levels generalizing pool entry with
  | zero => omega
  | succ levels ih =>
    have children : (below modules entry.1).mapM (descend? modules levels) =
        some ((below pool entry.1).map (grow (without pool entry.1))) := by
      rw [full.below_eq, mapM_eq_some_iff, List.forall₂_map_right_iff, List.forall₂_same]
      intro child member
      have step : Names modules child.1 entry.1 := names_iff.mpr ⟨child, member, rfl⟩
      have shorter := length_without_lt (full.below_eq ▸ member : child ∈ below pool entry.1)
      exact ih (by omega) (.head step leads) (full.step only leads step)
    rw [descend?, children, grow_eq]
    rfl

/-! ## Trees -/

/-- A tree in which those modules stand below a module that name it, in order of declaration. -/
inductive Follows (modules : Entries ModuleDeclaration) : Outline → Prop where
  | node {entry : String × ModuleDeclaration} {children : List Outline} :
      children.map (·.value) = below modules entry.1 → (∀ child ∈ children, Follows modules child) →
      Follows modules (.node entry children)

private theorem follows_of_forall₂ {children : List Outline}
    (each : List.Forall₂ (fun child tree => tree.value = child ∧ Follows modules tree)
      (below modules entry.1) children) : Follows modules (.node entry children) := by
  have both {entries : List (String × ModuleDeclaration)} {children : List Outline}
      (each : List.Forall₂ (fun child tree => tree.value = child ∧ Follows modules tree)
        entries children) :
      children.map (·.value) = entries ∧ ∀ child ∈ children, Follows modules child := by
    induction each with
    | nil => exact ⟨rfl, fun _ member => nomatch member⟩
    | cons first _ ih =>
      exact ⟨congrArg₂ List.cons first.1 ih.1, List.forall_mem_cons.mpr ⟨first.2, ih.2⟩⟩
  exact .node (both each).1 (both each).2

theorem follows_of_descend? {levels : Nat} (unfolded : descend? modules levels entry = some tree) :
    tree.value = entry ∧ Follows modules tree := by
  induction levels generalizing entry tree with
  | zero => cases unfolded
  | succ levels ih =>
    obtain ⟨children, grown, rfl⟩ := Option.map_eq_some_iff.mp unfolded
    have each := (mapM_eq_some_iff.mp grown).imp fun _ _ unfolded => ih unfolded
    exact ⟨rfl, follows_of_forall₂ each⟩

namespace Follows

variable {subtree : Outline} {place : TreePlace} {children : List Outline}

theorem at? (follows : Follows modules tree) (found : tree.at? place = some subtree) :
    Follows modules subtree := by
  induction place generalizing tree with
  | nil =>
    cases found
    exact follows
  | cons index place ih =>
    obtain ⟨child, selected, inside⟩ := Tree.at?_cons_eq_some.mp found
    cases follows with
    | node _ each => exact ih (each child (List.mem_of_getElem? selected)) inside

theorem children_eq (follows : Follows modules tree) :
    tree.children.map (·.value) = ModuleGraph.below modules tree.value.1 := by
  cases follows with
  | node here _ => exact here

theorem mem_below (follows : Follows modules (.node entry children)) (among : subtree ∈ children) :
    subtree.value ∈ ModuleGraph.below modules entry.1 := by
  cases follows with
  | node here _ => exact here ▸ List.mem_map_of_mem among

theorem of_child (follows : Follows modules (.node entry children)) (among : subtree ∈ children) :
    Follows modules subtree := by
  cases follows with
  | node _ each => exact each subtree among

theorem mem_of_mem_preorder (follows : Follows modules tree) (declared : tree.value ∈ modules)
    (member : entry ∈ tree.preorder) : entry ∈ modules := by
  induction tree using Tree.induct with
  | node value children ih =>
    rw [Tree.preorder_node] at member
    rcases List.mem_cons.mp member with rfl | member
    · exact declared
    · obtain ⟨child, among, inside⟩ := List.mem_flatMap.mp member
      have declared := (ModuleGraph.mem_below.mp (follows.mem_below among)).1
      exact ih child among (follows.of_child among) declared inside

theorem mem_names_iff (follows : Follows modules tree) :
    name ∈ tree.preorder.map (·.1) ↔ Leads modules name tree.value.1 := by
  induction tree using Tree.induct generalizing name with
  | node value children ih =>
    have chains : Leads modules name value.1 ↔
        value.1 = name ∨ ∃ next, Leads modules name next ∧ Names modules next value.1 :=
      Relation.ReflTransGen.cases_tail_iff ..
    rw [Tree.preorder_node, List.map_cons, List.mem_cons, List.map_flatMap, List.mem_flatMap]
    refine Iff.trans (or_congr eq_comm ?_) chains.symm
    constructor
    · rintro ⟨child, among, inside⟩
      exact ⟨child.value.1, (ih child among (follows.of_child among)).mp inside,
        names_iff.mpr ⟨child.value, follows.mem_below among, rfl⟩⟩
    · rintro ⟨next, chain, step⟩
      obtain ⟨entry, listed, rfl⟩ := names_iff.mp step
      have here : children.map (·.value) = ModuleGraph.below modules value.1 := follows.children_eq
      rw [← here] at listed
      obtain ⟨child, among, rfl⟩ := List.mem_map.mp listed
      exact ⟨child, among, (ih child among (follows.of_child among)).mpr chain⟩

private theorem nodup_names (follows : Follows modules tree) (only : OneTop modules root)
    (leads : Leads modules tree.value.1 root) : (tree.preorder.map (·.1)).Nodup := by
  induction tree using Tree.induct with
  | node value children ih =>
    have step {child : Outline} (among : child ∈ children) :
        Names modules child.value.1 value.1 :=
      names_iff.mpr ⟨child.value, follows.mem_below among, rfl⟩
    rw [Tree.preorder_node, List.map_cons, List.nodup_cons, List.map_flatMap, List.nodup_flatMap]
    refine ⟨?_, fun child among => ?_, ?_⟩
    · intro again
      obtain ⟨child, among, inside⟩ := List.mem_flatMap.mp again
      have chain := (follows.of_child among).mem_names_iff.mp inside
      exact only.acyclic leads (Relation.TransGen.tail' chain (step among))
    · exact ih child among (follows.of_child among) (.head (step among) leads)
    · have here : children.map (·.value) = ModuleGraph.below modules value.1 := follows.children_eq
      have distinct : (children.map (·.value.1)).Nodup := by
        have listed : (Entries.keys (ModuleGraph.below modules value.1)).Nodup :=
          only.unique.sublist (List.filter_sublist.map _)
        rwa [← here, Entries.keys, List.map_map] at listed
      -- A module below two children is at the beginning of both chains, so one goes on to the other.
      refine (List.pairwise_map.mp distinct).imp_of_mem fun {left right} first second apart => ?_
      intro name inLeft inRight
      have toLeft := (follows.of_child first).mem_names_iff.mp inLeft
      have toRight := (follows.of_child second).mem_names_iff.mp inRight
      rcases Relation.ReflTransGen.total_of_right_unique only.rightUnique toLeft toRight with up | up
      · exact apart (only.eq_of_siblings leads (step first) (step second) up)
      · exact apart (only.eq_of_siblings leads (step second) (step first) up).symm

theorem perm_names (follows : Follows modules tree) (only : OneTop modules root)
    (top : tree.value.1 = root) (declared : tree.value ∈ modules)
    (leads : ∀ name ∈ modules.keys, Leads modules name tree.value.1) :
    (tree.preorder.map (·.1)).Perm modules.keys := by
  have distinct := follows.nodup_names only (top ▸ .refl)
  refine (List.perm_ext_iff_of_nodup distinct only.unique).mpr fun name => ?_
  constructor
  · intro listed
    obtain ⟨entry, member, rfl⟩ := List.mem_map.mp listed
    exact List.mem_map_of_mem (follows.mem_of_mem_preorder declared member)
  · exact fun listed => follows.mem_names_iff.mpr (leads name listed)

theorem deps_eq {index : Nat} (follows : Follows modules tree) (only : OneTop modules root)
    (found : tree.at? (place ++ [index]) = some subtree) :
    ∃ above, tree.at? place = some above ∧ subtree.value.2.deps = [above.value.1] := by
  rw [Tree.at?_append] at found
  obtain ⟨above, reached, step⟩ := Option.bind_eq_some_iff.mp found
  obtain ⟨below, selected, same⟩ := Tree.at?_cons_eq_some.mp step
  obtain rfl := Option.some.inj same
  have among : below.value ∈ ModuleGraph.below modules above.value.1 :=
    (follows.at? reached).children_eq ▸ List.mem_map_of_mem (List.mem_of_getElem? selected)
  obtain ⟨member, named⟩ := ModuleGraph.mem_below.mp among
  exact ⟨above, reached, (only.placed below.value member).deps_eq named⟩

end Follows

end ChunkPlan.ModuleGraph
