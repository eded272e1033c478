import ChunkPlan.Proofs.Hoisting
import ChunkPlan.Proofs.LoadOrder

/-!
# Load orders across modules

Hoisting can put a unit after others that were not with it before, and take away from a module what
its own list relied on.  The order survives because whoever lists a unit also lists what the unit
requires: a requirement never ends up below or beside the unit.
-/

set_option autoImplicit false

namespace ChunkPlan.ModuleTree

open UnitList

variable {pool : UnitList} {tree : ModuleTree} {unit provider : SourceUnit} {place : TreePlace}
  {exempt given : SourceUnit → Prop}

/-- Whether the module at a place lists a unit. -/
def ListedAt (tree : ModuleTree) (unit : SourceUnit) (place : TreePlace) : Prop :=
  ∃ subtree, tree.at? place = some subtree ∧ unit ∈ subtree.value.deps

/-- Whether a module that is loaded before the one at a place lists a unit. -/
def ListedAbove (tree : ModuleTree) (place : TreePlace) (unit : SourceUnit) : Prop :=
  ∃ upper, upper <+: place ∧ upper ≠ place ∧ tree.ListedAt unit upper

/-- Every module lists units after what they require, as far as no module above lists that. -/
def Layered (pool : UnitList) (exempt given : SourceUnit → Prop) (tree : ModuleTree) : Prop :=
  ∀ place subtree, tree.at? place = some subtree →
    Arranged pool exempt (fun unit => given unit ∨ tree.ListedAbove place unit) subtree.value.deps

/-- Every module lists units of a pool, each one after what it requires. -/
structure Gathered (pool : UnitList) (exempt : SourceUnit → Prop) (tree : ModuleTree) : Prop where
  distinct : tree.Distinct
  within : ∀ node ∈ tree.nodes, ∀ unit ∈ node.deps, unit ∈ pool
  arranged : ∀ node ∈ tree.nodes, Arranged pool exempt (fun _ => False) node.deps

theorem value_mem_nodes {subtree : ModuleTree} (found : tree.at? place = some subtree) :
    subtree.value ∈ tree.nodes :=
  Tree.mem_preorder_iff.mpr ⟨place, subtree, found, rfl⟩

/-- In a pool without two units of one file, holding the file is listing the unit. -/
theorem listedAt_iff (distinct : pool.Distinct)
    (within : ∀ node ∈ tree.nodes, ∀ unit ∈ node.deps, unit ∈ pool) (member : unit ∈ pool) :
    tree.ListedAt unit place ↔ tree.HeldAt unit place := by
  constructor
  · intro ⟨subtree, found, listed⟩
    exact ⟨subtree, found, has_of_mem listed⟩
  · intro ⟨subtree, found, held⟩
    exact ⟨subtree, found, distinct.mem_of_has (within _ (value_mem_nodes found)) member held⟩

namespace Gathered

/-- Whoever holds a unit that is not exempt holds what the unit requires. -/
theorem heldAt_of_requires (consistent : pool.Consistent) (gathered : Gathered pool exempt tree)
    (member : unit ∈ pool) (required : ¬exempt unit) (requires : Requires pool unit provider)
    (held : tree.HeldAt unit place) : tree.HeldAt provider place := by
  obtain ⟨subtree, found, listed⟩ :=
    (listedAt_iff consistent.distinct gathered.within member).mpr held
  obtain ⟨name, needed, provides⟩ := requires
  obtain ⟨before, after, split⟩ := List.append_of_mem listed
  obtain ⟨other, alsoProvides, available⟩ :=
    gathered.arranged _ (value_mem_nodes found) before unit after split required name needed
  obtain rfl := consistent.single name provider other provides alsoProvides
  refine ⟨subtree, found, has_of_mem ?_⟩
  rw [split]
  exact List.mem_append_left _ (available.resolve_left id)

/-- What a unit requires belongs to the module of the unit or above. -/
theorem home_of_requires (consistent : pool.Consistent) (gathered : Gathered pool exempt tree)
    (member : unit ∈ pool) (required : ¬exempt unit) (requires : Requires pool unit provider)
    (home : tree.Home unit place) : ∃ upper, upper <+: place ∧ tree.Home provider upper := by
  have follows (holder : TreePlace) (held : tree.HeldAt unit holder) : tree.HeldAt provider holder :=
    gathered.heldAt_of_requires consistent member required requires held
  obtain ⟨holder, held⟩ := home.held
  obtain ⟨upper, upperHome⟩ := Home.of_held ⟨holder, follows holder held⟩
  refine ⟨upper, home.nearest.nearest upper fun other otherHeld => ?_, upperHome⟩
  exact upperHome.nearest.above other (follows other otherHeld)

theorem within_listings (gathered : Gathered pool exempt tree) {subtree : ModuleTree}
    (found : tree.at? place = some subtree) (listed : unit ∈ listings subtree.children) :
    unit ∈ pool := by
  obtain ⟨node, member, inside⟩ := List.mem_flatMap.mp listed
  refine gathered.within node (Tree.mem_preorder_of_at? found ?_) unit inside
  rw [Tree.preorder_eq]
  exact List.mem_cons_of_mem _ member

private theorem within_settled (gathered : Gathered pool exempt tree) {subtree : ModuleTree}
    (found : tree.at? place = some subtree) (listed : unit ∈ tree.settled place subtree) :
    unit ∈ pool := by
  rcases List.mem_append.mp listed with own | below
  · exact gathered.within _ (value_mem_nodes found) unit (List.mem_of_mem_filter own)
  · rcases mem_of_mem_addAll below with none | below
    · cases none
    · exact gathered.within_listings found (List.mem_of_mem_filter below)

theorem within_normalize (gathered : Gathered pool exempt tree) :
    ∀ node ∈ tree.normalize.nodes, ∀ unit ∈ node.deps, unit ∈ pool := by
  intro node member unit listed
  obtain ⟨place, planned, found, rfl⟩ := Tree.mem_preorder_iff.mp member
  obtain ⟨subtree, original, plan⟩ := deps_normalize gathered.distinct found
  exact gathered.within_settled original (plan ▸ listed)

theorem listedAt_normalize (distinct : pool.Distinct) (gathered : Gathered pool exempt tree)
    (member : unit ∈ pool) : tree.normalize.ListedAt unit place ↔ tree.Home unit place := by
  rw [listedAt_iff distinct gathered.within_normalize member, heldAt_normalize gathered.distinct]

private theorem arranged_listings (gathered : Gathered pool exempt tree) {subtree : ModuleTree}
    (found : tree.at? place = some subtree) :
    Arranged pool exempt (fun _ => False) (listings subtree.children) := by
  refine .flatMap fun node member => gathered.arranged node (Tree.mem_preorder_of_at? found ?_)
  rw [Tree.preorder_eq]
  exact List.mem_cons_of_mem _ member

/-- The planned list of a module is in order, given what the modules above it are planned to list. -/
theorem arranged_settled (consistent : pool.Consistent) (gathered : Gathered pool exempt tree)
    {subtree : ModuleTree} (found : tree.at? place = some subtree) :
    Arranged pool exempt (tree.normalize.ListedAbove place) (tree.settled place subtree) := by
  have home_or_above {unit provider : SourceUnit} (member : unit ∈ pool) (required : ¬exempt unit)
      (requires : Requires pool unit provider) (home : tree.Home unit place) :
      tree.Home provider place ∨ tree.normalize.ListedAbove place provider := by
    obtain ⟨upper, above, upperHome⟩ :=
      gathered.home_of_requires consistent member required requires home
    by_cases here : upper = place
    · exact .inl (here ▸ upperHome)
    · obtain ⟨_, _, inside, _⟩ := requires
      exact .inr ⟨upper, above, here,
        (gathered.listedAt_normalize consistent.distinct inside).mpr upperHome⟩
  have within := gathered.within _ (value_mem_nodes found)
  rw [settled]
  refine .append ?own (.addAll_nil consistent.distinct ?within ?below)
  case own =>
    refine .filter ((gathered.arranged _ (value_mem_nodes found)).mono fun _ => False.elim) ?_
    intro unit listed home required provider _ requires
    rw [decide_eq_true_eq] at home ⊢
    exact home_or_above (within unit listed) required requires home
  case within =>
    intro unit listed
    exact gathered.within_listings found (List.mem_of_mem_filter listed)
  case below =>
    refine .filter ((gathered.arranged_listings found).mono fun _ => False.elim) ?_
    intro unit listed kept required provider _ requires
    simp only [Bool.and_eq_true, decide_eq_true_eq, Bool.not_eq_true'] at kept ⊢
    rcases home_or_above (gathered.within_listings found listed) required requires kept.1 with
      home | above
    · cases own : subtree.value.deps.has provider with
      | false => exact .inl ⟨home, rfl⟩
      | true =>
        obtain ⟨_, _, inside, _⟩ := requires
        have member := consistent.distinct.mem_of_has within inside own
        exact .inr (.inr (List.mem_filter.mpr ⟨member, decide_eq_true home⟩))
    · exact .inr (.inl above)

/-- Hoisting keeps every requirement in the module of the unit or above it, and in order. -/
theorem layered (consistent : pool.Consistent) (gathered : Gathered pool exempt tree) :
    Layered pool exempt (fun _ => False) tree.normalize := by
  intro place planned found
  obtain ⟨subtree, original, plan⟩ := deps_normalize gathered.distinct found
  rw [plan]
  exact (gathered.arranged_settled consistent original).mono fun _ => .inr

end Gathered

/-! ## The flat list -/

/-- Module by module, parents first, the lists make one list in order. -/
theorem Layered.arranged (layered : Layered pool exempt given tree) :
    Arranged pool exempt given (tree.nodes.flatMap (·.deps)) := by
  induction tree using Tree.induct generalizing given with
  | node node children ih =>
    rw [nodes, Tree.preorder_node, List.flatMap_cons, List.flatMap_assoc]
    refine .append ((layered [] _ rfl).mono ?_) (.flatMap fun child member => ih child member ?_)
    · intro unit available
      rcases available with granted | ⟨upper, above, proper, _⟩
      · exact granted
      · exact absurd (List.prefix_nil.mp above) proper
    · intro place subtree found
      obtain ⟨index, selected⟩ := List.getElem?_of_mem member
      refine (layered (index :: place) subtree (Tree.at?_cons_eq_some.mpr ⟨child, selected, found⟩)).mono ?_
      intro unit available
      rcases available with granted | ⟨upper, above, proper, inner, reached, listed⟩
      · exact .inl (.inl granted)
      · cases upper with
        | nil =>
          cases reached
          exact .inl (.inr listed)
        | cons first upper =>
          obtain ⟨rfl, shorter⟩ := List.cons_prefix_cons.mp above
          obtain ⟨other, alsoSelected, reached⟩ := Tree.at?_cons_eq_some.mp reached
          obtain rfl : child = other := Option.some.inj (selected.symm.trans alsoSelected)
          exact .inr ⟨upper, shorter, fun same => proper (congrArg _ same), inner, reached, listed⟩

end ChunkPlan.ModuleTree
