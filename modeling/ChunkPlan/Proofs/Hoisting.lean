import ChunkPlan.Module.Hoisting
import ChunkPlan.Proofs.TreeUnits
import Mathlib.Data.List.Count

/-!
# Where hoisting puts units

Hoisting leaves every unit with one module: the lowest one above all that held it.  The pass itself
knows no places; it compares the lists below the children of one module and goes on with what is
left.  Lists are assumed to name no file twice, which planning ensures.
-/

set_option autoImplicit false

namespace ChunkPlan

/-- An element that is alone in meeting a test stands at one position. -/
theorem index_eq_of_countP_le_one {α : Type} {items : List α} {test : α → Bool} {i j : Nat}
    {left right : α} (alone : items.countP test ≤ 1) (atLeft : items[i]? = some left)
    (atRight : items[j]? = some right) (leftPasses : test left = true)
    (rightPasses : test right = true) : i = j := by
  induction items generalizing i j with
  | nil => simp at atLeft
  | cons first rest ih =>
    rw [List.countP_cons] at alone
    have passes {k : Nat} {item : α} (selected : rest[k]? = some item) (passes : test item = true) :
        0 < rest.countP test :=
      List.countP_pos_iff.mpr ⟨item, List.mem_of_getElem? selected, passes⟩
    cases i with
    | zero =>
      obtain rfl : first = left := by simpa using atLeft
      cases j with
      | zero => rfl
      | succ j =>
        have positive := passes atRight rightPasses
        rw [if_pos leftPasses] at alone
        omega
    | succ i =>
      cases j with
      | zero =>
        obtain rfl : first = right := by simpa using atRight
        have positive := passes atLeft leftPasses
        rw [if_pos rightPasses] at alone
        omega
      | succ j => rw [ih (by omega) atLeft atRight]

private theorem exists_two_of_two_le_countP {α : Type} {items : List α} {test : α → Bool}
    (several : 2 ≤ items.countP test) :
    ∃ (i j : Nat) (left right : α), i ≠ j ∧ items[i]? = some left ∧ items[j]? = some right ∧
      test left = true ∧ test right = true := by
  induction items with
  | nil => simp at several
  | cons first rest ih =>
    by_cases both : 2 ≤ rest.countP test
    · obtain ⟨i, j, left, right, apart, atLeft, atRight, passes⟩ := ih both
      exact ⟨i + 1, j + 1, left, right, by omega, atLeft, atRight, passes⟩
    · rw [List.countP_cons] at several
      have passes : test first = true := by
        by_contra fails
        rw [if_neg fails] at several
        omega
      rw [if_pos passes] at several
      obtain ⟨item, member, alsoPasses⟩ := List.countP_pos_iff.mp (show 0 < rest.countP test by omega)
      obtain ⟨j, selected⟩ := List.getElem?_of_mem member
      exact ⟨0, j + 1, first, item, by omega, rfl, selected, passes, alsoPasses⟩

namespace ModuleTree

open UnitList

variable {tree : ModuleTree} {node : ModuleNode} {children : List ModuleTree} {unit : SourceUnit}
  {gone : UnitList} {place : TreePlace}

/-! ## Holding -/

/-- Whether the module at a place holds a unit. -/
def HeldAt (tree : ModuleTree) (unit : SourceUnit) (place : TreePlace) : Prop :=
  ∃ subtree, tree.at? place = some subtree ∧ subtree.value.deps.has unit = true

/-- No module of the tree lists a file twice. -/
def Distinct (tree : ModuleTree) : Prop := ∀ node ∈ tree.nodes, node.deps.Distinct

instance (tree : ModuleTree) : Decidable tree.Distinct :=
  inferInstanceAs (Decidable (∀ node ∈ tree.nodes, node.deps.Distinct))

/-- The place where a unit belongs: it is held somewhere, and this is the lowest module above all
that hold it. -/
structure Home (tree : ModuleTree) (unit : SourceUnit) (place : TreePlace) : Prop where
  held : ∃ holder, tree.HeldAt unit holder
  nearest : NearestAbove (tree.HeldAt unit) place

/-- The lists of all modules of some trees, one after the other, parents first. -/
def listings (trees : List ModuleTree) : UnitList := (trees.flatMap nodes).flatMap (·.deps)

/-- The number of trees in which some module holds a unit. -/
def holderCount (trees : List ModuleTree) (unit : SourceUnit) : Nat :=
  trees.countP fun tree => tree.holds unit

@[simp] theorem heldAt_nil : tree.HeldAt unit [] ↔ tree.value.deps.has unit = true := by
  simp [HeldAt]

theorem heldAt_cons {index : Nat} :
    tree.HeldAt unit (index :: place) ↔
      ∃ child : ModuleTree, tree.children[index]? = some child ∧ child.HeldAt unit place := by
  simp only [HeldAt, Tree.at?_cons_eq_some]
  constructor
  · rintro ⟨subtree, ⟨child, selected, found⟩, held⟩
    exact ⟨child, selected, subtree, found, held⟩
  · rintro ⟨child, selected, subtree, found, held⟩
    exact ⟨subtree, ⟨child, selected, found⟩, held⟩

theorem holds_iff : tree.holds unit = true ↔ ∃ holder, tree.HeldAt unit holder := by
  simp only [holds, nodes, List.any_eq_true, Tree.mem_preorder_iff, HeldAt]
  constructor
  · rintro ⟨_, ⟨place, subtree, found, rfl⟩, held⟩
    exact ⟨place, subtree, found, held⟩
  · rintro ⟨place, subtree, found, held⟩
    exact ⟨_, ⟨place, subtree, found, rfl⟩, held⟩

private theorem holds_node :
    holds (.node node children) unit = (node.deps.has unit || children.any fun child : ModuleTree => child.holds unit) := by
  simp [holds, nodes, Tree.preorder_node, List.any_flatMap]

theorem holds_of_heldAt {index : Nat} {child : ModuleTree}
    (selected : tree.children[index]? = some child) (held : tree.HeldAt unit (index :: place)) :
    child.holds unit = true := by
  obtain ⟨_, alsoSelected, held⟩ := heldAt_cons.mp held
  rw [selected] at alsoSelected
  cases alsoSelected
  exact holds_iff.mpr ⟨place, held⟩

/-- A place is seen as held from its parent exactly if it is held from the child. -/
theorem heldAt_of_child {index : Nat} {child : ModuleTree}
    (selected : tree.children[index]? = some child) :
    tree.HeldAt unit (index :: place) ↔ child.HeldAt unit place := by
  rw [heldAt_cons]
  constructor
  · rintro ⟨_, alsoSelected, held⟩
    rw [selected] at alsoSelected
    cases alsoSelected
    exact held
  · exact fun held => ⟨child, selected, held⟩

theorem HeldAt.congr {other : SourceUnit} (same : unit.path = other.path) :
    tree.HeldAt unit place ↔ tree.HeldAt other place := by
  simp only [HeldAt, has_fileWise _ unit other same]

/-! ## Homes -/

namespace Home

theorem unique {left right : TreePlace} (first : tree.Home unit left) (second : tree.Home unit right) :
    left = right :=
  first.nearest.unique second.nearest

theorem of_held (held : ∃ holder, tree.HeldAt unit holder) : ∃ place, tree.Home unit place :=
  let ⟨place, nearest⟩ := NearestAbove.of_held held
  ⟨place, held, nearest⟩

theorem congr {other : SourceUnit} (same : unit.path = other.path) :
    tree.Home unit place ↔ tree.Home other place := by
  have heldSame : tree.HeldAt unit = tree.HeldAt other :=
    funext fun _ => propext (HeldAt.congr same)
  constructor
  · rintro ⟨held, nearest⟩
    exact ⟨heldSame ▸ held, heldSame ▸ nearest⟩
  · rintro ⟨held, nearest⟩
    exact ⟨heldSame ▸ held, heldSame ▸ nearest⟩

/-- A unit belongs to the root if the root holds it or two of its children reach it. -/
theorem nil_iff :
    tree.Home unit [] ↔ tree.value.deps.has unit = true ∨ 2 ≤ holderCount tree.children unit := by
  constructor
  · rintro ⟨⟨holder, held⟩, nearest⟩
    cases holder with
    | nil => exact .inl (heldAt_nil.mp held)
    | cons index holder =>
      obtain ⟨child, selected, _⟩ := heldAt_cons.mp held
      by_contra neither
      obtain ⟨missing, notSeveral⟩ := not_or.mp neither
      have few : holderCount tree.children unit ≤ 1 := by omega
      have upper : [index] <+: [] := nearest.nearest [index] fun other otherHeld => by
        cases other with
        | nil => exact absurd (heldAt_nil.mp otherHeld) missing
        | cons otherIndex other =>
          obtain ⟨otherChild, otherSelected, _⟩ := heldAt_cons.mp otherHeld
          have same : index = otherIndex :=
            index_eq_of_countP_le_one few selected otherSelected
              (holds_of_heldAt selected held) (holds_of_heldAt otherSelected otherHeld)
          simp [same]
      simp at upper
  · rintro (own | several)
    · exact ⟨⟨[], heldAt_nil.mpr own⟩, .root_of_holds (heldAt_nil.mpr own)⟩
    · obtain ⟨i, j, left, right, apart, atLeft, atRight, leftHolds, rightHolds⟩ :=
        exists_two_of_two_le_countP several
      obtain ⟨leftPlace, leftHeld⟩ := holds_iff.mp leftHolds
      obtain ⟨rightPlace, rightHeld⟩ := holds_iff.mp rightHolds
      have leftMember := (heldAt_of_child atLeft).mpr leftHeld
      exact ⟨⟨_, leftMember⟩, .root leftMember ((heldAt_of_child atRight).mpr rightHeld)
        (by simpa using Ne.symm apart)⟩

/-- A unit belongs below a child if only this child reaches it, and there where it belongs as seen
from the child. -/
theorem cons_iff {index : Nat} :
    tree.Home unit (index :: place) ↔
      tree.value.deps.has unit = false ∧ holderCount tree.children unit ≤ 1 ∧
        ∃ child : ModuleTree, tree.children[index]? = some child ∧ child.Home unit place := by
  have inside {child : ModuleTree} (selected : tree.children[index]? = some child) :
      NearestAbove (fun below => tree.HeldAt unit (index :: below)) place ↔
        NearestAbove (child.HeldAt unit) place :=
    NearestAbove.congr fun _ => heldAt_of_child selected
  constructor
  · intro home
    have through (holder : TreePlace) (held : tree.HeldAt unit holder) : holder.head? = some index := by
      obtain ⟨rest, rfl⟩ := home.nearest.above holder held
      rfl
    have notRoot : ¬tree.Home unit [] := fun root => by simpa using home.unique root
    rw [nil_iff, not_or] at notRoot
    obtain ⟨missing, few⟩ := notRoot
    obtain ⟨holder, held⟩ := home.held
    obtain ⟨below, rfl⟩ := List.head?_eq_some_iff.mp (through holder held)
    obtain ⟨child, selected, childHeld⟩ := heldAt_cons.mp held
    refine ⟨by simpa using missing, by omega, child, selected, ⟨below, childHeld⟩, ?_⟩
    exact (inside selected).mp ((NearestAbove.cons_iff home.held through).mp home.nearest)
  · rintro ⟨missing, few, child, selected, ⟨below, childHeld⟩, nearest⟩
    have held : tree.HeldAt unit (index :: below) := (heldAt_of_child selected).mpr childHeld
    have through (holder : TreePlace) (otherHeld : tree.HeldAt unit holder) :
        holder.head? = some index := by
      cases holder with
      | nil => exact absurd (heldAt_nil.mp otherHeld) (by simp [missing])
      | cons otherIndex other =>
        obtain ⟨otherChild, otherSelected, _⟩ := heldAt_cons.mp otherHeld
        have same : otherIndex = index :=
          index_eq_of_countP_le_one few otherSelected selected
            (holds_of_heldAt otherSelected otherHeld) (holds_of_heldAt selected held)
        simp [same]
    exact ⟨⟨_, held⟩, (NearestAbove.cons_iff ⟨_, held⟩ through).mpr ((inside selected).mpr nearest)⟩

end Home

/-- Whether a unit belongs to a place, found on the way down. -/
def isHome (unit : SourceUnit) : ModuleTree → TreePlace → Bool
  | tree, [] => tree.value.deps.has unit || 2 ≤ holderCount tree.children unit
  | tree, index :: place =>
    !tree.value.deps.has unit && holderCount tree.children unit ≤ 1 &&
      match tree.children[index]? with
      | some child => isHome unit child place
      | none => false

theorem isHome_iff : isHome unit tree place = true ↔ tree.Home unit place := by
  induction place generalizing tree with
  | nil => simp [isHome, Home.nil_iff]
  | cons index place ih =>
    rw [isHome, Home.cons_iff]
    cases tree.children[index]? with
    | none => simp
    | some child => simp [ih, and_assoc]

instance (tree : ModuleTree) (unit : SourceUnit) (place : TreePlace) :
    Decidable (tree.Home unit place) :=
  decidable_of_iff _ isHome_iff

theorem home_fileWise (tree : ModuleTree) (place : TreePlace) :
    FileWise fun unit => tree.Home unit place :=
  fun _ _ same => decide_eq_decide.mpr (Home.congr same)

/-! ## What one module takes over -/

private theorem addAll_allUnits (units : UnitList) (trees : List ModuleTree) :
    units.addAll (trees.flatMap allUnits) = units.addAll (listings trees) := by
  rw [List.flatMap_congr fun tree _ => allUnits_eq tree, addAll_flatMap_addAll_nil, listings,
    List.flatMap_assoc]

/-- The units taken over are the first listings below the children, as far as the module itself
or two of the children have them. -/
theorem shared_eq (own seen : UnitList) (lists : List UnitList)
    (distinct : ∀ units ∈ lists, units.Distinct) :
    shared own seen lists = (addAll [] lists.flatten).filter fun unit =>
      !seen.has unit && (own.has unit || 2 ≤ lists.countP (·.has unit)) := by
  induction lists generalizing seen with
  | nil => rfl
  | cons units later ih =>
    rw [List.flatten_cons, addAll_append, addAll_nil_of_distinct (distinct units (by simp)),
      addAll_eq_append units, List.filter_append, List.filter_filter, shared,
      ih _ fun other member => distinct other (List.mem_cons_of_mem _ member)]
    refine congrArg₂ _ (List.filter_congr fun unit member => ?_)
      (List.filter_congr fun unit _ => ?_)
    · have positive : later.any (·.has unit) = decide (1 ≤ later.countP (·.has unit)) := by
        rw [Bool.eq_iff_iff, List.any_eq_true, decide_eq_true_eq, Nat.succ_le_iff,
          List.countP_pos_iff]
      simp [has_of_mem member, positive]
    · cases known : units.has unit <;> simp [known]

/-- The units that a module takes over from its children. -/
def taken (tree : ModuleTree) : UnitList :=
  shared tree.value.deps [] (tree.children.map allUnits)

theorem taken_eq (tree : ModuleTree) :
    tree.taken = (addAll [] (listings tree.children)).filter fun unit => tree.Home unit [] := by
  rw [taken, shared_eq _ _ _ (by simp [distinct_allUnits]), ← List.flatMap_def, addAll_allUnits]
  apply List.filter_congr
  intro unit _
  rw [Bool.eq_iff_iff, decide_eq_true_eq, Home.nil_iff, holderCount, List.countP_map]
  simp [Function.comp_def, has_allUnits]

private theorem distinct_taken (tree : ModuleTree) : tree.taken.Distinct :=
  taken_eq tree ▸ (distinct_nil.addAll _).filter _

/-- A unit is taken over if it is held below and belongs to the module. -/
theorem has_taken :
    tree.taken.has unit = true ↔
      (∃ child ∈ tree.children, holds child unit = true) ∧ tree.Home unit [] := by
  rw [taken_eq, has_filter (home_fileWise tree []), has_addAll, listings]
  simp [has_flatMap, holds, nodes]

/-! ## The pass -/

private theorem hoistAll_eq (gone : UnitList) (trees : List ModuleTree) :
    hoistAll gone trees = trees.map (hoist gone) := by
  induction trees with
  | nil => rfl
  | cons tree trees ih => rw [hoistAll, ih, List.map_cons]

theorem strike_node (gone : UnitList) (node : ModuleNode) (children : List ModuleTree) :
    strike gone (.node node children) =
      .node { node with deps := node.deps.removeAll gone } (children.map (strike gone)) :=
  Tree.map_node _ node children

theorem strike_nil (tree : ModuleTree) : strike [] tree = tree := Tree.map_id tree

private theorem strike_strike (gone others : UnitList) (tree : ModuleTree) :
    strike others (strike gone tree) = strike (gone ++ others) tree := by
  simp [strike, Tree.map_map, removeAll_append]

theorem hoist_node (gone : UnitList) (node : ModuleNode) (children : List ModuleTree) :
    hoist gone (.node node children) =
      .node { node with
          deps := (node.deps.removeAll gone).addAll (strike gone (.node node children)).taken }
        (children.map (hoist (gone ++ (strike gone (.node node children)).taken))) := by
  rw [hoist, hoistAll_eq, strike_node, taken, Tree.value, Tree.children, List.map_map]
  rfl

/-- Units struck on the way down are as good as struck beforehand. -/
theorem hoist_strike (gone others : UnitList) (tree : ModuleTree) :
    hoist others (strike gone tree) = hoist (gone ++ others) tree := by
  induction tree using Tree.induct generalizing others with
  | node node children ih =>
    rw [hoist_node, ← strike_strike, strike_node gone, hoist_node, removeAll_append, List.map_map]
    refine congrArg _ (List.map_congr_left fun child member => ?_)
    rw [Function.comp_apply, ih child member, List.append_assoc]

theorem normalize_strike (gone : UnitList) (tree : ModuleTree) :
    normalize (strike gone tree) = hoist gone tree := by
  rw [normalize, hoist_strike, List.append_nil]

/-- A module takes over what belongs to it, and the rest is planned child by child. -/
theorem normalize_eq (tree : ModuleTree) :
    tree.normalize =
      .node { tree.value with deps := tree.value.deps.addAll tree.taken }
        (tree.children.map fun child => normalize (strike tree.taken child)) := by
  obtain ⟨node, children⟩ := tree
  simp only [normalize_strike]
  rw [normalize, hoist_node, strike_nil, List.nil_append]
  rfl

/-! ## Struck trees -/

theorem Distinct.at? (distinct : tree.Distinct) {subtree : ModuleTree}
    (found : tree.at? place = some subtree) : Distinct subtree :=
  fun node member => distinct node (Tree.mem_preorder_of_at? found member)

theorem Distinct.child (distinct : tree.Distinct) {index : Nat} {child : ModuleTree}
    (selected : tree.children[index]? = some child) : Distinct child :=
  distinct.at? (Tree.at?_cons_eq_some.mpr ⟨child, selected, Tree.at?_nil child⟩)

theorem Distinct.value (distinct : tree.Distinct) : tree.value.deps.Distinct :=
  distinct tree.value (Tree.mem_preorder_iff.mpr ⟨[], tree, rfl, rfl⟩)

private theorem Distinct.strike (distinct : tree.Distinct) (gone : UnitList) :
    Distinct (strike gone tree) := by
  intro node member
  rw [nodes, ModuleTree.strike, Tree.preorder_map, List.mem_map] at member
  obtain ⟨before, inside, rfl⟩ := member
  exact removeAll_of_distinct (distinct before inside) gone ▸ (distinct before inside).filter _

/-- A struck unit is held nowhere, and any other where it was. -/
theorem heldAt_strike (distinct : tree.Distinct) :
    (strike gone tree).HeldAt unit place ↔ gone.has unit = false ∧ tree.HeldAt unit place := by
  have fileWise : FileWise fun unit => !gone.has unit := fun left right same => by
    simp [has_fileWise gone left right same]
  simp only [HeldAt, strike, Tree.at?_map, Option.map_eq_some_iff]
  constructor
  · rintro ⟨_, ⟨subtree, found, rfl⟩, held⟩
    rw [Tree.value_map, removeAll_of_distinct (distinct.at? found).value, has_filter fileWise] at held
    simp only [Bool.and_eq_true, Bool.not_eq_true'] at held
    exact ⟨held.2, subtree, found, held.1⟩
  · rintro ⟨kept, subtree, found, held⟩
    refine ⟨_, ⟨subtree, found, rfl⟩, ?_⟩
    rw [Tree.value_map, removeAll_of_distinct (distinct.at? found).value, has_filter fileWise]
    simp [held, kept]

theorem home_strike (distinct : tree.Distinct) :
    (strike gone tree).Home unit place ↔ gone.has unit = false ∧ tree.Home unit place := by
  constructor
  · rintro ⟨⟨holder, held⟩, nearest⟩
    obtain ⟨kept, held⟩ := (heldAt_strike distinct).mp held
    refine ⟨kept, ⟨holder, held⟩, (NearestAbove.congr fun other => ?_).mp nearest⟩
    simp [heldAt_strike distinct, kept]
  · rintro ⟨kept, ⟨holder, held⟩, nearest⟩
    refine ⟨⟨holder, (heldAt_strike distinct).mpr ⟨kept, held⟩⟩, ?_⟩
    refine (NearestAbove.congr fun other => ?_).mpr nearest
    simp [heldAt_strike distinct, kept]

private theorem listings_strike {trees : List ModuleTree}
    (distinct : ∀ tree ∈ trees, Distinct tree) :
    listings (trees.map (strike gone)) = (listings trees).filter fun unit => !gone.has unit := by
  rw [listings, listings, List.filter_flatMap, List.flatMap_map, List.flatMap_assoc,
    List.flatMap_assoc]
  apply List.flatMap_congr
  intro tree member
  rw [nodes, strike, Tree.preorder_map, List.flatMap_map]
  exact List.flatMap_congr fun node inside => removeAll_of_distinct (distinct tree member node inside) gone

/-! ## The plan of every module -/

/-- The list planned for the module at a place: what it holds and keeps, in its order, and then
what comes from below, in the order of the first listings there. -/
def settled (tree : ModuleTree) (place : TreePlace) (subtree : ModuleTree) : UnitList :=
  (subtree.value.deps.filter fun unit => tree.Home unit place) ++
    addAll [] ((listings subtree.children).filter fun unit =>
      tree.Home unit place && !subtree.value.deps.has unit)

private theorem settled_root (tree : ModuleTree) :
    tree.settled [] tree = tree.value.deps.addAll tree.taken := by
  have kept : (tree.value.deps.filter fun unit => tree.Home unit []) = tree.value.deps := by
    apply List.filter_eq_self.mpr
    intro unit member
    exact decide_eq_true (Home.nil_iff.mpr (.inl (has_of_mem member)))
  have fileWise : FileWise fun unit => tree.Home unit [] && !tree.value.deps.has unit := by
    intro left right same
    simp only [home_fileWise tree [] left right same, has_fileWise _ left right same]
  rw [settled, kept, addAll_filter fileWise, addAll_of_distinct tree.distinct_taken, taken_eq,
    List.filter_filter]
  simp only [Bool.and_comm]

/-- Below a child the plan is the child's own, once the units taken over are struck. -/
theorem home_child {index : Nat} {child : ModuleTree}
    (selected : tree.children[index]? = some child) (distinct : child.Distinct) :
    tree.Home unit (index :: place) ↔ (strike tree.taken child).Home unit place := by
  have notTaken (home : child.Home unit place) :
      tree.taken.has unit = false ↔
        tree.value.deps.has unit = false ∧ holderCount tree.children unit ≤ 1 := by
    have reached : ∃ child ∈ tree.children, holds child unit = true :=
      ⟨child, List.mem_of_getElem? selected, holds_iff.mpr home.held⟩
    rw [← Bool.not_eq_true, has_taken, Home.nil_iff]
    simp only [reached, true_and, not_or, Bool.not_eq_true, Nat.not_le, Nat.lt_succ_iff]
  rw [home_strike distinct, Home.cons_iff, selected]
  constructor
  · rintro ⟨missing, few, _, same, home⟩
    cases same
    exact ⟨(notTaken home).mpr ⟨missing, few⟩, home⟩
  · rintro ⟨kept, home⟩
    obtain ⟨missing, few⟩ := (notTaken home).mp kept
    exact ⟨missing, few, child, rfl, home⟩

private theorem settled_child {index : Nat} {child subtree : ModuleTree}
    (selected : tree.children[index]? = some child) (distinct : child.Distinct)
    (found : child.at? place = some subtree) :
    (strike tree.taken child).settled place (strike tree.taken subtree) =
      tree.settled (index :: place) subtree := by
  have below : ∀ tree ∈ subtree.children, Distinct tree := by
    intro inner member
    obtain ⟨position, reached⟩ := List.getElem?_of_mem member
    exact (distinct.at? found).child reached
  have fileWise : FileWise fun unit => !tree.taken.has unit := fun left right same => by
    simp [has_fileWise _ left right same]
  have struck : (strike tree.taken subtree).value.deps =
      subtree.value.deps.filter fun unit => !tree.taken.has unit := by
    rw [strike, Tree.value_map]
    exact removeAll_of_distinct (distinct.at? found).value _
  have children : (strike tree.taken subtree).children = subtree.children.map (strike tree.taken) :=
    Tree.children_map _ _
  rw [settled, settled, struck, children, listings_strike below, List.filter_filter,
    List.filter_filter]
  -- A unit with its home below the child is none of those taken over.
  refine congrArg₂ _ (List.filter_congr fun unit _ => ?_)
    (congrArg _ (List.filter_congr fun unit _ => ?_))
  · by_cases home : tree.Home unit (index :: place)
    · have inner := (home_child selected distinct).mp home
      simp [home, inner, ((home_strike distinct).mp inner).1]
    · simp [home, (home_child selected distinct).not.mp home]
  · by_cases home : tree.Home unit (index :: place)
    · have inner := (home_child selected distinct).mp home
      simp [home, inner, has_filter fileWise, ((home_strike distinct).mp inner).1]
    · simp [home, (home_child selected distinct).not.mp home]

/-- Hoisting keeps the shape of the tree and all that the modules are declared with, and gives every
module its planned list. -/
theorem at?_normalize (distinct : tree.Distinct) (place : TreePlace) :
    (tree.normalize.at? place).map Tree.value = (tree.at? place).map fun subtree =>
      { subtree.value with deps := tree.settled place subtree } := by
  induction place generalizing tree with
  | nil =>
    rw [normalize_eq, Tree.at?_nil, Tree.at?_nil, Option.map_some, Option.map_some,
      settled_root]
    rfl
  | cons index place ih =>
    rw [normalize_eq, Tree.at?, Tree.at?, Tree.children, List.getElem?_map]
    cases selected : tree.children[index]? with
    | none => rfl
    | some child =>
      have childDistinct : Distinct child := distinct.child selected
      rw [Option.map_some, Option.bind_some, Option.bind_some,
        ih (childDistinct.strike tree.taken), strike, Tree.at?_map, Option.map_map]
      cases found : child.at? place with
      | none => rfl
      | some subtree =>
        have plan := settled_child selected childDistinct found
        simp only [strike] at plan
        simp [plan]

theorem deps_normalize (distinct : tree.Distinct) {planned : ModuleTree}
    (found : tree.normalize.at? place = some planned) :
    ∃ subtree, tree.at? place = some subtree ∧ planned.value.deps = tree.settled place subtree := by
  have plan := at?_normalize distinct place
  rw [found, Option.map_some] at plan
  obtain ⟨subtree, original, same⟩ := Option.map_eq_some_iff.mp plan.symm
  exact ⟨subtree, original, same ▸ rfl⟩

private theorem holds_eq :
    tree.holds unit = (tree.value.deps.has unit || (listings tree.children).has unit) := by
  obtain ⟨node, children⟩ := tree
  rw [holds_node, listings, has_flatMap, List.any_flatMap]
  rfl

/-- The planned list of a module names exactly the units that belong there. -/
theorem has_settled {subtree : ModuleTree} (found : tree.at? place = some subtree) :
    (tree.settled place subtree).has unit = true ↔ tree.Home unit place := by
  have fileWise : FileWise fun unit => tree.Home unit place && !subtree.value.deps.has unit := by
    intro left right same
    simp only [home_fileWise tree place left right same, has_fileWise _ left right same]
  have reached (home : tree.Home unit place) : subtree.holds unit = true := by
    obtain ⟨holder, held⟩ := home.held
    obtain ⟨below, rfl⟩ := home.nearest.above holder held
    obtain ⟨inner, innerFound, listed⟩ := held
    rw [Tree.at?_append, found] at innerFound
    exact holds_iff.mpr ⟨below, inner, innerFound, listed⟩
  rw [settled, has_append, has_filter (home_fileWise tree place), has_addAll, has_filter fileWise]
  by_cases home : tree.Home unit place
  · have listed := reached home
    rw [holds_eq] at listed
    cases own : subtree.value.deps.has unit <;> simp_all
  · simp [home]

private theorem distinct_settled (distinct : tree.Distinct) {subtree : ModuleTree}
    (found : tree.at? place = some subtree) : (tree.settled place subtree).Distinct := by
  refine ((distinct.at? found).value.filter _).append (distinct_nil.addAll _) fun unit member => ?_
  rcases mem_of_mem_addAll member with none | added
  · cases none
  · have fresh := (List.mem_filter.mp added).2
    rw [Bool.and_eq_true, Bool.not_eq_true'] at fresh
    rw [has_filter (home_fileWise tree place), fresh.2, Bool.false_and]

theorem heldAt_normalize (distinct : tree.Distinct) :
    tree.normalize.HeldAt unit place ↔ tree.Home unit place := by
  constructor
  · intro ⟨planned, found, listed⟩
    obtain ⟨subtree, original, plan⟩ := deps_normalize distinct found
    rw [plan] at listed
    exact (has_settled original).mp listed
  · intro home
    obtain ⟨holder, held⟩ := home.held
    obtain ⟨below, rfl⟩ := home.nearest.above holder held
    obtain ⟨inner, innerFound, _⟩ := held
    rw [Tree.at?_append] at innerFound
    obtain ⟨subtree, original, _⟩ := Option.bind_eq_some_iff.mp innerFound
    have plan := at?_normalize distinct place
    rw [original, Option.map_some] at plan
    obtain ⟨planned, found, same⟩ := Option.map_eq_some_iff.mp plan
    exact ⟨planned, found, same ▸ (has_settled original).mpr home⟩

theorem Distinct.normalize (distinct : tree.Distinct) : tree.normalize.Distinct := by
  intro node member
  obtain ⟨place, planned, found, rfl⟩ := Tree.mem_preorder_iff.mp member
  obtain ⟨subtree, original, plan⟩ := deps_normalize distinct found
  exact plan ▸ distinct_settled distinct original

/-- Hoisting leaves every unit with one module, the lowest one above all that held it, and adds
none.  Each module keeps its own units in order and appends those it takes over in the order in
which they are met below it. -/
theorem normalize_hoists (tree : ModuleTree) (distinct : tree.Distinct) :
    (∀ unit, (∃ holder, tree.HeldAt unit holder) → ∃! place, tree.normalize.HeldAt unit place) ∧
    (∀ unit place, tree.normalize.HeldAt unit place →
      (∃ holder, tree.HeldAt unit holder) ∧ NearestAbove (tree.HeldAt unit) place) ∧
    tree.normalize.Distinct ∧
    ∀ place, (tree.normalize.at? place).map Tree.value = (tree.at? place).map fun subtree =>
      { subtree.value with deps := tree.settled place subtree } := by
  refine ⟨fun unit held => ?_, fun unit place held => ?_, distinct.normalize, at?_normalize distinct⟩
  · obtain ⟨place, home⟩ := Home.of_held held
    exact ⟨place, (heldAt_normalize distinct).mpr home,
      fun other held => ((heldAt_normalize distinct).mp held).unique home⟩
  · have home := (heldAt_normalize distinct).mp held
    exact ⟨home.held, home.nearest⟩

/-- Two grandchildren share one unit, and a third module shares another with one of them. -/
def crossedTree : ModuleTree :=
  .node { name := "root" } [
    .node { name := "left", deps := [{ path := "x" }] } [],
    .node { name := "right" } [
      .node { name := "first", deps := [{ path := "s" }, { path := "x" }] } [],
      .node { name := "second", deps := [{ path := "y" }, { path := "s" }] } []]]

theorem normalize_hoists_crossedTree :
    crossedTree.Distinct ∧ ∃! place, crossedTree.normalize.HeldAt { path := "s" } place :=
  ⟨by decide, (normalize_hoists crossedTree (by decide)).1 _ (holds_iff.mp (by decide))⟩

end ModuleTree

end ChunkPlan
