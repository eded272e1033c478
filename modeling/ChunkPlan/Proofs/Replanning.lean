import ChunkPlan.Proofs.Planning

/-!
# Planning a plan

A plan that is planned again lists in every module what its entries need once more, behind what the
module was given the first time.  All of that is struck again: a unit is now held by the lowest
module above all that need it, and by those, and the lowest module above these is the same.
-/

set_option autoImplicit false

namespace ChunkPlan

open UnitList

/-- Trees with the same values at all places are the same. -/
theorem Tree.eq_of_at? {α : Type} {tree other : Tree α}
    (same : ∀ place, (tree.at? place).map Tree.value = (other.at? place).map Tree.value) :
    tree = other := by
  induction tree using Tree.induct generalizing other with
  | node value children ih =>
    obtain ⟨otherValue, others⟩ := other
    have root : value = otherValue := Option.some.inj (same [])
    have below (index : Nat) (place : TreePlace) :
        (children[index]?.bind (·.at? place)).map Tree.value =
          (others[index]?.bind (·.at? place)).map Tree.value := same (index :: place)
    have lists : children = others := by
      apply List.ext_getElem?
      intro index
      have here := below index
      cases left : children[index]? with
      | none =>
        cases right : others[index]? with
        | none => rfl
        | some sibling =>
          rw [left, right] at here
          cases here []
      | some child =>
        cases right : others[index]? with
        | none =>
          rw [left, right] at here
          cases here []
        | some sibling =>
          rw [left, right] at here
          exact congrArg some (ih child (List.mem_of_getElem? left) here)
    rw [root, lists]

namespace ModuleTree

variable {catalog : Catalog} {pool own more : UnitList} {tree full again planned subtree : ModuleTree}
  {node : ModuleNode} {boot unit : SourceUnit} {place : TreePlace}

/-! ## What modules are declared with -/

/-- The entries of the module at a place. -/
def entriesAt? (tree : ModuleTree) (place : TreePlace) : Option UnitList :=
  (tree.at? place).map (·.value.entries)

theorem entriesAt?_filled :
    entriesAt? (tree.map (filled catalog)) place = tree.entriesAt? place := by
  rw [entriesAt?, entriesAt?, Tree.at?_map, Option.map_map]
  refine congrArg (Option.map · _) (funext fun subtree => ?_)
  rw [Function.comp_apply, Tree.value_map]
  rfl

theorem entriesAt?_normalize (distinct : tree.Distinct) :
    tree.normalize.entriesAt? place = tree.entriesAt? place := by
  have entries := congrArg (Option.map ModuleNode.entries) (at?_normalize distinct place)
  rwa [Option.map_map, Option.map_map] at entries

private theorem mem_nodes_entries (member : node ∈ tree.nodes) :
    ∃ place, tree.entriesAt? place = some node.entries := by
  obtain ⟨place, subtree, found, rfl⟩ := Tree.mem_preorder_iff.mp member
  exact ⟨place, by rw [entriesAt?, found]; rfl⟩

private theorem met_of_entriesAt? (met : ∀ node ∈ tree.nodes, Met catalog node) {entries : UnitList}
    (declared : tree.entriesAt? place = some entries) :
    ∃ units, catalog.dependencies entries = .ok units := by
  obtain ⟨subtree, found, rfl⟩ := Option.map_eq_some_iff.mp declared
  exact met subtree.value (value_mem_nodes found)

/-! ## What modules need -/

/-- What the entries of a module need, and nothing if that cannot be listed. -/
def needed (catalog : Catalog) (entries : UnitList) : UnitList :=
  (catalog.dependencies entries).toOption.getD []

/-- Whether the entries of the module at a place need a unit. -/
def NeededAt (catalog : Catalog) (tree : ModuleTree) (unit : SourceUnit) (place : TreePlace) : Prop :=
  ∃ entries, tree.entriesAt? place = some entries ∧ (needed catalog entries).has unit = true

private theorem heldAt_filled : HeldAt (tree.map (filled catalog)) unit place ↔
    tree.HeldAt unit place ∨ NeededAt catalog tree unit place := by
  simp only [HeldAt, NeededAt, entriesAt?, Tree.at?_map, Option.map_eq_some_iff]
  constructor
  · rintro ⟨_, ⟨subtree, found, rfl⟩, held⟩
    rw [Tree.value_map, filled, has_addAll, Bool.or_eq_true] at held
    rcases held with held | listed
    · exact .inl ⟨subtree, found, held⟩
    · exact .inr ⟨_, ⟨subtree, found, rfl⟩, listed⟩
  · rintro (⟨subtree, found, held⟩ | ⟨_, ⟨subtree, found, rfl⟩, listed⟩)
    · refine ⟨_, ⟨subtree, found, rfl⟩, ?_⟩
      rw [Tree.value_map, filled, has_addAll, held, Bool.true_or]
    · refine ⟨_, ⟨subtree, found, rfl⟩, ?_⟩
      rw [Tree.value_map, filled, has_addAll, Bool.or_eq_true]
      exact .inr listed

theorem Distinct.filled (distinct : tree.Distinct) : Distinct (tree.map (filled catalog)) := by
  intro node member
  rw [nodes, Tree.preorder_map] at member
  obtain ⟨before, inside, rfl⟩ := List.mem_map.mp member
  exact (distinct before inside).addAll _

/-! ## The second plan -/

/-- A unit that is held where it belongs, and elsewhere only where it was, belongs where it did. -/
theorem home_iff_of_between (settles : ∀ place, full.Home unit place → again.HeldAt unit place)
    (keeps : ∀ place, again.HeldAt unit place → full.Home unit place ∨ full.HeldAt unit place) :
    again.Home unit place ↔ full.Home unit place := by
  have stays {place : TreePlace} (home : full.Home unit place) : again.Home unit place := by
    refine ⟨⟨place, settles place home⟩, fun holder held => ?_, fun upper above => ?_⟩
    · rcases keeps holder held with alsoHome | held
      · exact (home.unique alsoHome) ▸ List.prefix_rfl
      · exact home.nearest.above holder held
    · exact above place (settles place home)
  refine ⟨fun home => ?_, stays⟩
  obtain ⟨holder, held⟩ := home.held
  have held : ∃ holder, full.HeldAt unit holder := by
    rcases keeps holder held with alsoHome | held
    · exact alsoHome.held
    · exact ⟨holder, held⟩
  obtain ⟨other, otherHome⟩ := Home.of_held held
  exact (stays otherHome).unique home ▸ otherHome

/-- A module that lists just the units that belong to it, and others behind them, keeps the former. -/
theorem settled_eq (lists : subtree.value.deps = own.addAll more)
    (home : ∀ unit, tree.Home unit place ↔ own.has unit = true) :
    tree.settled place subtree = own := by
  have kept : (own.addAll more).filter (fun unit => tree.Home unit place) = own := by
    rw [addAll_eq_append, List.filter_append, List.filter_filter]
    have first : own.filter (fun unit => tree.Home unit place) = own :=
      List.filter_eq_self.mpr fun unit member => decide_eq_true ((home unit).mpr (has_of_mem member))
    have rest : (addAll [] more).filter
        (fun unit => tree.Home unit place && !own.has unit) = [] :=
      List.filter_eq_nil_iff.mpr fun unit _ => by simp [home]
    rw [first, rest, List.append_nil]
  have none : (listings subtree.children).filter
      (fun unit => tree.Home unit place && !(own.addAll more).has unit) = [] :=
    List.filter_eq_nil_iff.mpr fun unit _ => by simp +contextual [home, has_addAll]
  rw [settled, lists, kept, none, addAll_nil, List.append_nil]

/-- Filling the modules of a plan again and hoisting again changes nothing. -/
theorem normalize_refilled (distinct : tree.Distinct) :
    normalize ((normalize (tree.map (filled catalog))).map (filled catalog)) =
      normalize (tree.map (filled catalog)) := by
  have fullDistinct : Distinct (tree.map (filled catalog)) := distinct.filled
  have held (unit : SourceUnit) (place : TreePlace) :
      HeldAt ((normalize (tree.map (filled catalog))).map (filled catalog)) unit place ↔
        Home (tree.map (filled catalog)) unit place ∨ NeededAt catalog tree unit place := by
    rw [heldAt_filled, heldAt_normalize fullDistinct, NeededAt, entriesAt?_normalize fullDistinct,
      entriesAt?_filled]
    rfl
  have homes (unit : SourceUnit) (place : TreePlace) :
      Home ((normalize (tree.map (filled catalog))).map (filled catalog)) unit place ↔
        Home (tree.map (filled catalog)) unit place := by
    refine home_iff_of_between (fun place home => (held unit place).mpr (.inl home)) ?_
    intro place alsoHeld
    exact ((held unit place).mp alsoHeld).imp_right fun needs => heldAt_filled.mpr (.inr needs)
  apply Tree.eq_of_at?
  intro place
  rw [at?_normalize fullDistinct.normalize.filled, Tree.at?_map, Option.map_map]
  cases found : (normalize (tree.map (filled catalog))).at? place with
  | none => rfl
  | some planned =>
    have own (unit : SourceUnit) :
        Home ((normalize (tree.map (filled catalog))).map (filled catalog)) unit place ↔
          planned.value.deps.has unit = true := by
      rw [homes, ← heldAt_normalize fullDistinct, HeldAt, found]
      simp
    have lists : (planned.map (filled catalog)).value.deps =
        planned.value.deps.addAll (needed catalog planned.value.entries) := by
      rw [Tree.value_map]
      rfl
    simp [settled_eq lists own, filled]

/-! ## Collecting again -/

private theorem collectAll_of_met {trees : List ModuleTree}
    (each : ∀ tree ∈ trees, (collect catalog tree).error = none) :
    (collectAll catalog trees).2 = none := by
  induction trees with
  | nil => rw [collectAll]
  | cons tree trees ih =>
    obtain ⟨first, rest⟩ := List.forall_mem_cons.mp each
    rw [collectAll]
    simp only [first]
    exact ih rest

private theorem collect_of_met (met : ∀ node ∈ tree.nodes, Met catalog node) :
    (collect catalog tree).error = none := by
  induction tree using Tree.induct with
  | node node children ih =>
    rw [nodes, Tree.preorder_node] at met
    obtain ⟨⟨units, listed⟩, below⟩ := List.forall_mem_cons.mp met
    rw [collect, listed]
    exact collectAll_of_met fun child member =>
      ih child member fun inner inside => below inner (List.mem_flatMap.mpr ⟨child, member, inside⟩)

private theorem lead_of_has (held : tree.value.deps.has boot = true) : lead boot tree = tree := by
  obtain ⟨node, children⟩ := tree
  have listed : node.deps.lead boot = node.deps := if_pos held
  rw [lead, listed]

private theorem has_lead : (lead boot tree).value.deps.has boot = true := by
  obtain ⟨node, children⟩ := tree
  have listed : (node.deps.lead boot).has boot = true := by
    rw [UnitList.lead]
    cases held : node.deps.has boot <;> simp [held, SourceUnit.sameFile]
  exact listed

private theorem has_normalize_root (distinct : tree.Distinct)
    (held : tree.value.deps.has unit = true) :
    tree.normalize.value.deps.has unit = true :=
  heldAt_nil.mp ((heldAt_normalize distinct).mpr (Home.nil_iff.mpr (.inl held)))

private theorem distinct_lead (bare : ∀ node ∈ tree.nodes, node.deps = []) :
    Distinct (lead boot tree) := by
  intro node member
  rw [nodes, Tree.preorder_eq] at bare
  obtain ⟨root, below⟩ := List.forall_mem_cons.mp bare
  rw [nodes_lead] at member
  rcases List.mem_cons.mp member with rfl | inside
  · simp [root, UnitList.lead, UnitList.Distinct, paths]
  · exact below node inside ▸ distinct_nil

/-- Planning a plan that succeeded succeeds again and leaves every module as it is.  This needs
nothing of the pool or of the entries. -/
theorem build_build (bare : ∀ node ∈ tree.nodes, node.deps = [])
    (built : build pool tree = ⟨planned, none⟩) : build pool planned = ⟨planned, none⟩ := by
  obtain ⟨boot, catalog, selected, made, rfl, met⟩ := build_ok built
  have distinct : Distinct (lead boot tree) := distinct_lead bare
  have full : Distinct ((lead boot tree).map (filled catalog)) := distinct.filled
  -- The root holds the bootstrap unit, so nothing is put in front of it.
  have led : lead boot (normalize ((lead boot tree).map (filled catalog))) =
      normalize ((lead boot tree).map (filled catalog)) := by
    refine lead_of_has (has_normalize_root full ?_)
    rw [Tree.value_map, filled, has_addAll, has_lead, Bool.true_or]
  have metAgain : ∀ node ∈ nodes (normalize ((lead boot tree).map (filled catalog))),
      Met catalog node := by
    intro node member
    obtain ⟨place, declared⟩ := mem_nodes_entries member
    rw [entriesAt?_normalize full, entriesAt?_filled] at declared
    exact met_of_entriesAt? met declared
  have done : (calculate pool (normalize ((lead boot tree).map (filled catalog)))).error = none := by
    rw [calculate, made]
    exact collect_of_met metAgain
  have collected : (calculate pool (normalize ((lead boot tree).map (filled catalog)))).tree =
      (normalize ((lead boot tree).map (filled catalog))).map (filled catalog) := by
    rw [calculate, made]
    exact (collect_ok (collect_of_met metAgain)).1
  simp only [build, selected, led, done, collected, normalize_refilled distinct]

theorem build_build_forkTree :
    (∀ node ∈ forkTree.nodes, node.deps = []) ∧
      build forkPool forkTree = ⟨(build forkPool forkTree).tree, none⟩ ∧
      build forkPool (build forkPool forkTree).tree = ⟨(build forkPool forkTree).tree, none⟩ := by
  have bare : ∀ node ∈ forkTree.nodes, node.deps = [] := by
    simp [forkTree, nodes, Tree.preorder, Tree.preorderAll]
  have succeeds : (build forkPool forkTree).error = none := by cbv
  have built : build forkPool forkTree = ⟨(build forkPool forkTree).tree, none⟩ :=
    congrArg (Attempt.mk _) succeeds
  exact ⟨bare, built, build_build bare built⟩

end ModuleTree

end ChunkPlan
