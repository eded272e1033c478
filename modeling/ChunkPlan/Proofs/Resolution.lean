import ChunkPlan.Dependency.Resolution
import ChunkPlan.Proofs.Catalog

/-!
# When resolution succeeds, and what it lists

The search looks for cycles among namespaces on its trail and for repetition among units, and a unit
can provide several namespaces.  So a unit that is not listed yet can be entered a second time under
another namespace; that this always ends on the trail is a fact about load orders, not about trails.
-/

set_option autoImplicit false

namespace ChunkPlan.Catalog

open UnitList

variable {catalog : Catalog} {pool found after listed inputs : UnitList}
  {unit input other : SourceUnit} {name : String} {names trail : List String}
  {requiredBy : Option SourceUnit}

/-- The units added by a search: in load order with those found before, and needed by a unit that
meets the given condition. -/
structure Extends (pool found after : UnitList) (start : SourceUnit → Prop) : Prop where
  order : LoadOrder pool after
  grown : ∃ added, after = found ++ added ∧
    ∀ other ∈ added, ∃ unit, start unit ∧ Reaches pool unit other

/-- A unit whose needs can be met: all that it leads to has providers and lies on no cycle. -/
def Resolvable (pool : UnitList) (unit : SourceUnit) : Prop :=
  ∀ other, Reaches pool unit other →
    (∀ name ∈ other.requires, ∃ provider, Provider pool name provider) ∧
      ¬Relation.TransGen (Requires pool) other other

/-- A namespace that a search with a trail can enter: its provider can have all that it needs, and
whatever the trail has passed needs it. -/
def Attainable (pool : UnitList) (trail : List String) (name : String) : Prop :=
  ∃ unit, Provider pool name unit ∧ Resolvable pool unit ∧
    ∀ earlier ∈ trail, ∃ upper, Provider pool earlier upper ∧
      Relation.TransGen (Requires pool) upper unit

theorem Resolvable.of_requires (resolvable : Resolvable pool unit)
    (requires : Requires pool unit other) : Resolvable pool other :=
  fun lower reaches => resolvable lower (.head requires reaches)

/-- What needs a unit needs what the unit requires. -/
theorem passed_required (provides : Provider pool name unit) (requires : Requires pool unit other)
    (passed : ∀ earlier ∈ trail, ∃ upper, Provider pool earlier upper ∧
      Relation.TransGen (Requires pool) upper unit) :
    ∀ earlier ∈ trail ++ [name], ∃ upper, Provider pool earlier upper ∧
      Relation.TransGen (Requires pool) upper other := by
  intro earlier member
  rcases List.mem_append.mp member with before | here
  · obtain ⟨upper, above, leads⟩ := passed earlier before
    exact ⟨upper, above, leads.tail requires⟩
  · obtain rfl := List.mem_singleton.mp here
    exact ⟨unit, provides, .single requires⟩

namespace Attainable

private theorem not_mem_trail (consistent : pool.Consistent) (within : Attainable pool trail name) :
    name ∉ trail := by
  obtain ⟨unit, provides, resolvable, led⟩ := within
  intro passed
  obtain ⟨upper, above, leads⟩ := led name passed
  obtain rfl := consistent.single name upper unit above provides
  exact (resolvable upper .refl).2 leads

/-- From a namespace the search goes on to others that it can enter. -/
theorem required (consistent : pool.Consistent) (within : Attainable pool trail name)
    (provides : Provider pool name unit) :
    ∀ required ∈ unit.requires, Attainable pool (trail ++ [name]) required := by
  obtain ⟨other, alsoProvides, resolvable, led⟩ := within
  obtain rfl := consistent.single name unit other provides alsoProvides
  intro required member
  obtain ⟨provider, available⟩ := (resolvable unit .refl).1 required member
  have requires : Requires pool unit provider := ⟨required, member, available⟩
  exact ⟨provider, available, resolvable.of_requires requires,
    passed_required provides requires led⟩

end Attainable

namespace Extends

variable {middle : UnitList} {start wider : SourceUnit → Prop}

theorem refl (order : LoadOrder pool found) : Extends pool found found start :=
  ⟨order, [], by simp, by simp⟩

theorem trans (first : Extends pool found middle start) (second : Extends pool middle after start) :
    Extends pool found after start := by
  obtain ⟨_, firstAdded, rfl, firstNeeded⟩ := first
  obtain ⟨order, secondAdded, rfl, secondNeeded⟩ := second
  refine ⟨order, firstAdded ++ secondAdded, by simp, fun other member => ?_⟩
  rcases List.mem_append.mp member with member | member
  · exact firstNeeded other member
  · exact secondNeeded other member

theorem mono (extended : Extends pool found after start)
    (within : ∀ unit, start unit → ∃ other, wider other ∧ Reaches pool other unit) :
    Extends pool found after wider := by
  obtain ⟨order, added, rfl, needed⟩ := extended
  refine ⟨order, added, rfl, fun other member => ?_⟩
  obtain ⟨unit, starts, reaches⟩ := needed other member
  obtain ⟨upper, starts, above⟩ := within unit starts
  exact ⟨upper, starts, above.trans reaches⟩

private theorem mem_of_mem (extended : Extends pool found after start) (member : unit ∈ found) :
    unit ∈ after := by
  obtain ⟨_, added, rfl, _⟩ := extended
  exact List.mem_append_left _ member

/-- A unit is not listed on the way to what it requires: it would need itself. -/
theorem unlisted (consistent : pool.Consistent)
    (extended : Extends pool found after (Requires pool unit)) (inside : unit ∈ pool)
    (absent : found.has unit = false) : after.has unit = false := by
  by_contra listed
  have member := consistent.distinct.mem_of_has extended.order.within inside
    (eq_true_of_ne_false listed)
  obtain ⟨order, added, rfl, needed⟩ := extended
  rcases List.mem_append.mp member with old | new
  · exact Bool.false_ne_true (absent.symm.trans (has_of_mem old))
  · obtain ⟨required, requires, reaches⟩ := needed unit new
    exact order.acyclic consistent member (.head' requires reaches)

private theorem list (extended : Extends pool found after (Requires pool unit))
    (inside : unit ∈ pool)
    (unlisted : after.has unit = false)
    (met : ∀ name ∈ unit.requires, ∃ provider ∈ after, Provider pool name provider) :
    Extends pool found (after ++ [unit]) (· = unit) := by
  obtain ⟨order, added, rfl, needed⟩ := extended
  refine ⟨order.concat inside unlisted met, added ++ [unit], by simp,
    fun other member => ⟨unit, rfl, ?_⟩⟩
  rcases List.mem_append.mp member with member | member
  · obtain ⟨required, requires, reaches⟩ := needed other member
    exact .head requires reaches
  · rw [List.mem_singleton.mp member]

end Extends

/-! ## The steps of a search -/

theorem visit_unknown (unknown : catalog.provider? name = none) :
    catalog.visit requiredBy trail found name =
      .error ⟨.unknownNamespace name (catalog.requirer trail requiredBy), found, trail.dropLast⟩ := by
  rw [visit]
  split
  · rfl
  · next known => simp [unknown] at known

theorem visit_provided (provided : catalog.provider? name = some unit) :
    catalog.visit requiredBy trail found name =
      if trail.contains name then
        .error ⟨.circularDependency (trail ++ [name]), found, trail ++ [name]⟩
      else if found.has unit then .ok found
      else
        match catalog.visitAll (trail ++ [name]) found unit.requires with
        | .error stop => .error stop
        | .ok found => .ok (found ++ [unit]) := by
  rw [visit]
  split
  · next unknown => simp [provided] at unknown
  · next other known =>
    obtain rfl : unit = other := Option.some.inj (provided.symm.trans known)
    rfl

theorem visitAll_nil : catalog.visitAll trail found [] = .ok found := by rw [visitAll]

theorem visitAll_cons :
    catalog.visitAll trail found (name :: names) =
      match catalog.visit none trail found name with
      | .error stop => .error stop
      | .ok found => catalog.visitAll trail found names := by
  cases visited : catalog.visit none trail found name <;> simp [visitAll, visited]

/-! ## Successful searches -/

/-- A search that succeeds lists the provider, as the last unit if it was not listed before, and
with it just what it needs. -/
theorem visit_ok (describes : catalog.Describes pool) (order : LoadOrder pool found)
    (ok : catalog.visit requiredBy trail found name = .ok after) :
    ∃ unit, Provider pool name unit ∧ unit ∈ after ∧ Extends pool found after (· = unit) ∧
      (found.has unit = false → after.getLast? = some unit) := by
  revert order after
  refine visit.induct catalog
    (fun requiredBy trail found name => ∀ {after}, LoadOrder pool found →
      catalog.visit requiredBy trail found name = .ok after →
      ∃ unit, Provider pool name unit ∧ unit ∈ after ∧ Extends pool found after (· = unit) ∧
        (found.has unit = false → after.getLast? = some unit))
    (fun trail found names => ∀ {after}, LoadOrder pool found →
      catalog.visitAll trail found names = .ok after →
      Extends pool found after (fun unit => ∃ name ∈ names, Provider pool name unit) ∧
        ∀ name ∈ names, ∃ unit ∈ after, Provider pool name unit)
    ?unknown ?cycle ?listed ?stopped ?appended ?nil ?failed ?cons requiredBy trail found name
  case unknown =>
    intro requiredBy trail found name unknown after order ok
    rw [visit_unknown unknown] at ok
    cases ok
  case cycle =>
    intro requiredBy trail found name unit provided cycle after order ok
    rw [visit_provided provided, if_pos cycle] at ok
    cases ok
  case listed =>
    intro requiredBy trail found name unit provided fresh listed after order ok
    rw [visit_provided provided, if_neg fresh, if_pos listed] at ok
    cases ok
    have provides := (describes.provider name unit).mp provided
    exact ⟨unit, provides, describes.distinct.mem_of_has order.within provides.1 listed,
      .refl order, fun absent => by simp [absent] at listed⟩
  case stopped =>
    intro requiredBy trail found name unit provided fresh absent stop stopped _ after order ok
    rw [visit_provided provided, if_neg fresh, if_neg absent, stopped] at ok
    cases ok
  case appended =>
    intro requiredBy trail found name unit provided fresh absent middle visited ih after order ok
    rw [visit_provided provided, if_neg fresh, if_neg absent, visited] at ok
    cases ok
    have provides := (describes.provider name unit).mp provided
    obtain ⟨extended, met⟩ := ih order visited
    have unlisted : middle.has unit = false :=
      extended.unlisted describes.toConsistent provides.1 (by simpa using absent)
    exact ⟨unit, provides, by simp, extended.list provides.1 unlisted met, fun _ => by simp⟩
  case nil =>
    intro trail found after order ok
    rw [visitAll_nil] at ok
    cases ok
    exact ⟨.refl order, by simp⟩
  case failed =>
    intro trail found name names stop stopped _ after order ok
    rw [visitAll_cons, stopped] at ok
    cases ok
  case cons =>
    intro trail found name names middle visited first rest after order ok
    rw [visitAll_cons, visited] at ok
    obtain ⟨unit, provides, member, extended, _⟩ := first order visited
    obtain ⟨restExtended, met⟩ := rest extended.order ok
    refine ⟨.trans (extended.mono ?_) (restExtended.mono ?_), ?_⟩
    · intro _ same
      exact ⟨unit, ⟨name, by simp, provides⟩, same ▸ .refl⟩
    · intro other available
      obtain ⟨required, listed, requires⟩ := available
      exact ⟨other, ⟨required, List.mem_cons_of_mem _ listed, requires⟩, .refl⟩
    · intro required listed
      rcases List.mem_cons.mp listed with rfl | listed
      · exact ⟨unit, restExtended.mem_of_mem member, provides⟩
      · exact met required listed

/-- A search for what can be met does succeed. -/
theorem visit_succeeds (describes : catalog.Describes pool) (order : LoadOrder pool found)
    (within : Attainable pool trail name) :
    ∃ after, catalog.visit requiredBy trail found name = .ok after := by
  revert order within
  refine visit.induct catalog
    (fun requiredBy trail found name => LoadOrder pool found → Attainable pool trail name →
      ∃ after, catalog.visit requiredBy trail found name = .ok after)
    (fun trail found names => LoadOrder pool found → (∀ name ∈ names, Attainable pool trail name) →
      ∃ after, catalog.visitAll trail found names = .ok after)
    ?unknown ?cycle ?listed ?stopped ?appended ?nil ?failed ?cons requiredBy trail found name
  case unknown =>
    intro requiredBy trail found name unknown order within
    obtain ⟨unit, provides, _⟩ := within
    rw [(describes.provider name unit).mpr provides] at unknown
    cases unknown
  case cycle =>
    intro requiredBy trail found name unit provided cycle order within
    exact absurd (by simpa using cycle) (within.not_mem_trail describes.toConsistent)
  case listed =>
    intro requiredBy trail found name unit provided fresh listed order within
    rw [visit_provided provided, if_neg fresh, if_pos listed]
    exact ⟨found, rfl⟩
  case stopped =>
    intro requiredBy trail found name unit provided fresh absent stop stopped ih order within
    have provides := (describes.provider name unit).mp provided
    obtain ⟨after, ok⟩ := ih order (within.required describes.toConsistent provides)
    rw [stopped] at ok
    cases ok
  case appended =>
    intro requiredBy trail found name unit provided fresh absent middle visited ih order within
    rw [visit_provided provided, if_neg fresh, if_neg absent, visited]
    exact ⟨_, rfl⟩
  case nil =>
    intro trail found order within
    exact ⟨found, visitAll_nil⟩
  case failed =>
    intro trail found name names stop stopped ih order within
    obtain ⟨after, ok⟩ := ih order (within name (by simp))
    rw [stopped] at ok
    cases ok
  case cons =>
    intro trail found name names middle visited first rest order within
    rw [visitAll_cons, visited]
    obtain ⟨_, _, _, extended, _⟩ := visit_ok describes order visited
    exact rest extended.order fun required member => within required (List.mem_cons_of_mem _ member)

/-! ## Resolution from nothing -/

theorem resolve_eq_ok : catalog.resolve name requiredBy = .ok after ↔
    catalog.visit requiredBy [] [] name = .ok after := by
  unfold resolve
  cases catalog.visit requiredBy [] [] name <;> simp

/-- What a successful resolution lists: what the provider reaches, with the provider last. -/
theorem resolve_ok (describes : catalog.Describes pool)
    (ok : catalog.resolve name requiredBy = .ok found) :
    ∃ unit, Provider pool name unit ∧ LoadOrder pool found ∧ found.getLast? = some unit ∧
      ∀ other, other ∈ found ↔ Reaches pool unit other := by
  obtain ⟨unit, provides, member, extended, last⟩ :=
    visit_ok describes .nil (resolve_eq_ok.mp ok)
  refine ⟨unit, provides, extended.order, last rfl, fun other => ⟨fun listed => ?_, fun reached => ?_⟩⟩
  · obtain ⟨added, rfl, needed⟩ := extended.grown
    obtain ⟨_, rfl, reached⟩ := needed other listed
    exact reached
  · exact extended.order.mem_of_reaches describes.toConsistent member reached

/-- A namespace resolves just when everything that its provider reaches has what it requires and
does not reach itself; the search then lists what the provider reaches, each unit once and after
the providers of what it requires, and the provider last. -/
theorem resolve_iff (distinct : pool.Distinct) (built : ofUnits pool = .ok catalog)
    (name : String) (requiredBy : Option SourceUnit) :
    ((∃ found, catalog.resolve name requiredBy = .ok found) ↔
      ∃ unit, Provider pool name unit ∧ Resolvable pool unit) ∧
    ∀ found, catalog.resolve name requiredBy = .ok found →
      ∃ unit, Provider pool name unit ∧
        (∀ other, other ∈ found ↔ Reaches pool unit other) ∧
        found.Distinct ∧
        (∀ before other after, found = before ++ other :: after → ∀ required ∈ other.requires,
          ∃ provider ∈ before, Provider pool required provider) ∧
        found.getLast? = some unit := by
  have describes := describes_of_ofUnits distinct built
  refine ⟨⟨fun succeeded => ?_, fun attainable => ?_⟩, fun found ok => ?_⟩
  · obtain ⟨found, ok⟩ := succeeded
    obtain ⟨unit, provides, order, _, listed⟩ := resolve_ok describes ok
    refine ⟨unit, provides, fun other reached => ⟨fun required member => ?_, ?_⟩⟩
    · obtain ⟨provider, _, available⟩ := order.met ((listed other).mpr reached) member
      exact ⟨provider, available⟩
    · exact order.acyclic describes.toConsistent ((listed other).mpr reached)
  · obtain ⟨unit, provides, resolvable⟩ := attainable
    have within : Attainable pool [] name := ⟨unit, provides, resolvable, by simp⟩
    obtain ⟨found, ok⟩ := visit_succeeds describes .nil within
    exact ⟨found, resolve_eq_ok.mpr ok⟩
  · obtain ⟨unit, provides, order, last, listed⟩ := resolve_ok describes ok
    refine ⟨unit, provides, listed, order.distinct, ?_, last⟩
    intro before other after split required member
    obtain ⟨provider, available, earlier⟩ :=
      order.arranged before other after split id required member
    exact ⟨provider, earlier.resolve_left id, available⟩

/-- A kit with two namespaces, an application over it, and a file whose second namespace its first
one needs. -/
def twinPool : UnitList :=
  [.create "/kit.js" ["kit.a", "kit.b"] [] false, .create "/app.js" ["app"] ["kit.b", "kit.a"] false,
    .create "/loop.js" ["loop.a", "loop.b"] ["loop.b"] false]

def twinCatalog : Catalog where
  providers := twinPool.flatMap fun unit => unit.provides.map fun name => (name, unit)

theorem resolve_iff_twinPool :
    twinPool.Distinct ∧ ofUnits twinPool = .ok twinCatalog ∧
      (∃ unit, Provider twinPool "app" unit ∧ Resolvable twinPool unit) ∧
      ¬∃ unit, Provider twinPool "loop.a" unit ∧ Resolvable twinPool unit := by
  have distinct : twinPool.Distinct := by decide
  have built : ofUnits twinPool = .ok twinCatalog := rfl
  have app : twinCatalog.resolve "app" = .ok (twinPool.take 2) := by cbv
  have loop : twinCatalog.resolve "loop.a" =
      .error (.circularDependency ["loop.a", "loop.b", "loop.b"]) := by cbv
  refine ⟨distinct, built, ?_, ?_⟩
  · exact (resolve_iff distinct built "app" none).1.mp ⟨_, app⟩
  · exact mt (resolve_iff distinct built "loop.a" none).1.mpr (by simp [loop])

/-! ## Dependencies of inputs -/

theorem resolveAll_ok (describes : catalog.Describes pool) (order : LoadOrder pool listed)
    (ok : catalog.resolveAll input listed names = .ok after) :
    LoadOrder pool after ∧ (∀ name ∈ names, ∃ provider ∈ after, Provider pool name provider) ∧
      ∀ other, other ∈ after ↔ other ∈ listed ∨
        ∃ name ∈ names, ∃ provider, Provider pool name provider ∧ Reaches pool provider other := by
  induction names generalizing listed with
  | nil =>
    cases ok
    exact ⟨order, by simp, by simp⟩
  | cons name names ih =>
    unfold resolveAll at ok
    cases resolved : catalog.resolve name (some input) with
    | error error => simp [resolved] at ok
    | ok found =>
      simp only [resolved] at ok
      obtain ⟨unit, provides, foundOrder, _, reached⟩ := resolve_ok describes resolved
      have merged := order.addAll describes.toConsistent foundOrder
      obtain ⟨afterOrder, met, listing⟩ := ih merged ok
      have mem_merged (other : SourceUnit) :
          other ∈ listed.addAll found ↔ other ∈ listed ∨ other ∈ found :=
        describes.distinct.mem_addAll order.within foundOrder.within
      refine ⟨afterOrder, fun required member => ?_, fun other => ?_⟩
      · rcases List.mem_cons.mp member with rfl | member
        · exact ⟨unit, (listing unit).mpr (.inl ((mem_merged unit).mpr (.inr ((reached unit).mpr .refl)))),
            provides⟩
        · exact met required member
      · rw [listing other, mem_merged other, reached other, or_assoc]
        simp only [List.exists_mem_cons_iff]
        refine or_congr_right (or_congr_left ⟨fun reaches => ⟨unit, provides, reaches⟩, ?_⟩)
        intro ⟨provider, alsoProvides, reaches⟩
        exact describes.single name provider unit alsoProvides provides ▸ reaches

end ChunkPlan.Catalog
