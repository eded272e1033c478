import ChunkPlan.Proofs.SearchRuns

/-!
# Searches that share a list

A search can go on with the units that earlier searches have listed, or start afresh and be merged
afterwards.  The first leaves out everything below a listed unit, the second looks at all of it again
and drops it.  Both come to the same list, or stop with the same error: below a unit of a load order
nothing is missing and nothing leads back to the trail.
-/

set_option autoImplicit false

namespace ChunkPlan.Catalog

open UnitList

variable {catalog : Catalog} {pool listed found : UnitList} {unit input : SourceUnit}
  {name : String} {names trail : List String} {requiredBy : Option SourceUnit}

/-- Whatever a trail has passed needs the provider of a namespace. -/
def Led (pool : UnitList) (trail : List String) (name : String) : Prop :=
  ∀ unit, Provider pool name unit → ∀ earlier ∈ trail, ∃ upper, Provider pool earlier upper ∧
    Relation.TransGen (Requires pool) upper unit

theorem Led.nil (name : String) : Led pool [] name := by
  intro unit _ earlier passed
  cases passed

theorem Led.required (led : Led pool trail name) (provides : Provider pool name unit) :
    ∀ required ∈ unit.requires, Led pool (trail ++ [name]) required := by
  intro required member provider available
  have requires : Requires pool unit provider := ⟨required, member, available⟩
  exact passed_required provides requires (led unit provides)

/-- A unit of a load order can have all that it needs. -/
theorem resolvable_of_mem (consistent : pool.Consistent) (order : LoadOrder pool listed)
    (member : unit ∈ listed) : Resolvable pool unit := by
  intro other reaches
  have inside := order.mem_of_reaches consistent member reaches
  refine ⟨fun required needed => ?_, order.acyclic consistent inside⟩
  obtain ⟨provider, _, available⟩ := order.met inside needed
  exact ⟨provider, available⟩

/-- What a search comes to once units that were listed before are put in front. -/
def mergeInto (listed : UnitList) : Except Stop UnitList → Except Stop UnitList
  | .ok found => .ok (listed.addAll found)
  | .error stop => .error { stop with found := listed.addAll stop.found }

/-- A fresh search below a listed unit succeeds, and what it finds is listed already. -/
theorem visit_below_listed (describes : catalog.Describes pool) (shared : LoadOrder pool listed)
    (order : LoadOrder pool found) (led : Led pool trail name)
    (provided : catalog.provider? name = some unit) (known : listed.has unit = true) :
    ∃ after, catalog.visit requiredBy trail found name = .ok after ∧
      listed.addAll after = listed.addAll found := by
  have provides := (describes.provider name unit).mp provided
  have member := describes.distinct.mem_of_has shared.within provides.1 known
  have within : Attainable pool trail name :=
    ⟨unit, provides, resolvable_of_mem describes.toConsistent shared member, led unit provides⟩
  obtain ⟨after, ok⟩ := visit_succeeds describes order within
  refine ⟨after, ok, ?_⟩
  obtain ⟨provider, alsoProvides, _, extended, _⟩ := visit_ok describes order ok
  obtain rfl := describes.single name provider unit alsoProvides provides
  obtain ⟨added, rfl, needed⟩ := extended.grown
  rw [addAll_append]
  refine addAll_of_forall_has fun other new => ?_
  obtain ⟨_, rfl, reaches⟩ := needed other new
  rw [has_addAll, has_of_mem (shared.mem_of_reaches describes.toConsistent member reaches)]
  rfl

/-- A search after units in load order comes to what a fresh one comes to, merged. -/
theorem visit_addAll (describes : catalog.Describes pool) (shared : LoadOrder pool listed)
    (order : LoadOrder pool found) (led : Led pool trail name) :
    catalog.visit requiredBy trail (listed.addAll found) name =
      mergeInto listed (catalog.visit requiredBy trail found name) := by
  revert order led
  refine visit.induct catalog
    (fun requiredBy trail found name => LoadOrder pool found → Led pool trail name →
      catalog.visit requiredBy trail (listed.addAll found) name =
        mergeInto listed (catalog.visit requiredBy trail found name))
    (fun trail found names => LoadOrder pool found → (∀ name ∈ names, Led pool trail name) →
      catalog.visitAll trail (listed.addAll found) names =
        mergeInto listed (catalog.visitAll trail found names))
    ?unknown ?cycle ?listed ?stopped ?appended ?nil ?failed ?cons requiredBy trail found name
  case unknown =>
    intro requiredBy trail found name unknown order led
    rw [visit_unknown unknown, visit_unknown unknown]
    rfl
  case cycle =>
    intro requiredBy trail found name unit provided cycle order led
    rw [visit_provided provided, visit_provided provided, if_pos cycle, if_pos cycle]
    rfl
  case listed =>
    intro requiredBy trail found name unit provided fresh known order led
    rw [visit_provided provided, visit_provided provided, if_neg fresh, if_neg fresh, if_pos known,
      if_pos (by simp [has_addAll, known])]
    rfl
  case stopped =>
    intro requiredBy trail found name unit provided fresh absent stop stopped ih order led
    have provides := (describes.provider name unit).mp provided
    have failed : catalog.visit requiredBy trail found name = .error stop := by
      rw [visit_provided provided, if_neg fresh, if_neg absent, stopped]
    cases known : listed.has unit with
    | true =>
      obtain ⟨after, ok, _⟩ := visit_below_listed describes shared order led provided known
      cases failed.symm.trans ok
    | false =>
      rw [failed, visit_provided provided, if_neg fresh, if_neg (by simp [has_addAll, known, absent]),
        ih order (led.required provides), stopped]
      rfl
  case appended =>
    intro requiredBy trail found name unit provided fresh absent middle visited ih order led
    have provides := (describes.provider name unit).mp provided
    have succeeded : catalog.visit requiredBy trail found name = .ok (middle ++ [unit]) := by
      rw [visit_provided provided, if_neg fresh, if_neg absent, visited]
    rw [succeeded]
    cases known : listed.has unit with
    | true =>
      obtain ⟨after, ok, same⟩ := visit_below_listed describes shared order led provided known
      cases succeeded.symm.trans ok
      rw [visit_provided provided, if_neg fresh, if_pos (by simp [has_addAll, known]), mergeInto, same]
    | false =>
      obtain ⟨_, _, _, extended, _⟩ := visit_ok describes order succeeded
      obtain ⟨_, unlisted, _⟩ := extended.order.of_concat
      rw [visit_provided provided, if_neg fresh, if_neg (by simp [has_addAll, known, absent]),
        ih order (led.required provides), visited, mergeInto, mergeInto, addAll_concat,
        add_of_not_has (by simp [has_addAll, known, unlisted])]
  case nil =>
    intro trail found order led
    rw [visitAll_nil, visitAll_nil]
    rfl
  case failed =>
    intro trail found name names stop stopped ih order led
    rw [visitAll_cons, visitAll_cons, ih order (led name (by simp)), stopped]
    rfl
  case cons =>
    intro trail found name names middle visited first rest order led
    obtain ⟨_, _, _, extended, _⟩ := visit_ok describes order visited
    rw [visitAll_cons, visitAll_cons, first order (led name (by simp)), visited]
    exact rest extended.order fun required member => led required (List.mem_cons_of_mem _ member)

theorem resolveInto_of_loadOrder (describes : catalog.Describes pool)
    (shared : LoadOrder pool listed) :
    catalog.resolveInto requiredBy ⟨listed, []⟩ name =
      match catalog.visit requiredBy [] [] name with
      | .ok found => (none, ⟨listed.addAll found, []⟩)
      | .error stop => (some stop.error, ⟨listed.addAll stop.found, stop.trail⟩) := by
  have merged : catalog.visit requiredBy [] listed name =
      mergeInto listed (catalog.visit requiredBy [] [] name) :=
    visit_addAll describes shared .nil (.nil name)
  rw [resolveInto, merged]
  cases catalog.visit requiredBy [] [] name <;> rfl

theorem resolveInto_of_resolve_ok (describes : catalog.Describes pool)
    (shared : LoadOrder pool listed) (ok : catalog.resolve name requiredBy = .ok found) :
    catalog.resolveInto requiredBy ⟨listed, []⟩ name = (none, ⟨listed.addAll found, []⟩) := by
  rw [resolveInto_of_loadOrder describes shared, resolve_eq_ok.mp ok]

theorem resolveInto_of_resolve_error {error : BuildError} (describes : catalog.Describes pool)
    (shared : LoadOrder pool listed) (failed : catalog.resolve name requiredBy = .error error) :
    (catalog.resolveInto requiredBy ⟨listed, []⟩ name).1 = some error := by
  rw [resolveInto_of_loadOrder describes shared]
  rw [resolve] at failed
  cases visited : catalog.visit requiredBy [] [] name with
  | ok found =>
    rw [visited] at failed
    cases failed
  | error stop =>
    rw [visited] at failed
    exact congrArg some (Except.error.inj failed)

/-! ## Inputs that share a list -/

/-- Resolves the requires of an input one after the other into one list. -/
def shareAll (catalog : Catalog) (input : SourceUnit) (listed : UnitList) :
    List String → Except BuildError UnitList
  | [] => .ok listed
  | name :: names =>
    match catalog.resolveInto (some input) ⟨listed, []⟩ name with
    | (some error, _) => .error error
    | (none, left) => shareAll catalog input left.found names

/-- Lists inputs after what they require, all of them in one list. -/
def shareInputs (catalog : Catalog) (listed : UnitList) : UnitList → Except BuildError UnitList
  | [] => .ok listed
  | input :: inputs =>
    match catalog.shareAll input listed input.requires with
    | .error error => .error error
    | .ok listed => shareInputs catalog (listed.add input) inputs

private theorem shareAll_eq (describes : catalog.Describes pool) (shared : LoadOrder pool listed) :
    catalog.shareAll input listed names = catalog.resolveAll input listed names := by
  induction names generalizing listed with
  | nil => rfl
  | cons name names ih =>
    rw [shareAll, resolveAll]
    cases resolved : catalog.resolve name (some input) with
    | error error =>
      have ended := resolveInto_of_resolve_error describes shared resolved
      generalize catalog.resolveInto (some input) ⟨listed, []⟩ name = outcome at ended
      obtain ⟨_, left⟩ := outcome
      cases ended
      rfl
    | ok found =>
      obtain ⟨_, _, order, _, _⟩ := resolve_ok describes resolved
      rw [resolveInto_of_resolve_ok describes shared resolved]
      exact ih (shared.addAll describes.toConsistent order)

private theorem shareInputs_eq {inputs : UnitList} (describes : catalog.Describes pool)
    (shared : LoadOrder pool listed) (within : ∀ input ∈ inputs, input ∈ pool) :
    catalog.shareInputs listed inputs = catalog.listInputs listed inputs := by
  induction inputs generalizing listed with
  | nil => rfl
  | cons input inputs ih =>
    obtain ⟨inside, within⟩ := List.forall_mem_cons.mp within
    rw [shareInputs, listInputs, shareAll_eq describes shared]
    cases resolved : catalog.resolveAll input listed input.requires with
    | error error => rfl
    | ok middle =>
      obtain ⟨order, met, _⟩ := resolveAll_ok describes shared resolved
      exact ih (order.add inside met) within

/-- Resolving a namespace after units in load order ends as resolving it afresh does: with the same
error, or with the units that are not listed yet at the end of the list and nothing on the trail.
So inputs that share one list come to what fresh searches come to when they are merged. -/
theorem shared_listing (distinct : pool.Distinct) (built : ofUnits pool = .ok catalog) :
    (∀ listed name requiredBy, LoadOrder pool listed →
      (∀ found, catalog.resolve name requiredBy = .ok found →
        catalog.resolveInto requiredBy ⟨listed, []⟩ name =
          (none, ⟨listed ++ found.filter fun unit => !listed.has unit, []⟩)) ∧
      ∀ error, catalog.resolve name requiredBy = .error error →
        (catalog.resolveInto requiredBy ⟨listed, []⟩ name).1 = some error) ∧
    ∀ inputs, (∀ input ∈ inputs, input ∈ pool) →
      catalog.dependencies inputs = catalog.shareInputs [] inputs := by
  have describes := describes_of_ofUnits distinct built
  refine ⟨fun listed name requiredBy shared => ⟨fun found ok => ?_, fun error failed => ?_⟩,
    fun inputs within => ?_⟩
  · obtain ⟨_, _, order, _, _⟩ := resolve_ok describes ok
    rw [resolveInto_of_resolve_ok describes shared ok, addAll_of_distinct order.distinct]
  · exact resolveInto_of_resolve_error describes shared failed
  · exact (shareInputs_eq describes .nil within).symm

theorem shared_listing_twinPool :
    twinPool.Distinct ∧ ofUnits twinPool = .ok twinCatalog ∧
      LoadOrder twinPool (twinPool.take 1) ∧ (∀ input ∈ twinPool.take 2, input ∈ twinPool) ∧
      twinCatalog.resolveInto none ⟨twinPool.take 1, []⟩ "app" = (none, ⟨twinPool.take 2, []⟩) ∧
      (twinCatalog.resolveInto none ⟨twinPool.take 1, []⟩ "loop.a").1 =
        some (.circularDependency ["loop.a", "loop.b", "loop.b"]) ∧
      twinCatalog.shareInputs [] (twinPool.take 2) = .ok (twinPool.take 2) := by
  have distinct : twinPool.Distinct := by decide
  have built : ofUnits twinPool = .ok twinCatalog := rfl
  have kit : LoadOrder twinPool (twinPool.take 1) :=
    LoadOrder.nil.concat (by simp [twinPool]) rfl (by simp [SourceUnit.create])
  have within : ∀ input ∈ twinPool.take 2, input ∈ twinPool := fun _ => List.mem_of_mem_take
  obtain ⟨shares, agree⟩ := shared_listing distinct built
  obtain ⟨goesOn, _⟩ := shares _ "app" none kit
  obtain ⟨_, stops⟩ := shares _ "loop.a" none kit
  have app : twinCatalog.resolve "app" = .ok (twinPool.take 2) := by cbv
  have loop : twinCatalog.resolve "loop.a" =
      .error (.circularDependency ["loop.a", "loop.b", "loop.b"]) := by cbv
  have inputs : twinCatalog.dependencies (twinPool.take 2) = .ok (twinPool.take 2) := by cbv
  exact ⟨distinct, built, kit, within, goesOn _ app, stops _ loop, (agree _ within).symm.trans inputs⟩

end ChunkPlan.Catalog
