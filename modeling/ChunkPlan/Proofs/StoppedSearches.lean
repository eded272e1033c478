import ChunkPlan.Proofs.SharedListing

/-!
# Where a search stops

An error of a search tells of one branch only: the namespaces that the search has gone through to the
one that nothing provides, or to the one that it has gone through before.  What it lists besides has
no part in it.  So the branch is followed here without the units that are listed.
-/

set_option autoImplicit false

namespace ChunkPlan.Catalog

open UnitList

variable {catalog : Catalog} {pool listed inputs after : UnitList} {unit input : SourceUnit}
  {name missing : String} {names trail left path : List String} {requiredBy asker : Option SourceUnit}
  {error : BuildError}

/-- A search for a namespace behind a trail ends with an error and leaves a trail. -/
inductive Stops (catalog : Catalog) :
    Option SourceUnit → (trail : List String) → String → BuildError → (left : List String) → Prop where
  | unknown {requiredBy : Option SourceUnit} {trail : List String} {name : String} :
      catalog.provider? name = none →
      Stops catalog requiredBy trail name
        (.unknownNamespace name (catalog.requirer trail requiredBy)) trail.dropLast
  | cycle {requiredBy : Option SourceUnit} {trail : List String} {name : String}
      {unit : SourceUnit} :
      catalog.provider? name = some unit → name ∈ trail →
      Stops catalog requiredBy trail name (.circularDependency (trail ++ [name])) (trail ++ [name])
  | deeper {requiredBy : Option SourceUnit} {trail left : List String} {name required : String}
      {unit : SourceUnit} {error : BuildError} :
      catalog.provider? name = some unit → name ∉ trail → required ∈ unit.requires →
      Stops catalog none (trail ++ [name]) required error left →
      Stops catalog requiredBy trail name error left

/-- A task stops where the search for one of its namespaces does. -/
def Search.Task.Stops (catalog : Catalog) (trail : List String) (error : BuildError)
    (left : List String) : Search.Task → Prop
  | .one requiredBy name => catalog.Stops requiredBy trail name error left
  | .all names => ∃ name ∈ names, catalog.Stops none trail name error left

/-- The provider of a namespace requires the next one. -/
def Follows (pool : UnitList) (name next : String) : Prop :=
  ∃ unit, Provider pool name unit ∧ next ∈ unit.requires

/-! ## The branch of an error -/

theorem Search.Runs.trail_eq {task : Search.Task} {search after : Search}
    (run : Search.Runs catalog task search none after) : after.trail = search.trail := by
  have ended := run.outcome_eq
  cases task with
  | one requiredBy name =>
    rw [outcome, resolveInto] at ended
    cases visited : catalog.visit requiredBy search.trail search.found name with
    | error stop => simp [visited] at ended
    | ok found =>
      rw [visited] at ended
      exact congrArg (·.2.trail) ended.symm
  | all names =>
    rw [outcome] at ended
    cases visited : catalog.visitAll search.trail search.found names with
    | error stop => simp [visited] at ended
    | ok found =>
      rw [visited] at ended
      exact congrArg (·.2.trail) ended.symm

/-- What a search has finished before it stops does not show in the error or on the trail. -/
theorem Search.Runs.stops {task : Search.Task} {search after : Search} {ending : Option BuildError}
    (run : Search.Runs catalog task search ending after) (ended : ending = some error) :
    task.Stops catalog search.trail error after.trail := by
  induction run with
  | unknown unknown =>
    cases ended
    exact .unknown unknown
  | cycle provided met =>
    cases ended
    exact .cycle provided met
  | listed => cases ended
  | failed provided fresh _ _ ih =>
    obtain ⟨required, member, stops⟩ := ih ended
    exact .deeper provided fresh member stops
  | met => cases ended
  | done => cases ended
  | stopped _ ih => exact ⟨_, List.mem_cons_self, ih ended⟩
  | next first _ _ ih =>
    obtain ⟨required, member, stops⟩ := ih ended
    rw [first.trail_eq] at stops
    exact ⟨required, List.mem_cons_of_mem _ member, stops⟩

theorem stops_of_resolve (failed : catalog.resolve name requiredBy = .error error) :
    ∃ left, catalog.Stops requiredBy [] name error left := by
  rw [resolve] at failed
  cases visited : catalog.visit requiredBy [] [] name with
  | ok found => simp [visited] at failed
  | error stop =>
    rw [visited] at failed
    cases failed
    have ended : catalog.resolveInto requiredBy ⟨[], []⟩ name =
        (some stop.error, ⟨stop.found, stop.trail⟩) := by rw [resolveInto, visited]
    exact ⟨stop.trail, (runs_iff_resolveInto.mpr ended).stops rfl⟩

theorem Stops.kind (stops : catalog.Stops requiredBy trail name error left) :
    (∃ path, error = .circularDependency path) ∨ ∃ missing asker, error = .unknownNamespace missing asker := by
  induction stops with
  | unknown => exact .inr ⟨_, _, rfl⟩
  | cycle => exact .inl ⟨_, rfl⟩
  | deeper _ _ _ _ ih => exact ih

/-- The path of a cycle is the trail with the way from the namespace searched for to one that was
passed before. -/
theorem Stops.cyclic (describes : catalog.Describes pool)
    (stops : catalog.Stops requiredBy trail name error left)
    (circular : error = .circularDependency path) :
    ∃ way, path = trail ++ name :: way ∧ left = path ∧ (name :: way).IsChain (Follows pool) ∧
      (trail.Nodup → path.dropLast.Nodup) ∧ ∃ last ∈ path.getLast?, last ∈ path.dropLast := by
  induction stops with
  | unknown => cases circular
  | @cycle requiredBy trail name unit _ met =>
    cases circular
    exact ⟨[], rfl, rfl, .singleton name, by simp, name, by simp, by simpa using met⟩
  | @deeper requiredBy trail left name required unit error provided fresh member _ ih =>
    obtain ⟨way, whole, rest, linked, apart, back⟩ := ih circular
    have follows : Follows pool name required :=
      ⟨unit, (describes.provider name unit).mp provided, member⟩
    refine ⟨required :: way, by simp [whole], rest, .cons_cons follows linked, fun distinct => ?_, back⟩
    refine apart (distinct.append (List.nodup_singleton name) fun _ passed here => ?_)
    exact fresh (List.mem_singleton.mp here ▸ passed)

/-- A namespace that nothing provides is the one searched for, or it is required by a unit that the
provider of that one reaches. -/
theorem Stops.lacking (describes : catalog.Describes pool)
    (stops : catalog.Stops requiredBy trail name error left)
    (unknown : error = .unknownNamespace missing asker) :
    (∀ unit, ¬Provider pool missing unit) ∧
      ((name = missing ∧ asker = catalog.requirer trail requiredBy) ∨
        ∃ unit, asker = some unit ∧ missing ∈ unit.requires ∧
          ∃ first, Provider pool name first ∧ Reaches pool first unit) := by
  induction stops with
  | unknown absent =>
    cases unknown
    refine ⟨fun unit provides => ?_, .inl ⟨rfl, rfl⟩⟩
    rw [(describes.provider _ _).mpr provides] at absent
    cases absent
  | cycle => cases unknown
  | @deeper requiredBy trail left name required unit error provided fresh member _ ih =>
    obtain ⟨absent, asked⟩ := ih unknown
    have provides := (describes.provider name unit).mp provided
    refine ⟨absent, .inr ?_⟩
    rcases asked with ⟨rfl, rfl⟩ | ⟨other, asks, requires, first, firstProvides, reaches⟩
    · exact ⟨unit, by simp [requirer, provided], member, unit, provides, .refl⟩
    · exact ⟨other, asks, requires, unit, provides, .head ⟨required, member, firstProvides⟩ reaches⟩

/-! ## Which inputs fail -/

/-- A unit can have all that it needs if the providers of what it requires can. -/
theorem resolvable_iff (consistent : pool.Consistent) : Resolvable pool unit ↔
    ∀ name ∈ unit.requires, ∃ provider, Provider pool name provider ∧ Resolvable pool provider := by
  constructor
  · intro resolvable name required
    obtain ⟨provider, provides⟩ := (resolvable unit .refl).1 name required
    exact ⟨provider, provides, resolvable.of_requires ⟨name, required, provides⟩⟩
  · intro each
    have onward {next : SourceUnit} (requires : Requires pool unit next) : Resolvable pool next := by
      obtain ⟨name, required, provides⟩ := requires
      obtain ⟨provider, alsoProvides, resolvable⟩ := each name required
      exact consistent.single name provider next alsoProvides provides ▸ resolvable
    intro other reaches
    rcases Relation.ReflTransGen.cases_head reaches with rfl | ⟨next, requires, reaches⟩
    · refine ⟨fun name required => ?_, fun cycle => ?_⟩
      · obtain ⟨provider, provides, _⟩ := each name required
        exact ⟨provider, provides⟩
      · obtain ⟨next, requires, back⟩ := Relation.TransGen.head'_iff.mp cycle
        exact (onward requires next .refl).2 (.tail' back requires)
    · exact onward requires other reaches

theorem resolve_succeeds_iff (describes : catalog.Describes pool) :
    (∃ found, catalog.resolve name requiredBy = .ok found) ↔
      ∃ unit, Provider pool name unit ∧ Resolvable pool unit := by
  constructor
  · rintro ⟨found, ok⟩
    obtain ⟨unit, provides, order, _, reached⟩ := resolve_ok describes ok
    have member := (reached unit).mpr .refl
    exact ⟨unit, provides, resolvable_of_mem describes.toConsistent order member⟩
  · rintro ⟨unit, provides, resolvable⟩
    have within : Attainable pool [] name := ⟨unit, provides, resolvable, by simp⟩
    obtain ⟨found, ok⟩ := visit_succeeds describes .nil within
    exact ⟨found, resolve_eq_ok.mpr ok⟩

private theorem resolveAll_each (ok : catalog.resolveAll input listed names = .ok after) :
    ∀ name ∈ names, ∃ found, catalog.resolve name (some input) = .ok found := by
  induction names generalizing listed with
  | nil => simp
  | cons name names ih =>
    rw [resolveAll] at ok
    cases resolved : catalog.resolve name (some input) with
    | error stop => simp [resolved] at ok
    | ok found =>
      rw [resolved] at ok
      exact List.forall_mem_cons.mpr ⟨⟨found, resolved⟩, ih ok⟩

private theorem listInputs_each (ok : catalog.listInputs listed inputs = .ok after) :
    ∀ input ∈ inputs, ∀ name ∈ input.requires,
      ∃ found, catalog.resolve name (some input) = .ok found := by
  induction inputs generalizing listed with
  | nil => simp
  | cons input inputs ih =>
    rw [listInputs] at ok
    cases resolved : catalog.resolveAll input listed input.requires with
    | error stop => simp [resolved] at ok
    | ok middle =>
      rw [resolved] at ok
      exact List.forall_mem_cons.mpr ⟨resolveAll_each resolved, ih ok⟩

private theorem resolveAll_error (failed : catalog.resolveAll input listed names = .error error) :
    ∃ name ∈ names, catalog.resolve name (some input) = .error error := by
  induction names generalizing listed with
  | nil => cases failed
  | cons name names ih =>
    rw [resolveAll] at failed
    cases resolved : catalog.resolve name (some input) with
    | error stop =>
      rw [resolved] at failed
      exact ⟨name, List.mem_cons_self, resolved.trans failed⟩
    | ok found =>
      rw [resolved] at failed
      obtain ⟨other, member, stopped⟩ := ih failed
      exact ⟨other, List.mem_cons_of_mem _ member, stopped⟩

theorem listInputs_error (failed : catalog.listInputs listed inputs = .error error) :
    ∃ input ∈ inputs, ∃ name ∈ input.requires, catalog.resolve name (some input) = .error error := by
  induction inputs generalizing listed with
  | nil => cases failed
  | cons input inputs ih =>
    rw [listInputs] at failed
    cases resolved : catalog.resolveAll input listed input.requires with
    | error stop =>
      rw [resolved] at failed
      exact ⟨input, List.mem_cons_self, resolveAll_error (resolved.trans failed)⟩
    | ok middle =>
      rw [resolved] at failed
      obtain ⟨other, member, stopped⟩ := ih failed
      exact ⟨other, List.mem_cons_of_mem _ member, stopped⟩

theorem resolves_each_iff (describes : catalog.Describes pool) :
    (∀ name ∈ input.requires, ∃ found, catalog.resolve name (some input) = .ok found) ↔
      Resolvable pool input := by
  rw [resolvable_iff describes.toConsistent]
  exact forall₂_congr fun name _ => resolve_succeeds_iff describes

/-- Inputs have dependencies exactly if each of them can have all that it needs. -/
theorem dependencies_succeeds_iff (describes : catalog.Describes pool) :
    (∃ after, catalog.dependencies inputs = .ok after) ↔ ∀ input ∈ inputs, Resolvable pool input := by
  constructor
  · rintro ⟨after, ok⟩ input member
    exact (resolves_each_iff describes).mp (listInputs_each ok input member)
  · intro each
    cases listed : catalog.dependencies inputs with
    | ok after => exact ⟨after, rfl⟩
    | error error =>
      obtain ⟨input, member, name, required, failed⟩ := listInputs_error listed
      obtain ⟨found, resolved⟩ :=
        (resolves_each_iff describes).mpr (each input member) name required
      cases failed.symm.trans resolved

theorem not_resolvable_iff : ¬Resolvable pool unit ↔ ∃ other, Reaches pool unit other ∧
    ((∃ name ∈ other.requires, ∀ provider, ¬Provider pool name provider) ∨
      Relation.TransGen (Requires pool) other other) := by
  simp only [Resolvable, not_forall, not_and_or, not_exists, not_not, exists_prop]

/-- An error of the dependencies tells what is wrong.  A cycle begins with a namespace that an input
requires, each next one is required by the provider of the one before, and the last one alone came
before.  An unknown namespace has no provider, and the unit named with it requires it and is an input
or needed by one.  There are no other errors, and there is one exactly if something that is needed
is not provided or needs itself. -/
theorem dependencies_error_tells (distinct : pool.Distinct) (built : ofUnits pool = .ok catalog)
    (inputs : UnitList) :
    (∀ path, catalog.dependencies inputs = .error (.circularDependency path) →
      (∃ first ∈ path.head?, ∃ input ∈ inputs, first ∈ input.requires) ∧
      path.IsChain (Follows pool) ∧ path.dropLast.Nodup ∧
      ∃ last ∈ path.getLast?, last ∈ path.dropLast) ∧
    (∀ name asker, catalog.dependencies inputs = .error (.unknownNamespace name asker) →
      (∀ provider, ¬Provider pool name provider) ∧
      ∃ unit, asker = some unit ∧ name ∈ unit.requires ∧
        ∃ input ∈ inputs, Reaches pool input unit) ∧
    (∀ error, catalog.dependencies inputs = .error error →
      (∃ path, error = .circularDependency path) ∨
        ∃ name asker, error = .unknownNamespace name asker) ∧
    ((∃ error, catalog.dependencies inputs = .error error) ↔
      ∃ input ∈ inputs, ∃ unit, Reaches pool input unit ∧
        ((∃ name ∈ unit.requires, ∀ provider, ¬Provider pool name provider) ∨
          Relation.TransGen (Requires pool) unit unit)) := by
  have describes := describes_of_ofUnits distinct built
  have branch {error : BuildError} (failed : catalog.dependencies inputs = .error error) :
      ∃ input ∈ inputs, ∃ name ∈ input.requires, ∃ left,
        catalog.Stops (some input) [] name error left := by
    obtain ⟨input, member, name, required, stopped⟩ := listInputs_error failed
    exact ⟨input, member, name, required, stops_of_resolve stopped⟩
  refine ⟨fun path failed => ?cyclic, fun name asker failed => ?unknown, fun error failed => ?kind,
    ?fails⟩
  case cyclic =>
    obtain ⟨input, member, name, required, left, stops⟩ := branch failed
    obtain ⟨way, rfl, _, linked, apart, back⟩ := stops.cyclic describes rfl
    exact ⟨⟨name, rfl, input, member, required⟩, linked, apart List.nodup_nil, back⟩
  case unknown =>
    obtain ⟨input, member, first, required, left, stops⟩ := branch failed
    obtain ⟨absent, ⟨rfl, rfl⟩ | ⟨unit, rfl, requires, provider, provides, reaches⟩⟩ :=
      stops.lacking describes rfl
    · exact ⟨absent, input, rfl, required, input, member, .refl⟩
    · exact ⟨absent, unit, rfl, requires, input, member, .head ⟨first, required, provides⟩ reaches⟩
  case kind =>
    obtain ⟨_, _, _, _, _, stops⟩ := branch failed
    exact stops.kind
  case fails =>
    have fails : (∃ error, catalog.dependencies inputs = .error error) ↔
        ¬∃ after, catalog.dependencies inputs = .ok after := by
      cases catalog.dependencies inputs <;> simp
    rw [fails, dependencies_succeeds_iff describes]
    simp only [not_forall, exists_prop, not_resolvable_iff]

/-- A file that requires what nothing provides. -/
def strayUnit : SourceUnit := .create "/stray.js" [] ["app", "kit.c"] false

theorem dependencies_error_tells_twinPool :
    twinPool.Distinct ∧ ofUnits twinPool = .ok twinCatalog ∧
      twinCatalog.dependencies (twinPool.drop 2) =
        .error (.circularDependency ["loop.b", "loop.b"]) ∧
      ["loop.b", "loop.b"].IsChain (Follows twinPool) ∧
      twinCatalog.dependencies [strayUnit] = .error (.unknownNamespace "kit.c" (some strayUnit)) ∧
      (∀ provider, ¬Provider twinPool "kit.c" provider) ∧
      ∃ input ∈ [strayUnit], ∃ unit, Reaches twinPool input unit ∧
        ((∃ name ∈ unit.requires, ∀ provider, ¬Provider twinPool name provider) ∨
          Relation.TransGen (Requires twinPool) unit unit) := by
  have distinct : twinPool.Distinct := by decide
  have built : ofUnits twinPool = .ok twinCatalog := rfl
  have loop : twinCatalog.dependencies (twinPool.drop 2) =
      .error (.circularDependency ["loop.b", "loop.b"]) := by cbv
  have stray : twinCatalog.dependencies [strayUnit] =
      .error (.unknownNamespace "kit.c" (some strayUnit)) := by cbv
  obtain ⟨cyclic, _⟩ := dependencies_error_tells distinct built (twinPool.drop 2)
  obtain ⟨_, unknown, _, fails⟩ := dependencies_error_tells distinct built [strayUnit]
  exact ⟨distinct, built, loop, (cyclic _ loop).2.1, stray, (unknown _ _ stray).1,
    fails.mp ⟨_, stray⟩⟩

end ChunkPlan.Catalog
