import ChunkPlan.Proofs.Resolution

/-!
# Searches step by step

The rules of a search that changes its two lists in place: a namespace is put on the trail before
the requires of its unit are followed, and taken off once the unit is listed.  A run by these rules
is determined by where it starts, and it is what the search computes.
-/

set_option autoImplicit false

namespace ChunkPlan.Catalog

variable {catalog : Catalog} {search left : Search} {unit : SourceUnit} {name : String}
  {names : List String} {requiredBy : Option SourceUnit} {ending : Option BuildError}

namespace Search

/-- What is still to be searched for. -/
inductive Task where
  | one (requiredBy : Option SourceUnit) (name : String)
  | all (names : List String)

def push (search : Search) (name : String) : Search :=
  { search with trail := search.trail ++ [name] }

def pop (search : Search) : Search := { search with trail := search.trail.dropLast }

def list (search : Search) (unit : SourceUnit) : Search :=
  { search with found := search.found ++ [unit] }

/-- How a search from some lists ends, and what it leaves in them. -/
inductive Runs (catalog : Catalog) : Task → Search → Option BuildError → Search → Prop where
  | unknown {requiredBy : Option SourceUnit} {name : String} {search : Search} :
      catalog.provider? name = none →
      Runs catalog (.one requiredBy name) search
        (some (.unknownNamespace name (catalog.requirer search.trail requiredBy))) search.pop
  | cycle {requiredBy : Option SourceUnit} {name : String} {search : Search} {unit : SourceUnit} :
      catalog.provider? name = some unit → name ∈ search.trail →
      Runs catalog (.one requiredBy name) search
        (some (.circularDependency (search.push name).trail)) (search.push name)
  | listed {requiredBy : Option SourceUnit} {name : String} {search : Search} {unit : SourceUnit} :
      catalog.provider? name = some unit → name ∉ search.trail → search.found.has unit = true →
      Runs catalog (.one requiredBy name) search none search
  | failed {requiredBy : Option SourceUnit} {name : String} {search left : Search}
      {unit : SourceUnit} {error : BuildError} :
      catalog.provider? name = some unit → name ∉ search.trail → search.found.has unit = false →
      Runs catalog (.all unit.requires) (search.push name) (some error) left →
      Runs catalog (.one requiredBy name) search (some error) left
  | met {requiredBy : Option SourceUnit} {name : String} {search left : Search}
      {unit : SourceUnit} :
      catalog.provider? name = some unit → name ∉ search.trail → search.found.has unit = false →
      Runs catalog (.all unit.requires) (search.push name) none left →
      Runs catalog (.one requiredBy name) search none (left.list unit).pop
  | done {search : Search} : Runs catalog (.all []) search none search
  | stopped {name : String} {names : List String} {search left : Search} {error : BuildError} :
      Runs catalog (.one none name) search (some error) left →
      Runs catalog (.all (name :: names)) search (some error) left
  | next {name : String} {names : List String} {search middle left : Search}
      {ending : Option BuildError} :
      Runs catalog (.one none name) search none middle → Runs catalog (.all names) middle ending left →
      Runs catalog (.all (name :: names)) search ending left

/-- What the search computes for a task. -/
def outcome (catalog : Catalog) (search : Search) : Task → Option BuildError × Search
  | .one requiredBy name => catalog.resolveInto requiredBy search name
  | .all names =>
    match catalog.visitAll search.trail search.found names with
    | .ok found => (none, { search with found })
    | .error stop => (some stop.error, ⟨stop.found, stop.trail⟩)

end Search

/-! ## The steps of a search on lists -/

theorem resolveInto_unknown (unknown : catalog.provider? name = none) :
    catalog.resolveInto requiredBy search name =
      (some (.unknownNamespace name (catalog.requirer search.trail requiredBy)), search.pop) := by
  rw [resolveInto, visit_unknown unknown]
  rfl

theorem resolveInto_cycle (provided : catalog.provider? name = some unit)
    (met : name ∈ search.trail) :
    catalog.resolveInto requiredBy search name =
      (some (.circularDependency (search.push name).trail), search.push name) := by
  rw [resolveInto, visit_provided provided, if_pos (by simpa using met)]
  rfl

theorem resolveInto_listed (provided : catalog.provider? name = some unit)
    (fresh : name ∉ search.trail) (listed : search.found.has unit = true) :
    catalog.resolveInto requiredBy search name = (none, search) := by
  rw [resolveInto, visit_provided provided, if_neg (by simpa using fresh), if_pos listed]

theorem resolveInto_new (provided : catalog.provider? name = some unit)
    (fresh : name ∉ search.trail) (absent : search.found.has unit = false) :
    catalog.resolveInto requiredBy search name =
      match (search.push name).outcome catalog (.all unit.requires) with
      | (none, left) => (none, (left.list unit).pop)
      | (some error, left) => (some error, left) := by
  rw [resolveInto, visit_provided provided, if_neg (by simpa using fresh), if_neg (by simp [absent])]
  simp only [Search.outcome, Search.push]
  cases catalog.visitAll (search.trail ++ [name]) search.found unit.requires with
  | error stop => rfl
  | ok found => simp [Search.list, Search.pop]

theorem outcome_cons :
    search.outcome catalog (.all (name :: names)) =
      match catalog.resolveInto none search name with
      | (none, middle) => middle.outcome catalog (.all names)
      | (some error, left) => (some error, left) := by
  simp only [Search.outcome, resolveInto, visitAll_cons]
  cases catalog.visit none search.trail search.found name with
  | error stop => rfl
  | ok found => rfl

/-! ## Runs are what the search computes -/

theorem Search.Runs.outcome_eq {task : Search.Task}
    (run : Search.Runs catalog task search ending left) :
    search.outcome catalog task = (ending, left) := by
  induction run with
  | unknown unknown => exact resolveInto_unknown unknown
  | cycle provided met => exact resolveInto_cycle provided met
  | listed provided fresh listed => exact resolveInto_listed provided fresh listed
  | failed provided fresh absent _ ih =>
    refine (resolveInto_new provided fresh absent).trans ?_
    rw [ih]
  | met provided fresh absent _ ih =>
    refine (resolveInto_new provided fresh absent).trans ?_
    rw [ih]
  | done => rw [outcome, visitAll_nil]
  | @stopped name names search left error _ ih =>
    have first : catalog.resolveInto none search name = (some error, left) := ih
    rw [outcome_cons, first]
  | @next name names search middle left ending _ _ ih rest =>
    have first : catalog.resolveInto none search name = (none, middle) := ih
    rw [outcome_cons, first]
    exact rest

/-- What the search computes for a task follows the rules, whatever the lists hold. -/
def Followed (catalog : Catalog) (search : Search) (task : Search.Task) : Prop :=
  Search.Runs catalog task search (search.outcome catalog task).1 (search.outcome catalog task).2

private theorem followed_one (catalog : Catalog) (requiredBy : Option SourceUnit) (search : Search)
    (name : String) : Followed catalog search (.one requiredBy name) := by
  obtain ⟨found, trail⟩ := search
  refine visit.induct catalog
    (fun requiredBy trail found name => Followed catalog ⟨found, trail⟩ (.one requiredBy name))
    (fun trail found names => Followed catalog ⟨found, trail⟩ (.all names))
    ?unknown ?cycle ?listed ?stopped ?appended ?nil ?failed ?cons requiredBy trail found name
  case unknown =>
    intro requiredBy trail found name unknown
    rw [Followed, Search.outcome, resolveInto_unknown unknown]
    exact .unknown unknown
  case cycle =>
    intro requiredBy trail found name unit provided met
    have met : name ∈ (⟨found, trail⟩ : Search).trail := by simpa using met
    rw [Followed, Search.outcome, resolveInto_cycle provided met]
    exact .cycle provided met
  case listed =>
    intro requiredBy trail found name unit provided fresh listed
    have fresh : name ∉ (⟨found, trail⟩ : Search).trail := by simpa using fresh
    rw [Followed, Search.outcome, resolveInto_listed provided fresh listed]
    exact .listed provided fresh listed
  case stopped =>
    intro requiredBy trail found name unit provided fresh absent stop stopped below
    have fresh : name ∉ (⟨found, trail⟩ : Search).trail := by simpa using fresh
    have absent : (⟨found, trail⟩ : Search).found.has unit = false := by simpa using absent
    have ended : (Search.push ⟨found, trail⟩ name).outcome catalog (.all unit.requires) =
        (some stop.error, ⟨stop.found, stop.trail⟩) := by
      simp [Search.outcome, Search.push, stopped]
    have below : Followed catalog (Search.push ⟨found, trail⟩ name) (.all unit.requires) := below
    rw [Followed, ended] at below
    rw [Followed, Search.outcome, resolveInto_new provided fresh absent, ended]
    exact .failed provided fresh absent below
  case appended =>
    intro requiredBy trail found name unit provided fresh absent middle visited below
    have fresh : name ∉ (⟨found, trail⟩ : Search).trail := by simpa using fresh
    have absent : (⟨found, trail⟩ : Search).found.has unit = false := by simpa using absent
    have ended : (Search.push ⟨found, trail⟩ name).outcome catalog (.all unit.requires) =
        (none, ⟨middle, trail ++ [name]⟩) := by
      simp [Search.outcome, Search.push, visited]
    have below : Followed catalog (Search.push ⟨found, trail⟩ name) (.all unit.requires) := below
    rw [Followed, ended] at below
    rw [Followed, Search.outcome, resolveInto_new provided fresh absent, ended]
    exact .met provided fresh absent below
  case nil =>
    intro trail found
    rw [Followed, Search.outcome, visitAll_nil]
    exact .done
  case failed =>
    intro trail found name names stop stopped first
    have ended : catalog.resolveInto none ⟨found, trail⟩ name =
        (some stop.error, ⟨stop.found, stop.trail⟩) := by
      rw [resolveInto, stopped]
    rw [Followed, Search.outcome, ended] at first
    rw [Followed, outcome_cons, ended]
    exact .stopped first
  case cons =>
    intro trail found name names middle visited first rest
    have ended : catalog.resolveInto none ⟨found, trail⟩ name = (none, ⟨middle, trail⟩) := by
      rw [resolveInto, visited]
    rw [Followed, Search.outcome, ended] at first
    rw [Followed, outcome_cons, ended]
    exact .next first rest

/-- The search on a caller's lists ends as the rules say, with what they leave in the lists. -/
theorem runs_iff_resolveInto :
    Search.Runs catalog (.one requiredBy name) search ending left ↔
      catalog.resolveInto requiredBy search name = (ending, left) := by
  refine ⟨Search.Runs.outcome_eq, fun ended => ?_⟩
  have followed := followed_one catalog requiredBy search name
  rwa [Followed, Search.outcome, ended] at followed

end ChunkPlan.Catalog
