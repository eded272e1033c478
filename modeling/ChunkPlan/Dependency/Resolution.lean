import ChunkPlan.Dependency.Catalog

/-!
# Resolution

The units that a namespace needs, each one after everything that it requires.  The search goes
down along the requires and remembers the trail of namespaces that led to where it is: a namespace
that is met again on its own trail closes a cycle.
-/

set_option autoImplicit false

namespace ChunkPlan.Catalog

/-- Where and why a search stops. -/
structure Stop where
  error : BuildError
  found : UnitList
  /-- The trail that is left: with the closing namespace for a cycle, without the requiring one
  for a namespace that nothing provides. -/
  trail : List String
  deriving Inhabited

/-- The number of provided namespaces that are not on a trail. -/
def untried (catalog : Catalog) (trail : List String) : Nat :=
  catalog.providers.keys.countP fun name => !trail.contains name

/-- The unit that requires the namespace at the end of a trail: the one that provides the last
namespace on it, or the one that asked in the first place. -/
def requirer (catalog : Catalog) (trail : List String) (requiredBy : Option SourceUnit) :
    Option SourceUnit :=
  match trail.getLast? with
  | none => requiredBy
  | some last => (catalog.provider? last).or requiredBy

private theorem countP_lt_of_mem {names : List String} {p q : String → Bool} {name : String}
    (hmem : name ∈ names) (hp : p name = true) (hq : q name = false)
    (hpq : ∀ other, q other = true → p other = true) : names.countP q < names.countP p := by
  induction names with
  | nil => simp at hmem
  | cons first rest ih =>
    have hle : rest.countP q ≤ rest.countP p :=
      List.countP_mono_left fun other _ => hpq other
    rcases List.mem_cons.1 hmem with rfl | hrest
    · simp only [List.countP_cons, hp, hq, Bool.false_eq_true, if_true, if_false]
      omega
    · have := ih hrest
      simp only [List.countP_cons]
      by_cases hf : q first = true
      · simp only [hf, hpq first hf, if_true]
        omega
      · simp only [hf, Bool.false_eq_true, if_false]
        split <;> omega

/-- Stepping onto a provided namespace leaves fewer to try. -/
theorem untried_lt {catalog : Catalog} {trail : List String} {name : String} {unit : SourceUnit}
    (hunit : catalog.provider? name = some unit) (hnew : ¬trail.contains name = true) :
    catalog.untried (trail ++ [name]) < catalog.untried trail := by
  have hmem : name ∈ catalog.providers.keys :=
    (Entries.has_iff_mem_keys _ _).1 (by
      unfold provider? at hunit
      simp [Entries.has, hunit])
  refine countP_lt_of_mem hmem (by simpa using hnew) (by simp) ?_
  intro other hother
  simp_all

mutual

/-- Lists what a namespace needs after the units found already. -/
def visit (catalog : Catalog) (requiredBy : Option SourceUnit) (trail : List String)
    (found : UnitList) (name : String) : Except Stop UnitList :=
  match _h : catalog.provider? name with
  | none =>
    .error ⟨.unknownNamespace name (catalog.requirer trail requiredBy), found, trail.dropLast⟩
  | some unit =>
    if trail.contains name then
      .error ⟨.circularDependency (trail ++ [name]), found, trail ++ [name]⟩
    else if found.has unit then .ok found
    else
      match visitAll catalog (trail ++ [name]) found unit.requires with
      | .error stop => .error stop
      | .ok found => .ok (found ++ [unit])
termination_by (catalog.untried trail, 0, 0)
decreasing_by
  exact Prod.Lex.left _ _ (untried_lt ‹_› ‹_›)

def visitAll (catalog : Catalog) (trail : List String) (found : UnitList) :
    List String → Except Stop UnitList
  | [] => .ok found
  | name :: names =>
    match visit catalog none trail found name with
    | .error stop => .error stop
    | .ok found => visitAll catalog trail found names
termination_by names => (catalog.untried trail, 1, names.length)

end

/-- The two lists that a search works on. -/
structure Search where
  found : UnitList
  trail : List String
  deriving Inhabited

/-- A search on lists of the caller: the error that ends it early, and what it leaves in the lists.
A search that succeeds takes off the trail what it has put there. -/
def resolveInto (catalog : Catalog) (requiredBy : Option SourceUnit) (search : Search)
    (name : String) : Option BuildError × Search :=
  match catalog.visit requiredBy search.trail search.found name with
  | .ok found => (none, { search with found })
  | .error stop => (some stop.error, ⟨stop.found, stop.trail⟩)

/-- The units that a namespace needs, its own unit last. -/
def resolve (catalog : Catalog) (name : String) (requiredBy : Option SourceUnit := none) :
    Except BuildError UnitList :=
  match catalog.visit requiredBy [] [] name with
  | .ok found => .ok found
  | .error stop => .error stop.error

def resolveAll (catalog : Catalog) (input : SourceUnit) (listed : UnitList) :
    List String → Except BuildError UnitList
  | [] => .ok listed
  | name :: names =>
    match catalog.resolve name (some input) with
    | .error error => .error error
    | .ok found => resolveAll catalog input (listed.addAll found) names

/-- Lists inputs, each one after what it requires. -/
def listInputs (catalog : Catalog) (listed : UnitList) : UnitList → Except BuildError UnitList
  | [] => .ok listed
  | input :: inputs =>
    match catalog.resolveAll input listed input.requires with
    | .error error => .error error
    | .ok listed => listInputs catalog (listed.add input) inputs

/-- The units that some inputs need, in dependency order, each one once. -/
def dependencies (catalog : Catalog) (inputs : UnitList) : Except BuildError UnitList :=
  catalog.listInputs [] inputs

end ChunkPlan.Catalog
