import ChunkPlan.Proofs.Clashes
import ChunkPlan.Proofs.StoppedSearches
import Mathlib.Data.Finset.Card

/-!
# How deep searches go

The units that are found do not bound how deep a search goes, since a unit is listed only after all
that it requires.  What bounds it is the trail: every nested call but the last one puts a provided
namespace on it that was not there.  So a search is never cut off if it may nest one call more than
there are provided namespaces that the trail does not have at the start.
-/

set_option autoImplicit false

namespace ChunkPlan.Catalog

variable {catalog : Catalog} {units : UnitList} {trail : List String}

namespace Search

/-- How a search ends and what it leaves, unless it is cut off. -/
abbrev Ending := Option (Option BuildError × Search)

/-- Searches for one namespace after the other, up to one that fails or is cut off. -/
def each (call : Search → String → Ending) (search : Search) : List String → Ending
  | [] => some (none, search)
  | name :: names =>
    match call search name with
    | some (none, middle) => each call middle names
    | stopped => stopped

end Search

/-- The search on a caller's lists where only so many calls may be nested, the first one included. -/
def resolveWithin (catalog : Catalog) : Nat → Option SourceUnit → Search → String → Search.Ending
  | 0, _, _, _ => none
  | calls + 1, requiredBy, search, name =>
    match catalog.provider? name with
    | none =>
      some (some (.unknownNamespace name (catalog.requirer search.trail requiredBy)), search.pop)
    | some unit =>
      if name ∈ search.trail then
        some (some (.circularDependency (search.push name).trail), search.push name)
      else if search.found.has unit then some (none, search)
      else
        match Search.each (catalog.resolveWithin calls none) (search.push name) unit.requires with
        | some (none, left) => some (none, (left.list unit).pop)
        | stopped => stopped

/-- What a task comes to if so many calls may be nested. -/
def Search.Task.within (catalog : Catalog) (calls : Nat) (search : Search) : Search.Task → Search.Ending
  | .one requiredBy name => catalog.resolveWithin calls requiredBy search name
  | .all names => search.each (catalog.resolveWithin calls none) names

theorem resolveWithin_new {requiredBy : Option SourceUnit} {search : Search} {unit : SourceUnit}
    {name : String} {calls : Nat} (provided : catalog.provider? name = some unit)
    (fresh : name ∉ search.trail) (absent : search.found.has unit = false) :
    catalog.resolveWithin (calls + 1) requiredBy search name =
      match Search.each (catalog.resolveWithin calls none) (search.push name) unit.requires with
      | some (none, left) => some (none, (left.list unit).pop)
      | stopped => stopped := by
  rw [resolveWithin]
  simp only [provided, if_neg fresh, absent, Bool.false_eq_true, ↓reduceIte]

/-- Behind a new namespace one call less is enough. -/
theorem exists_fewer {search : Search} {unit : SourceUnit} {name : String} {calls : Nat}
    (provided : catalog.provider? name = some unit) (fresh : name ∉ search.trail)
    (enough : catalog.untried search.trail ≤ calls) :
    ∃ fewer, calls = fewer + 1 ∧ catalog.untried (search.push name).trail ≤ fewer := by
  have left := untried_lt provided (by simpa using fresh)
  refine ⟨calls - 1, ?_, ?_⟩
  · omega
  · simp only [Search.push]
    omega

/-- A run is not cut off if it may nest one call more than there are namespaces left to try. -/
theorem Search.Runs.within {task : Search.Task} {search left : Search} {ending : Option BuildError}
    (run : Search.Runs catalog task search ending left) :
    ∀ calls, catalog.untried search.trail ≤ calls →
      task.within catalog (calls + 1) search = some (ending, left) := by
  induction run with
  | unknown unknown =>
    intro calls _
    simp only [Task.within, resolveWithin, unknown]
  | cycle provided met =>
    intro calls _
    simp only [Task.within, resolveWithin, provided, if_pos met]
  | listed provided fresh listed =>
    intro calls _
    simp only [Task.within, resolveWithin, provided, if_neg fresh, if_pos listed]
  | @failed requiredBy name search left unit error provided fresh absent _ ih =>
    intro calls enough
    obtain ⟨fewer, rfl, less⟩ := exists_fewer provided fresh enough
    have below : each (catalog.resolveWithin (fewer + 1) none) (search.push name) unit.requires =
        some (some error, left) := ih fewer less
    rw [Task.within, resolveWithin_new provided fresh absent, below]
  | @met requiredBy name search left unit provided fresh absent _ ih =>
    intro calls enough
    obtain ⟨fewer, rfl, less⟩ := exists_fewer provided fresh enough
    have below : each (catalog.resolveWithin (fewer + 1) none) (search.push name) unit.requires =
        some (none, left) := ih fewer less
    rw [Task.within, resolveWithin_new provided fresh absent, below]
  | done =>
    intro calls _
    rfl
  | stopped _ ih =>
    intro calls enough
    have first := ih calls enough
    rw [Task.within] at first
    rw [Task.within, each, first]
  | next run _ ih rest =>
    intro calls enough
    have first := ih calls enough
    rw [Task.within] at first
    rw [Task.within, each, first]
    exact rest calls (by rwa [run.trail_eq])

/-- The namespaces left to try are the provided ones that are not on the trail. -/
theorem untried_eq (built : ofUnits units = .ok catalog) :
    catalog.untried trail =
      ((units.flatMap (·.provides)).toFinset \ trail.toFinset).card := by
  obtain ⟨records, _⟩ := records_of_ofUnits built
  have unique := records.unique.filter fun name => !trail.contains name
  rw [untried, List.countP_eq_length_filter, ← List.toFinset_card_of_nodup unique]
  congr 1
  ext name
  simp [records.mem_keys_iff, UnitList.Provider]

/-- A search ends with a result or an error, whatever lists it starts from, and never nests more calls
than one for each provided namespace that is not on the trail and one more. -/
theorem resolveWithin_eq (built : ofUnits units = .ok catalog) (requiredBy : Option SourceUnit)
    (search : Search) (name : String) (calls : Nat)
    (enough : ((units.flatMap (·.provides)).toFinset \ search.trail.toFinset).card + 1 ≤ calls) :
    catalog.resolveWithin calls requiredBy search name =
      some (catalog.resolveInto requiredBy search name) := by
  have run : Search.Runs catalog (.one requiredBy name) search _ _ := runs_iff_resolveInto.mpr rfl
  rw [← untried_eq built] at enough
  obtain ⟨fewer, rfl⟩ := Nat.exists_eq_add_of_le' enough
  exact run.within _ (Nat.le_add_left _ fewer)

/-- A file over another one that lacks what it requires. -/
def lackingUnits : UnitList :=
  [.create "/top.js" ["top"] ["low"] false, .create "/low.js" ["low", "low.more"] ["lost"] false]

def lackingCatalog : Catalog where
  providers := lackingUnits.flatMap fun unit => unit.provides.map fun name => (name, unit)

/-- Three calls are nested, and the search is cut off if there may be two only. -/
theorem resolveWithin_eq_lackingUnits :
    ofUnits lackingUnits = .ok lackingCatalog ∧
      ((lackingUnits.flatMap (·.provides)).toFinset \ ["low.more", "far", "far"].toFinset).card = 2 ∧
      lackingCatalog.resolveWithin 3 none ⟨[], ["low.more", "far", "far"]⟩ "top" =
        some (lackingCatalog.resolveInto none ⟨[], ["low.more", "far", "far"]⟩ "top") ∧
      lackingCatalog.resolveWithin 2 none ⟨[], ["low.more", "far", "far"]⟩ "top" = none := by
  have built : ofUnits lackingUnits = .ok lackingCatalog := rfl
  have untried : ((lackingUnits.flatMap (·.provides)).toFinset \
      ["low.more", "far", "far"].toFinset).card = 2 := by decide
  exact ⟨built, untried, resolveWithin_eq built none _ "top" 3 (by rw [untried]), by decide⟩

end ChunkPlan.Catalog
