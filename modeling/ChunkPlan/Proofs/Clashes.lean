import ChunkPlan.Proofs.Catalog

/-!
# Clashing units

Units make no catalog exactly if two files among them provide one namespace, in whatever order the
units come.  A unit is compared with the latest provider of a namespace only.  As long as nothing has
clashed the providers of a namespace are one file, so the latest of them stands for all.
-/

set_option autoImplicit false

namespace ChunkPlan.Catalog

open UnitList

variable {units before : UnitList} {providers : Entries SourceUnit} {unit earlier later : SourceUnit}
  {name : String} {error : BuildError}

/-- Another file among the units before a unit provides a namespace. -/
def Taken (before : UnitList) (unit : SourceUnit) (name : String) : Prop :=
  ∃ other, Provider before name other ∧ other.path ≠ unit.path

/-- The first namespace that is taken, in the order of the units and within a unit in that of its
namespaces: the later unit is the one it is taken for, and the earlier unit the last one before that
to provide it. -/
def FirstClash (units : UnitList) (name : String) (earlier later : SourceUnit) : Prop :=
  ∃ before after names rest, units = before ++ later :: after ∧
    later.provides = names ++ name :: rest ∧
    (∀ front unit back, before = front ++ unit :: back →
      ∀ known ∈ unit.provides, ¬Taken front unit known) ∧
    (∀ known ∈ names, ¬Taken before later known) ∧ Taken before later name ∧
    LastProvider before name earlier

theorem not_agreeing_iff : ¬units.Agreeing ↔ ∃ name left right,
    Provider units name left ∧ Provider units name right ∧ left.path ≠ right.path := by
  simp only [Agreeing, not_forall, exists_prop]

private theorem not_taken_of_agreeing {front back : UnitList} (agreeing : before.Agreeing)
    (split : before = front ++ unit :: back) (provides : name ∈ unit.provides) :
    ¬Taken front unit name := by
  intro taken
  obtain ⟨other, ⟨member, alsoProvides⟩, apart⟩ := taken
  exact apart (agreeing name other unit ⟨by simp [split, member], alsoProvides⟩
    ⟨by simp [split], provides⟩)

private theorem FirstClash.not_agreeing (clash : FirstClash units name earlier later) :
    ¬units.Agreeing := by
  obtain ⟨before, after, names, rest, rfl, provides, _, _, ⟨other, ⟨member, alsoProvides⟩, apart⟩, _⟩ :=
    clash
  refine not_agreeing_iff.mpr ⟨name, other, later, ⟨by simp [member], alsoProvides⟩, ⟨by simp, ?_⟩, apart⟩
  simp [provides]

/-! ## Where recording stops -/

private theorem record_error (failed : record providers unit name = .error error) :
    ∃ known, providers.find? name = some known ∧ known.path ≠ unit.path ∧
      error = .duplicateProvide name known unit := by
  unfold record at failed
  cases found : providers.find? name with
  | none => simp [found] at failed
  | some known =>
    simp only [found] at failed
    split at failed
    · cases failed
    · next apart =>
      cases failed
      exact ⟨known, rfl, by simpa [SourceUnit.sameFile] using apart, rfl⟩

/-- A unit is refused at the first of its namespaces that is recorded for another file. -/
theorem recordUnit_error (failed : recordUnit providers unit = .error error) :
    ∃ names name rest known, unit.provides = names ++ name :: rest ∧
      (∀ other ∈ names, ∀ known, providers.find? other = some known → known.path = unit.path) ∧
      providers.find? name = some known ∧ known.path ≠ unit.path ∧
      error = .duplicateProvide name known unit := by
  unfold recordUnit at failed
  generalize unit.provides = provided at failed ⊢
  induction provided generalizing providers with
  | nil => cases failed
  | cons first provided ih =>
    rw [List.foldlM_cons] at failed
    cases recorded : record providers unit first with
    | error fault =>
      rw [recorded] at failed
      cases failed
      obtain ⟨known, found, apart, rfl⟩ := record_error recorded
      exact ⟨[], first, provided, known, rfl, by simp, found, apart, rfl⟩
    | ok middle =>
      rw [recorded] at failed
      obtain ⟨rfl, same⟩ := record_ok recorded
      obtain ⟨names, name, rest, known, split, free, found, apart, rfl⟩ := ih failed
      rw [Entries.find?_put] at found
      -- What is recorded for the unit itself clashes with nothing: the clash was there before.
      split at found
      · cases found
        exact absurd rfl apart
      · refine ⟨first :: names, name, rest, known, by rw [split]; rfl, ?_, found, apart, rfl⟩
        intro other member known selected
        rcases List.mem_cons.mp member with rfl | member
        · exact same known selected
        · by_cases again : first = other
          · exact same known (again ▸ selected)
          · exact free other member known (by rw [Entries.find?_put, if_neg again, selected])

private theorem recordUnits_error (records : Records before providers) (agreeing : before.Agreeing)
    (failed : units.foldlM recordUnit providers = .error error) :
    ∃ name earlier later, error = .duplicateProvide name earlier later ∧
      FirstClash (before ++ units) name earlier later := by
  induction units generalizing before providers with
  | nil => cases failed
  | cons first rest ih =>
    rw [List.foldlM_cons] at failed
    cases recorded : recordUnit providers first with
    | error fault =>
      rw [recorded] at failed
      cases failed
      obtain ⟨names, name, others, known, split, free, found, apart, rfl⟩ := recordUnit_error recorded
      have ends := (records.last name known).mp found
      refine ⟨name, known, first, rfl, before, rest, names, others, rfl, split, ?_, ?_,
        ⟨known, ends.provider, apart⟩, ends⟩
      · intro front unit back cut other provides
        exact not_taken_of_agreeing agreeing cut provides
      · intro other member taken
        obtain ⟨unit, provider, apart⟩ := taken
        exact apart ((records.path_eq_iff agreeing).mp (free other member) unit provider)
    | ok middle =>
      rw [recorded] at failed
      rw [List.append_cons]
      exact ih (records.concat recorded) (records.agreeing_concat agreeing recorded) failed

theorem firstClash_of_ofUnits (failed : ofUnits units = .error error) :
    ∃ name earlier later, error = .duplicateProvide name earlier later ∧
      FirstClash units name earlier later := by
  unfold ofUnits at failed
  cases recorded : units.foldlM recordUnit [] with
  | error fault =>
    rw [recorded] at failed
    cases failed
    exact recordUnits_error .nil agreeing_nil recorded
  | ok providers =>
    rw [recorded] at failed
    cases failed

theorem ofUnits_fails_iff : (∃ error, ofUnits units = .error error) ↔ ¬units.Agreeing := by
  constructor
  · intro fails
    obtain ⟨error, failed⟩ := fails
    obtain ⟨_, _, _, _, clash⟩ := firstClash_of_ofUnits failed
    exact clash.not_agreeing
  · intro clash
    cases built : ofUnits units with
    | error error => exact ⟨error, rfl⟩
    | ok catalog => exact absurd (records_of_ofUnits built).2 clash

/-- Units in any order make no catalog exactly if two files among them provide one namespace.  A
catalog has each provided namespace once, with the last unit that provides it; the error where there
is none tells the first clash. -/
theorem ofUnits_last_or_clash (units : UnitList) :
    (∀ others, others.Perm units → ((∃ error, ofUnits others = .error error) ↔
      ∃ name left right, Provider units name left ∧ Provider units name right ∧
        left.path ≠ right.path)) ∧
    (∀ catalog, ofUnits units = .ok catalog →
      catalog.providers.keys.Nodup ∧
      (∀ name, name ∈ catalog.providers.keys ↔ ∃ unit ∈ units, name ∈ unit.provides) ∧
      ∀ name unit, catalog.provider? name = some unit ↔ LastProvider units name unit) ∧
    ∀ error, ofUnits units = .error error →
      ∃ name earlier later, error = .duplicateProvide name earlier later ∧
        FirstClash units name earlier later := by
  refine ⟨fun others order => ?_, fun catalog built => ?_, fun error failed => ?_⟩
  · rw [ofUnits_fails_iff, not_agreeing_iff]
    simp only [Provider, order.mem_iff]
  · obtain ⟨records, _⟩ := records_of_ofUnits built
    exact ⟨records.unique, fun name => records.mem_keys_iff, records.last⟩
  · exact firstClash_of_ofUnits failed

def kitUnit : SourceUnit := .create "/kit.js" ["kit.a"] [] false

/-- The kit scanned again, with one more namespace and one that it provides twice. -/
def revisedKit : SourceUnit := .create "/kit.js" ["kit.a", "kit.b", "kit.a"] [] false

/-- A file with a namespace of its own that it provides twice, and two of the kit. -/
def rivalUnit : SourceUnit := .create "/rival.js" ["rival", "rival", "kit.a", "kit.b"] [] false

theorem ofUnits_last_or_clash_rivalUnit :
    (∃ error, ofUnits [rivalUnit, kitUnit, revisedKit] = .error error) ∧
      (∃ catalog, ofUnits [kitUnit, revisedKit] = .ok catalog ∧
        catalog.provider? "kit.a" = some revisedKit ∧
        LastProvider [kitUnit, revisedKit] "kit.a" revisedKit) ∧
      ofUnits [kitUnit, revisedKit, rivalUnit] =
        .error (.duplicateProvide "kit.a" revisedKit rivalUnit) ∧
      FirstClash [kitUnit, revisedKit, rivalUnit] "kit.a" revisedKit rivalUnit := by
  have made : ofUnits [kitUnit, revisedKit] = .ok ⟨[("kit.a", revisedKit), ("kit.b", revisedKit)]⟩ := rfl
  have failed : ofUnits [kitUnit, revisedKit, rivalUnit] =
      .error (.duplicateProvide "kit.a" revisedKit rivalUnit) := rfl
  obtain ⟨-, tells, -⟩ := ofUnits_last_or_clash [kitUnit, revisedKit]
  obtain ⟨fails, -, clashes⟩ := ofUnits_last_or_clash [kitUnit, revisedKit, rivalUnit]
  refine ⟨?_, ⟨_, made, rfl, ((tells _ made).2.2 _ _).mp rfl⟩, failed, ?_⟩
  · have order : [rivalUnit, kitUnit, revisedKit].Perm [kitUnit, revisedKit, rivalUnit] :=
      (List.perm_append_singleton rivalUnit [kitUnit, revisedKit]).symm
    exact (fails _ order).mpr ((fails _ (.refl _)).mp ⟨_, failed⟩)
  · obtain ⟨name, earlier, later, same, clash⟩ := clashes _ failed
    cases same
    exact clash

end ChunkPlan.Catalog
