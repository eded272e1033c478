import ChunkPlan.Source.Unit
import Mathlib.Data.List.Induction
import Mathlib.Data.List.Nodup

/-!
# Laws of unit lists

Units are told apart by their paths alone, so listing and striking are laws about paths.  The lists
themselves are not assumed to be free of repetition unless a law says so.
-/

set_option autoImplicit false

namespace ChunkPlan.UnitList

variable {units more gone : UnitList} {unit other : SourceUnit}

def Distinct (units : UnitList) : Prop := units.paths.Nodup

instance (units : UnitList) : Decidable units.Distinct :=
  inferInstanceAs (Decidable units.paths.Nodup)

/-- A property that two units of the same file share. -/
def FileWise (keep : SourceUnit → Bool) : Prop :=
  ∀ left right : SourceUnit, left.path = right.path → keep left = keep right

/-! ## Membership by path -/

theorem has_iff : units.has unit = true ↔ ∃ listed ∈ units, listed.path = unit.path := by
  simp [has, SourceUnit.sameFile]

theorem has_iff_mem_paths : units.has unit = true ↔ unit.path ∈ units.paths := by
  simp [has_iff, paths]

@[simp] theorem has_nil : has [] unit = false := rfl

@[simp] theorem has_cons :
    has (other :: units) unit = (other.sameFile unit || units.has unit) := rfl

@[simp] theorem has_append : has (units ++ more) unit = (units.has unit || more.has unit) := by
  simp [has]

theorem has_of_mem (member : unit ∈ units) : units.has unit = true :=
  has_iff.mpr ⟨unit, member, rfl⟩

theorem has_fileWise (units : UnitList) : FileWise units.has := by
  intro left right same
  simp [has, SourceUnit.sameFile, same]

/-- A kept unit is listed among the kept ones exactly if its file is listed at all. -/
theorem has_filter {keep : SourceUnit → Bool} (fileWise : FileWise keep) :
    has (units.filter keep) unit = (units.has unit && keep unit) := by
  induction units with
  | nil => rfl
  | cons first rest ih =>
    by_cases same : first.path = unit.path
    · cases kept : keep unit <;>
        simp [fileWise first unit same, kept, ih, SourceUnit.sameFile, same]
    · cases kept : keep first <;>
        simp [kept, ih, SourceUnit.sameFile, same]

theorem has_flatMap {α : Type} {items : List α} {listing : α → UnitList} :
    has (items.flatMap listing) unit = items.any fun item => (listing item).has unit := by
  simp [has, List.any_flatMap]

/-! ## Distinct lists -/

@[simp] theorem distinct_nil : Distinct [] := by simp [Distinct, paths]

theorem distinct_cons :
    Distinct (unit :: units) ↔ units.has unit = false ∧ units.Distinct := by
  rw [← Bool.not_eq_true, has_iff_mem_paths]
  simp [Distinct, paths]

theorem distinct_append_singleton :
    Distinct (units ++ [unit]) ↔ units.has unit = false ∧ units.Distinct := by
  rw [← Bool.not_eq_true, has_iff_mem_paths]
  simp only [Distinct, paths, List.map_append, List.map_cons, List.map_nil, List.nodup_append]
  constructor
  · rintro ⟨unique, -, apart⟩
    exact ⟨fun member => apart _ member _ (by simp) rfl, unique⟩
  · rintro ⟨absent, unique⟩
    refine ⟨unique, by simp, ?_⟩
    intro path member last added same
    rw [same, List.mem_singleton.mp added] at member
    exact absent member

theorem Distinct.sublist (distinct : more.Distinct) (sublist : units.Sublist more) :
    units.Distinct :=
  List.Nodup.sublist (sublist.map _) distinct

theorem Distinct.filter (keep : SourceUnit → Bool) (distinct : units.Distinct) :
    Distinct (units.filter keep) :=
  distinct.sublist List.filter_sublist

/-- In a distinct list a path names one unit. -/
theorem Distinct.eq_of_path (distinct : units.Distinct) (left : unit ∈ units)
    (right : other ∈ units) (same : unit.path = other.path) : unit = other :=
  List.inj_on_of_nodup_map distinct left right same

theorem Distinct.mem_of_has (distinct : more.Distinct) (within : ∀ listed ∈ units, listed ∈ more)
    (member : unit ∈ more) (present : units.has unit = true) : unit ∈ units := by
  obtain ⟨listed, inside, same⟩ := has_iff.mp present
  exact distinct.eq_of_path (within listed inside) member same ▸ inside

theorem Distinct.append (left : units.Distinct) (right : more.Distinct)
    (apart : ∀ unit ∈ more, units.has unit = false) : Distinct (units ++ more) := by
  simp only [Distinct, paths, List.map_append]
  apply List.Nodup.append left right
  intro path known added
  obtain ⟨unit, member, rfl⟩ := List.mem_map.mp added
  exact Bool.false_ne_true (apart unit member ▸ has_iff_mem_paths.mpr known)

theorem add_of_has (present : units.has unit = true) : units.add unit = units := if_pos present

theorem add_of_not_has (absent : units.has unit = false) : units.add unit = units ++ [unit] :=
  if_neg (by simp [absent])

theorem addAll_nil (units : UnitList) : units.addAll [] = units := rfl

theorem addAll_cons (units more : UnitList) (unit : SourceUnit) :
    units.addAll (unit :: more) = (units.add unit).addAll more := rfl

theorem addAll_append (units more others : UnitList) :
    units.addAll (more ++ others) = (units.addAll more).addAll others :=
  List.foldl_append

theorem addAll_concat (units more : UnitList) (unit : SourceUnit) :
    units.addAll (more ++ [unit]) = (units.addAll more).add unit :=
  addAll_append units more [unit]

theorem has_add : has (units.add other) unit = (units.has unit || other.sameFile unit) := by
  cases present : units.has other with
  | false => simp [add_of_not_has present]
  | true =>
    rw [add_of_has present]
    cases same : other.sameFile unit with
    | false => simp
    | true =>
      have equal : other.path = unit.path := by simpa [SourceUnit.sameFile] using same
      simp [← has_fileWise units other unit equal, present]

theorem has_addAll : has (units.addAll more) unit = (units.has unit || more.has unit) := by
  induction more generalizing units with
  | nil => simp [addAll_nil]
  | cons first rest ih => simp [addAll_cons, ih, has_add, Bool.or_assoc]

theorem addAll_of_forall_has (known : ∀ unit ∈ more, units.has unit = true) :
    units.addAll more = units := by
  induction more with
  | nil => rfl
  | cons first rest ih =>
    obtain ⟨present, known⟩ := List.forall_mem_cons.mp known
    rw [addAll_cons, add_of_has present, ih known]

theorem Distinct.add (distinct : units.Distinct) (unit : SourceUnit) :
    Distinct (units.add unit) := by
  cases present : units.has unit with
  | false =>
    rw [add_of_not_has present]
    exact distinct_append_singleton.mpr ⟨present, distinct⟩
  | true => rwa [add_of_has present]

theorem Distinct.addAll (distinct : units.Distinct) (more : UnitList) :
    Distinct (units.addAll more) := by
  induction more generalizing units with
  | nil => exact distinct
  | cons first rest ih => exact ih (distinct.add first)

/-- Listing keeps what is there and appends the first listing of each new file. -/
theorem addAll_eq_append (units more : UnitList) :
    units.addAll more = units ++ (addAll [] more).filter fun unit => !units.has unit := by
  induction more using List.reverseRecOn with
  | nil => simp [addAll_nil]
  | append_singleton rest last ih =>
    have fileWise : FileWise fun unit => !units.has unit := fun left right same => by
      simp [has_fileWise units left right same]
    rw [addAll_concat, addAll_concat, ih]
    cases fresh : (addAll [] rest).has last with
    | true =>
      rw [add_of_has fresh, add_of_has]
      cases known : units.has last <;> simp [has_filter fileWise, known, fresh]
    | false =>
      rw [add_of_not_has fresh, List.filter_append, ← List.append_assoc]
      cases known : units.has last with
      | true =>
        rw [add_of_has (by simp [known])]
        simp [known]
      | false =>
        rw [add_of_not_has (by simp [has_filter fileWise, known, fresh])]
        simp [known]

theorem addAll_nil_of_distinct (distinct : units.Distinct) : addAll [] units = units := by
  induction units using List.reverseRecOn with
  | nil => rfl
  | append_singleton rest last ih =>
    obtain ⟨absent, distinct⟩ := distinct_append_singleton.mp distinct
    rw [addAll_concat, ih distinct, add_of_not_has absent]

theorem addAll_of_distinct (distinct : more.Distinct) :
    units.addAll more = units ++ more.filter fun unit => !units.has unit := by
  rw [addAll_eq_append, addAll_nil_of_distinct distinct]

/-- Repetitions among what is listed make no difference. -/
theorem addAll_addAll_nil (units more : UnitList) :
    units.addAll (addAll [] more) = units.addAll more := by
  rw [addAll_of_distinct (distinct_nil.addAll more), ← addAll_eq_append]

theorem addAll_flatMap_addAll_nil {α : Type} (units : UnitList) (items : List α)
    (listing : α → UnitList) :
    units.addAll (items.flatMap fun item => addAll [] (listing item)) =
      units.addAll (items.flatMap listing) := by
  induction items generalizing units with
  | nil => rfl
  | cons first rest ih =>
    rw [List.flatMap_cons, List.flatMap_cons, addAll_append, addAll_append, addAll_addAll_nil, ih]

theorem addAll_filter {keep : SourceUnit → Bool} (fileWise : FileWise keep) (more : UnitList) :
    addAll [] (more.filter keep) = (addAll [] more).filter keep := by
  induction more using List.reverseRecOn with
  | nil => rfl
  | append_singleton rest last ih =>
    rw [List.filter_append, addAll_append, ih, addAll_concat]
    cases kept : keep last with
    | false =>
      have dropped : [last].filter keep = [] := by simp [kept]
      rw [dropped, addAll_nil]
      cases known : (addAll [] rest).has last with
      | true => rw [add_of_has known]
      | false => rw [add_of_not_has known, List.filter_append, dropped, List.append_nil]
    | true =>
      have single : [last].filter keep = [last] := by simp [kept]
      rw [single, addAll_cons, addAll_nil]
      cases known : (addAll [] rest).has last with
      | true => rw [add_of_has known, add_of_has (by simp [has_filter fileWise, known, kept])]
      | false =>
        rw [add_of_not_has known, add_of_not_has (by simp [has_filter fileWise, known]),
          List.filter_append, single]

theorem mem_of_mem_addAll (member : unit ∈ units.addAll more) : unit ∈ units ∨ unit ∈ more := by
  induction more generalizing units with
  | nil => exact .inl member
  | cons first rest ih =>
    rw [addAll_cons] at member
    rcases ih member with old | new
    · cases known : units.has first with
      | true => exact .inl (add_of_has known ▸ old)
      | false =>
        rw [add_of_not_has known] at old
        rcases List.mem_append.mp old with old | new
        · exact .inl old
        · exact .inr (by simp [List.mem_singleton.mp new])
    · exact .inr (List.mem_cons_of_mem _ new)

/-- Within a list that names no file twice, listing adds just the units that are listed. -/
theorem Distinct.mem_addAll {pool : UnitList} (distinct : pool.Distinct)
    (within : ∀ listed ∈ units, listed ∈ pool) (moreWithin : ∀ listed ∈ more, listed ∈ pool) :
    unit ∈ units.addAll more ↔ unit ∈ units ∨ unit ∈ more := by
  have bothWithin : ∀ listed ∈ units.addAll more, listed ∈ pool := fun listed member =>
    (mem_of_mem_addAll member).elim (within listed) (moreWithin listed)
  refine ⟨mem_of_mem_addAll, fun source => distinct.mem_of_has bothWithin ?_ ?_⟩
  · exact source.elim (within unit) (moreWithin unit)
  · rw [has_addAll]
    rcases source with old | new
    · simp [has_of_mem old]
    · simp [has_of_mem new]

/-! ## Striking -/

theorem removeAll_append (units gone others : UnitList) :
    units.removeAll (gone ++ others) = (units.removeAll gone).removeAll others :=
  List.foldl_append

/-- Striking one listing strikes the file where no file is listed twice. -/
theorem remove_of_distinct (distinct : units.Distinct) (unit : SourceUnit) :
    units.remove unit = units.filter fun listed => !listed.sameFile unit := by
  induction units with
  | nil => rfl
  | cons head tail ih =>
    obtain ⟨absent, distinct⟩ := distinct_cons.mp distinct
    simp only [remove] at ih
    cases same : head.sameFile unit with
    | false => simp [remove, same, ih distinct]
    | true =>
      have equal : head.path = unit.path := by simpa [SourceUnit.sameFile] using same
      have untouched : tail.filter (fun listed => !listed.sameFile unit) = tail := by
        apply List.filter_eq_self.mpr
        intro listed member
        have apart : listed.path ≠ head.path := fun clash =>
          Bool.false_ne_true (absent ▸ has_iff.mpr ⟨listed, member, clash⟩)
        simpa [SourceUnit.sameFile, ← equal] using apart
      simp [remove, same, untouched]

theorem removeAll_of_distinct (distinct : units.Distinct) (gone : UnitList) :
    units.removeAll gone = units.filter fun unit => !gone.has unit := by
  induction gone generalizing units with
  | nil => simp [removeAll]
  | cons first rest ih =>
    have step : units.removeAll (first :: rest) = (units.remove first).removeAll rest := rfl
    rw [step, remove_of_distinct distinct, ih (distinct.filter _), List.filter_filter]
    apply List.filter_congr
    intro unit _
    simp [SourceUnit.sameFile, eq_comm, Bool.and_comm]

end ChunkPlan.UnitList
