import ChunkPlan.Proofs.UnitList
import Mathlib.Logic.Relation

/-!
# Load orders

What it means for units to be listed after what they require.  Requirements are looked up in a pool
of units; nothing here depends on how a list was made.
-/

set_option autoImplicit false

namespace ChunkPlan.UnitList

variable {pool units more : UnitList} {unit other : SourceUnit} {name : String}
  {exempt given : SourceUnit → Prop}

/-- A unit of a pool that provides a namespace. -/
def Provider (pool : UnitList) (name : String) (unit : SourceUnit) : Prop :=
  unit ∈ pool ∧ name ∈ unit.provides

/-- A unit requires a namespace that another unit of the pool provides. -/
def Requires (pool : UnitList) (unit other : SourceUnit) : Prop :=
  ∃ name ∈ unit.requires, Provider pool name other

/-- A unit needs another one after any number of requires, none included. -/
abbrev Reaches (pool : UnitList) : SourceUnit → SourceUnit → Prop :=
  Relation.ReflTransGen (Requires pool)

/-- A pool in which paths tell units apart and every namespace has one provider at most. -/
structure Consistent (pool : UnitList) : Prop where
  distinct : pool.Distinct
  single : ∀ name left right, Provider pool name left → Provider pool name right → left = right

/-- Every unit, the exempt ones apart, comes after the providers of all that it requires, as far as
these are not given beforehand. -/
def Arranged (pool : UnitList) (exempt given : SourceUnit → Prop) (units : UnitList) : Prop :=
  ∀ before unit after, units = before ++ unit :: after → ¬exempt unit → ∀ name ∈ unit.requires,
    ∃ provider, Provider pool name provider ∧ (given provider ∨ provider ∈ before)

/-- Units of a pool that can be loaded one after the other: none comes twice, and each one comes
after all that it requires. -/
structure LoadOrder (pool units : UnitList) : Prop where
  distinct : units.Distinct
  within : ∀ unit ∈ units, unit ∈ pool
  arranged : Arranged pool (fun _ => False) (fun _ => False) units

@[simp] theorem arranged_nil : Arranged pool exempt given [] := by
  intro before unit after split
  simp at split

theorem arranged_concat :
    Arranged pool exempt given (units ++ [unit]) ↔
      Arranged pool exempt given units ∧ (¬exempt unit → ∀ name ∈ unit.requires,
        ∃ provider, Provider pool name provider ∧ (given provider ∨ provider ∈ units)) := by
  constructor
  · intro arranged
    refine ⟨fun before earlier after split => ?_, arranged units unit [] rfl⟩
    exact arranged before earlier (after ++ [unit]) (by simp [split])
  · intro ⟨arranged, last⟩ before other after split
    rcases List.eq_nil_or_concat after with rfl | ⟨rest, final, rfl⟩
    · obtain ⟨rfl, same⟩ := List.append_inj' split rfl
      cases same
      exact last
    · have shorter : units = before ++ other :: rest := by
        rw [List.concat_eq_append, ← List.cons_append, ← List.append_assoc] at split
        exact (List.append_inj' split rfl).1
      exact arranged before other rest shorter

theorem Arranged.mono {wider : SourceUnit → Prop} (arranged : Arranged pool exempt given units)
    (within : ∀ unit, given unit → wider unit) : Arranged pool exempt wider units := by
  intro before unit after split required name member
  obtain ⟨provider, provides, available⟩ := arranged before unit after split required name member
  exact ⟨provider, provides, available.imp_left (within provider)⟩

theorem Arranged.append (first : Arranged pool exempt given units)
    (second : Arranged pool exempt (fun unit => given unit ∨ unit ∈ units) more) :
    Arranged pool exempt given (units ++ more) := by
  induction more using List.reverseRecOn with
  | nil => simpa using first
  | append_singleton rest last ih =>
    obtain ⟨restArranged, lastMet⟩ := arranged_concat.mp second
    rw [← List.append_assoc]
    refine arranged_concat.mpr ⟨ih restArranged, fun required name member => ?_⟩
    obtain ⟨provider, provides, available⟩ := lastMet required name member
    refine ⟨provider, provides, ?_⟩
    rw [List.mem_append]
    rwa [or_assoc] at available

theorem Arranged.flatMap {α : Type} {items : List α} {listing : α → UnitList}
    (each : ∀ item ∈ items, Arranged pool exempt given (listing item)) :
    Arranged pool exempt given (items.flatMap listing) := by
  induction items with
  | nil => exact arranged_nil
  | cons item items ih =>
    obtain ⟨first, rest⟩ := List.forall_mem_cons.mp each
    rw [List.flatMap_cons]
    exact first.append ((ih rest).mono fun _ => .inl)

/-- Repeating a unit later changes nothing. -/
theorem Arranged.addAll_nil (distinct : pool.Distinct) (within : ∀ unit ∈ units, unit ∈ pool)
    (arranged : Arranged pool exempt given units) :
    Arranged pool exempt given (UnitList.addAll [] units) := by
  induction units using List.reverseRecOn with
  | nil => exact arranged_nil
  | append_singleton rest last ih =>
    obtain ⟨restArranged, lastMet⟩ := arranged_concat.mp arranged
    have restWithin : ∀ unit ∈ rest, unit ∈ pool := fun unit member =>
      within unit (List.mem_append_left _ member)
    rw [addAll_concat]
    cases known : (UnitList.addAll [] rest).has last with
    | true =>
      rw [add_of_has known]
      exact ih restWithin restArranged
    | false =>
      rw [add_of_not_has known]
      refine arranged_concat.mpr ⟨ih restWithin restArranged, fun required name member => ?_⟩
      obtain ⟨provider, provides, available⟩ := lastMet required name member
      refine ⟨provider, provides, available.imp_right fun earlier => ?_⟩
      refine distinct.mem_of_has (fun unit listed => ?_) provides.1 ?_
      · rcases mem_of_mem_addAll listed with none | listed
        · cases none
        · exact restWithin unit listed
      · simp [has_addAll, has_of_mem earlier]

/-- What a kept unit requires is kept too or given. -/
theorem Arranged.filter {keep : SourceUnit → Bool}
    (arranged : Arranged pool exempt given units)
    (closed : ∀ unit ∈ units, keep unit = true → ¬exempt unit → ∀ provider ∈ units,
      Requires pool unit provider → keep provider = true ∨ given provider) :
    Arranged pool exempt given (units.filter keep) := by
  induction units using List.reverseRecOn with
  | nil => exact arranged_nil
  | append_singleton rest last ih =>
    obtain ⟨restArranged, lastMet⟩ := arranged_concat.mp arranged
    have restKept : Arranged pool exempt given (rest.filter keep) := by
      apply ih restArranged
      intro unit member kept required provider listed requires
      exact closed unit (List.mem_append_left _ member) kept required provider
        (List.mem_append_left _ listed) requires
    rw [List.filter_append]
    cases kept : keep last with
    | false => simpa [kept] using restKept
    | true =>
      have alone : [last].filter keep = [last] := by simp [kept]
      rw [alone]
      refine arranged_concat.mpr ⟨restKept, fun required name member => ?_⟩
      obtain ⟨provider, provides, available⟩ := lastMet required name member
      refine ⟨provider, provides, ?_⟩
      rcases available with granted | earlier
      · exact .inl granted
      · rcases closed last (by simp) kept required provider (List.mem_append_left _ earlier)
          ⟨name, member, provides⟩ with alsoKept | granted
        · exact .inr (List.mem_filter.mpr ⟨earlier, alsoKept⟩)
        · exact .inl granted

/-! ## Load orders -/

namespace LoadOrder

theorem nil : LoadOrder pool [] := ⟨distinct_nil, by simp, arranged_nil⟩

theorem concat (order : LoadOrder pool units) (member : unit ∈ pool)
    (fresh : units.has unit = false)
    (met : ∀ name ∈ unit.requires, ∃ provider ∈ units, Provider pool name provider) :
    LoadOrder pool (units ++ [unit]) := by
  refine ⟨distinct_append_singleton.mpr ⟨fresh, order.distinct⟩, fun other listed => ?_,
    arranged_concat.mpr ⟨order.arranged, fun _ name required => ?_⟩⟩
  · rcases List.mem_append.mp listed with old | new
    · exact order.within other old
    · exact List.mem_singleton.mp new ▸ member
  · obtain ⟨provider, listed, provides⟩ := met name required
    exact ⟨provider, provides, .inr listed⟩

theorem of_concat (order : LoadOrder pool (units ++ [unit])) :
    LoadOrder pool units ∧ units.has unit = false ∧
      ∀ name ∈ unit.requires, ∃ provider ∈ units, Provider pool name provider := by
  obtain ⟨fresh, distinct⟩ := distinct_append_singleton.mp order.distinct
  obtain ⟨arranged, met⟩ := arranged_concat.mp order.arranged
  refine ⟨⟨distinct, fun other listed => order.within other (List.mem_append_left _ listed),
    arranged⟩, fresh, fun name required => ?_⟩
  obtain ⟨provider, provides, available⟩ := met id name required
  exact ⟨provider, available.resolve_left id, provides⟩

/-- Whatever a listed unit requires is provided by a listed unit. -/
theorem met (order : LoadOrder pool units) (member : unit ∈ units) (required : name ∈ unit.requires) :
    ∃ provider ∈ units, Provider pool name provider := by
  obtain ⟨before, after, split⟩ := List.append_of_mem member
  obtain ⟨provider, provides, available⟩ := order.arranged before unit after split id name required
  exact ⟨provider, split ▸ List.mem_append_left _ (available.resolve_left id), provides⟩

private theorem mem_of_requires (consistent : pool.Consistent) (order : LoadOrder pool units)
    (member : unit ∈ units) (requires : Requires pool unit other) : other ∈ units := by
  obtain ⟨name, required, provides⟩ := requires
  obtain ⟨provider, listed, alsoProvides⟩ := order.met member required
  exact consistent.single name provider other alsoProvides provides ▸ listed

theorem mem_of_reaches (consistent : pool.Consistent) (order : LoadOrder pool units)
    (member : unit ∈ units) (reaches : Reaches pool unit other) : other ∈ units := by
  induction reaches with
  | refl => exact member
  | tail _ last ih => exact order.mem_of_requires consistent ih last

/-- No unit of a load order needs itself: what it requires comes strictly before it. -/
theorem acyclic (consistent : pool.Consistent) (order : LoadOrder pool units)
    (member : unit ∈ units) : ¬Relation.TransGen (Requires pool) unit unit := by
  induction units using List.reverseRecOn with
  | nil => simp at member
  | append_singleton rest last ih =>
    obtain ⟨restOrder, fresh, met⟩ := order.of_concat
    rcases List.mem_append.mp member with old | new
    · exact ih restOrder old
    · obtain rfl := List.mem_singleton.mp new
      intro cycle
      obtain ⟨next, ⟨name, required, provides⟩, back⟩ := Relation.TransGen.head'_iff.mp cycle
      obtain ⟨provider, listed, alsoProvides⟩ := met name required
      obtain rfl := consistent.single name provider next alsoProvides provides
      have inside := restOrder.mem_of_reaches consistent listed back
      exact Bool.false_ne_true (fresh ▸ has_of_mem inside)

theorem add (order : LoadOrder pool units) (member : unit ∈ pool)
    (met : ∀ name ∈ unit.requires, ∃ provider ∈ units, Provider pool name provider) :
    LoadOrder pool (units.add unit) := by
  cases known : units.has unit with
  | true =>
    rw [add_of_has known]
    exact order
  | false =>
    rw [add_of_not_has known]
    exact order.concat member known met

/-- Listing one load order after another one gives a load order. -/
theorem addAll (consistent : pool.Consistent) (order : LoadOrder pool units)
    (moreOrder : LoadOrder pool more) : LoadOrder pool (units.addAll more) := by
  induction more using List.reverseRecOn with
  | nil => exact order
  | append_singleton rest last ih =>
    obtain ⟨restOrder, _, met⟩ := moreOrder.of_concat
    have merged := ih restOrder
    rw [addAll_concat]
    apply merged.add (moreOrder.within last (by simp))
    intro name required
    obtain ⟨provider, listed, provides⟩ := met name required
    refine ⟨provider, ?_, provides⟩
    exact (consistent.distinct.mem_addAll order.within restOrder.within).mpr (.inr listed)

end LoadOrder

end ChunkPlan.UnitList
