import ChunkPlan.Dependency.Catalog
import ChunkPlan.Proofs.Entries
import ChunkPlan.Proofs.LoadOrder

/-!
# What a catalog says of its units

A catalog that can be made at all names for every provided namespace the last unit that provides it,
and all units that provide one namespace are the same file.
-/

set_option autoImplicit false

namespace ChunkPlan

namespace UnitList

variable {units : UnitList} {unit last : SourceUnit} {name : String}

/-- All units that provide one namespace are the same file. -/
def Agreeing (units : UnitList) : Prop :=
  ∀ name left right, Provider units name left → Provider units name right → left.path = right.path

/-- The last one of some units that provides a namespace. -/
def LastProvider (units : UnitList) (name : String) (unit : SourceUnit) : Prop :=
  ∃ before after, units = before ++ unit :: after ∧ name ∈ unit.provides ∧
    ∀ later ∈ after, name ∉ later.provides

theorem provider_concat : Provider (units ++ [last]) name unit ↔
    Provider units name unit ∨ unit = last ∧ name ∈ last.provides := by
  rw [Provider, Provider, List.mem_append, List.mem_singleton, or_and_right]
  refine or_congr_right (and_congr_right fun same => ?_)
  rw [same]

theorem agreeing_nil : Agreeing [] := by
  intro name left right first
  cases first.1

theorem agreeing_concat : Agreeing (units ++ [last]) ↔
    Agreeing units ∧ ∀ name ∈ last.provides, ∀ unit, Provider units name unit → unit.path = last.path := by
  constructor
  · intro agreeing
    refine ⟨fun name left right first second => ?_, fun name provides unit provider => ?_⟩
    · exact agreeing name left right (provider_concat.mpr (.inl first)) (provider_concat.mpr (.inl second))
    · exact agreeing name unit last (provider_concat.mpr (.inl provider))
        (provider_concat.mpr (.inr ⟨rfl, provides⟩))
  · intro joined name left right first second
    obtain ⟨agreeing, joins⟩ := joined
    rcases provider_concat.mp first with earlier | ⟨rfl, provides⟩ <;>
      rcases provider_concat.mp second with alsoEarlier | ⟨rfl, alsoProvides⟩
    · exact agreeing name left right earlier alsoEarlier
    · exact joins name alsoProvides left earlier
    · exact (joins name provides right alsoEarlier).symm
    · rfl

theorem not_lastProvider_nil : ¬LastProvider [] name unit := by
  intro ends
  obtain ⟨before, after, split, _⟩ := ends
  simp at split

theorem lastProvider_concat : LastProvider (units ++ [last]) name unit ↔
    if name ∈ last.provides then unit = last else LastProvider units name unit := by
  constructor
  · intro ends
    obtain ⟨before, after, split, provides, silent⟩ := ends
    rcases List.eq_nil_or_concat after with rfl | ⟨rest, final, rfl⟩
    · obtain ⟨_, same⟩ := List.append_inj' split rfl
      cases same
      exact (if_pos provides).mpr rfl
    · rw [List.concat_eq_append] at split silent
      obtain ⟨shorter, same⟩ := List.append_inj' (split.trans (List.append_assoc before (unit :: rest) [final]).symm) rfl
      cases same
      rw [if_neg (silent last (by simp))]
      exact ⟨before, rest, shorter, provides, fun later member => silent later (by simp [member])⟩
  · intro ends
    split at ends
    · next provides =>
      subst ends
      exact ⟨units, [], rfl, provides, by simp⟩
    · next absent =>
      obtain ⟨before, after, rfl, provides, silent⟩ := ends
      refine ⟨before, after ++ [last], by simp, provides, fun later member => ?_⟩
      rcases List.mem_append.mp member with old | new
      · exact silent later old
      · exact List.mem_singleton.mp new ▸ absent

theorem LastProvider.provider (ends : LastProvider units name unit) : Provider units name unit := by
  obtain ⟨before, after, rfl, provides, _⟩ := ends
  exact ⟨by simp, provides⟩

theorem exists_lastProvider (provider : Provider units name unit) :
    ∃ last, LastProvider units name last := by
  induction units using List.reverseRecOn with
  | nil => cases provider.1
  | append_singleton units last ih =>
    simp only [lastProvider_concat]
    by_cases provides : name ∈ last.provides
    · exact ⟨last, (if_pos provides).mpr rfl⟩
    · simp only [if_neg provides]
      exact ih ((provider_concat.mp provider).resolve_right fun here => provides here.2)

end UnitList

namespace Catalog

open UnitList

variable {catalog : Catalog} {pool units before left right : UnitList}
  {providers after : Entries SourceUnit} {unit : SourceUnit} {name : String}

/-- A catalog that tells exactly which units of a pool provide what. -/
structure Describes (catalog : Catalog) (pool : UnitList) : Prop extends pool.Consistent where
  provider : ∀ name unit, catalog.provider? name = some unit ↔ Provider pool name unit

/-- Providers that tell for each namespace the last one of some units that provides it. -/
structure Records (units : UnitList) (providers : Entries SourceUnit) : Prop where
  unique : providers.keys.Nodup
  last : ∀ name unit, providers.find? name = some unit ↔ LastProvider units name unit

theorem record_ok (ok : record providers unit name = .ok after) :
    after = providers.put name unit ∧
      ∀ known, providers.find? name = some known → known.path = unit.path := by
  unfold record at ok
  cases found : providers.find? name with
  | none =>
    simp only [found, Except.ok.injEq] at ok
    exact ⟨ok.symm, by simp⟩
  | some known =>
    cases same : known.sameFile unit with
    | false => simp [found, same] at ok
    | true =>
      simp only [found, same, ↓reduceIte, Except.ok.injEq] at ok
      refine ⟨ok.symm, fun other agree => ?_⟩
      cases agree
      simpa [SourceUnit.sameFile] using same

private theorem recordAll_ok {names : List String}
    (ok : names.foldlM (fun providers name => record providers unit name) providers = .ok after)
    (name : String) :
    (after.find? name = if name ∈ names then some unit else providers.find? name) ∧
      (name ∈ names → ∀ known, providers.find? name = some known → known.path = unit.path) := by
  induction names generalizing providers with
  | nil =>
    cases ok
    simp
  | cons first rest ih =>
    rw [List.foldlM_cons] at ok
    obtain ⟨middle, recorded, ok⟩ := of_bind_ok ok
    obtain ⟨rfl, agree⟩ := record_ok recorded
    obtain ⟨found, restAgree⟩ := ih ok
    rw [Entries.find?_put] at found restAgree
    constructor
    · rw [found]
      by_cases same : name = first <;> by_cases member : name ∈ rest <;>
        simp [same, member, Ne.symm]
    · intro member known selected
      rcases List.mem_cons.mp member with rfl | member
      · exact agree known selected
      · by_cases same : first = name
        · exact agree known (same ▸ selected)
        · exact restAgree member known (by simp [same, selected])

/-- Recording a unit gives it all its namespaces, which only the same file had before. -/
theorem recordUnit_ok (ok : recordUnit providers unit = .ok after) (name : String) :
    (after.find? name = if name ∈ unit.provides then some unit else providers.find? name) ∧
      (name ∈ unit.provides → ∀ known, providers.find? name = some known →
        known.path = unit.path) :=
  recordAll_ok ok name

private theorem nodup_keys_recordUnit (unique : providers.keys.Nodup)
    (ok : recordUnit providers unit = .ok after) : after.keys.Nodup := by
  unfold recordUnit at ok
  generalize unit.provides = names at ok
  induction names generalizing providers with
  | nil =>
    cases ok
    exact unique
  | cons first rest ih =>
    rw [List.foldlM_cons] at ok
    obtain ⟨middle, recorded, ok⟩ := of_bind_ok ok
    obtain ⟨rfl, _⟩ := record_ok recorded
    exact ih (Entries.nodup_keys_put unique) ok

namespace Records

theorem nil : Records [] [] := by
  refine ⟨List.nodup_nil, fun name unit => ?_⟩
  simp [not_lastProvider_nil]

theorem concat (records : Records units providers) (ok : recordUnit providers unit = .ok after) :
    Records (units ++ [unit]) after := by
  refine ⟨nodup_keys_recordUnit records.unique ok, fun name known => ?_⟩
  rw [(recordUnit_ok ok name).1, lastProvider_concat]
  split
  · rw [Option.some.injEq, eq_comm]
  · exact records.last name known

theorem mem_keys_iff (records : Records units providers) :
    name ∈ providers.keys ↔ ∃ unit, Provider units name unit := by
  rw [← Entries.has_iff_mem_keys, Entries.has, Option.isSome_iff_exists]
  simp only [records.last]
  constructor
  · intro recorded
    obtain ⟨unit, ends⟩ := recorded
    exact ⟨unit, ends.provider⟩
  · intro provided
    obtain ⟨unit, provider⟩ := provided
    exact exists_lastProvider provider

/-- Where units agree, what is recorded for a namespace stands for all that provide it. -/
theorem path_eq_iff (records : Records units providers) (agreeing : units.Agreeing) {path : String} :
    (∀ known, providers.find? name = some known → known.path = path) ↔
      ∀ unit, Provider units name unit → unit.path = path := by
  simp only [records.last]
  constructor
  · intro same unit provider
    obtain ⟨last, ends⟩ := exists_lastProvider provider
    exact (agreeing name unit last provider ends.provider).trans (same last ends)
  · intro same last ends
    exact same last ends.provider

theorem agreeing_concat (records : Records units providers) (agreeing : units.Agreeing)
    (ok : recordUnit providers unit = .ok after) : (units ++ [unit]).Agreeing := by
  refine UnitList.agreeing_concat.mpr ⟨agreeing, fun name provides => ?_⟩
  exact (records.path_eq_iff agreeing).mp ((recordUnit_ok ok name).2 provides)

end Records

private theorem recordUnits_ok (records : Records before providers) (agreeing : before.Agreeing)
    (ok : units.foldlM recordUnit providers = .ok after) :
    Records (before ++ units) after ∧ (before ++ units).Agreeing := by
  induction units generalizing before providers with
  | nil =>
    cases ok
    rw [List.append_nil]
    exact ⟨records, agreeing⟩
  | cons first rest ih =>
    rw [List.foldlM_cons] at ok
    obtain ⟨middle, recorded, ok⟩ := of_bind_ok ok
    rw [List.append_cons]
    exact ih (records.concat recorded) (records.agreeing_concat agreeing recorded) ok

private theorem ofUnits_eq_ok : ofUnits units = .ok catalog ↔
    units.foldlM recordUnit [] = .ok catalog.providers := by
  unfold ofUnits
  cases units.foldlM recordUnit [] with
  | error error => simp [Except.map]
  | ok providers =>
    obtain ⟨known⟩ := catalog
    simp [Except.map]

/-- The units of a catalog agree, and for each namespace it names the last one that provides it. -/
theorem records_of_ofUnits (built : ofUnits units = .ok catalog) :
    Records units catalog.providers ∧ units.Agreeing :=
  recordUnits_ok .nil agreeing_nil (ofUnits_eq_ok.mp built)

/-- A unit that provides nothing is not seen in the catalog. -/
theorem ofUnits_of_provides_nil (silent : unit.provides = []) :
    ofUnits (left ++ unit :: right) = ofUnits (left ++ right) := by
  have skipped (providers : Entries SourceUnit) : recordUnit providers unit = .ok providers := by
    rw [recordUnit, silent]
    rfl
  rw [ofUnits, ofUnits, List.foldlM_append, List.foldlM_append]
  simp only [List.foldlM_cons, skipped]
  rfl

/-- The catalog of units with different paths tells exactly which of them provide what. -/
theorem describes_of_ofUnits (distinct : pool.Distinct) (built : ofUnits pool = .ok catalog) :
    catalog.Describes pool := by
  obtain ⟨records, agreeing⟩ := records_of_ofUnits built
  have single (name : String) (left right : SourceUnit) (first : Provider pool name left)
      (second : Provider pool name right) : left = right :=
    distinct.eq_of_path first.1 second.1 (agreeing name left right first second)
  refine ⟨⟨distinct, single⟩, fun name unit => (records.last name unit).trans ⟨?_, fun provider => ?_⟩⟩
  · exact LastProvider.provider
  · obtain ⟨last, ends⟩ := exists_lastProvider provider
    exact single name last unit ends.provider provider ▸ ends

end Catalog

end ChunkPlan
