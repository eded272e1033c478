import ChunkPlan.Entries
import Mathlib.Data.List.Nodup
import Mathlib.Data.List.Perm.Subperm

/-!
# Maps with their keys in order

What writing and removing leave under each key, and when the entries are just the pairs that were
written.
-/

set_option autoImplicit false

namespace ChunkPlan.Entries

variable {α : Type} {entries : Entries α} {pairs : List (String × α)} {key other : String} {value : α}

theorem mem_of_find? (found : entries.find? key = some value) : (key, value) ∈ entries := by
  induction entries with
  | nil => cases found
  | cons entry rest ih =>
    obtain ⟨first, stored⟩ := entry
    rw [find?] at found
    split at found
    · next same =>
      cases found
      simp [same]
    · exact List.mem_cons_of_mem _ (ih found)

theorem mem_put {entry : String × α} (member : entry ∈ entries.put key value) :
    entry ∈ entries ∨ entry = (key, value) := by
  induction entries with
  | nil => exact .inr (List.mem_singleton.mp member)
  | cons first rest ih =>
    rw [put] at member
    split at member
    · next same =>
      rcases List.mem_cons.mp member with rfl | member
      · exact .inr (by rw [same])
      · exact .inl (List.mem_cons_of_mem _ member)
    · rcases List.mem_cons.mp member with rfl | member
      · exact .inl (List.mem_cons_self ..)
      · exact (ih member).imp_left (List.mem_cons_of_mem _)

theorem mem_putAll {entry : String × α} (member : entry ∈ entries.putAll pairs) :
    entry ∈ entries ∨ entry ∈ pairs := by
  induction pairs generalizing entries with
  | nil => exact .inl member
  | cons pair pairs ih =>
    rcases ih member with earlier | later
    · exact (mem_put earlier).imp_right fun same => List.mem_cons.mpr (.inl same)
    · exact .inr (List.mem_cons_of_mem _ later)

theorem mem_ofPairs {entry : String × α} (member : entry ∈ ofPairs pairs) : entry ∈ pairs :=
  (mem_putAll member).resolve_left List.not_mem_nil

theorem find?_of_mem (unique : entries.keys.Nodup) (member : (key, value) ∈ entries) :
    entries.find? key = some value := by
  induction entries with
  | nil => cases member
  | cons entry rest ih =>
    obtain ⟨first, stored⟩ := entry
    obtain ⟨fresh, unique⟩ := List.nodup_cons.mp unique
    rw [find?]
    rcases List.mem_cons.mp member with same | later
    · cases same
      exact if_pos rfl
    · have present : key ∈ keys rest := List.mem_map.mpr ⟨(key, value), later, rfl⟩
      have apart : first ≠ key := fun same => fresh (by rwa [← same] at present)
      rw [if_neg apart]
      exact ih unique later

theorem remove_cons {entry : String × α} : remove (entry :: entries) other =
    if entry.1 = other then entries.remove other else entry :: entries.remove other := by
  by_cases same : entry.1 = other <;> simp [remove, same]

theorem find?_remove : (entries.remove other).find? key =
    if other = key then none else entries.find? key := by
  induction entries with
  | nil => simp [remove, find?]
  | cons entry rest ih =>
    obtain ⟨first, stored⟩ := entry
    rw [remove_cons]
    by_cases dropped : first = other
    · rw [if_pos dropped, ih, find?, dropped]
      by_cases same : other = key <;> simp [same]
    · rw [if_neg dropped, find?, find?, ih]
      by_cases same : other = key
      · have apart : first ≠ key := same ▸ dropped
        simp [same, apart]
      · simp [same]

theorem nodup_keys_put (unique : entries.keys.Nodup) : (entries.put key value).keys.Nodup := by
  rw [keys_put]
  split
  · exact unique
  · next fresh =>
    apply List.Nodup.append unique (List.nodup_singleton key)
    intro first member added
    exact fresh (List.mem_singleton.mp added ▸ member)

theorem nodup_keys_remove (unique : entries.keys.Nodup) : (entries.remove key).keys.Nodup :=
  List.Nodup.sublist (List.filter_sublist.map _) unique

theorem put_of_not_mem (fresh : key ∉ entries.keys) :
    entries.put key value = entries ++ [(key, value)] := by
  induction entries with
  | nil => rfl
  | cons entry rest ih =>
    obtain ⟨first, stored⟩ := entry
    obtain ⟨apart, fresh⟩ := List.ne_and_not_mem_of_not_mem_cons fresh
    rw [put, if_neg (Ne.symm apart), ih fresh]
    rfl

/-- Writing pairs with new keys appends them. -/
theorem putAll_of_nodup (unique : keys (entries ++ pairs) |>.Nodup) :
    entries.putAll pairs = entries ++ pairs := by
  induction pairs generalizing entries with
  | nil => simp [putAll]
  | cons pair rest ih =>
    have fresh : pair.1 ∉ entries.keys := by
      intro member
      rw [keys, List.map_append, List.nodup_append] at unique
      exact unique.2.2 pair.1 member pair.1 (by simp) rfl
    have written : entries.putAll (pair :: rest) = putAll (entries.put pair.1 pair.2) rest := rfl
    rw [written, put_of_not_mem fresh, ih (by simpa using unique), List.append_assoc]
    rfl

theorem putAll_nil_of_nodup (unique : (keys pairs).Nodup) : putAll [] pairs = pairs :=
  putAll_of_nodup unique

/-- Entries with the same keys are the same, up to their order, if one list has all of the other. -/
theorem perm_of_subset {others : Entries α} (unique : entries.keys.Nodup)
    (names : others.keys.Perm entries.keys) (all : others ⊆ entries) : others.Perm entries := by
  have once : others.Nodup := List.Nodup.of_map _ (names.nodup_iff.mpr unique)
  have many : entries.length ≤ others.length := by
    have lengths := names.length_eq
    rw [keys, keys, List.length_map, List.length_map] at lengths
    omega
  exact (once.subperm all).perm_of_length_le many

/-! ## The last pair under a key -/

/-- Whether a pair is the last one under its key. -/
def Last (pairs : List (String × α)) (key : String) (value : α) : Prop :=
  ∃ before after, pairs = before ++ (key, value) :: after ∧ key ∉ keys after

theorem putAll_append {more : List (String × α)} :
    entries.putAll (pairs ++ more) = (entries.putAll pairs).putAll more := List.foldl_append

theorem find?_putAll : (entries.putAll pairs).find? key =
    ((pairs.reverse.find? fun pair => pair.1 = key).map Prod.snd).or (entries.find? key) := by
  induction pairs generalizing entries with
  | nil => rfl
  | cons pair pairs ih =>
    have written : entries.putAll (pair :: pairs) = (entries.put pair.1 pair.2).putAll pairs := rfl
    rw [written, ih, find?_put, List.reverse_cons, List.find?_append, Option.map_or, Option.or_assoc,
      List.find?_singleton]
    congr 1
    by_cases same : pair.1 = key <;> simp [same]

theorem find?_ofPairs_eq_some : (ofPairs pairs).find? key = some value ↔ Last pairs key value := by
  rw [ofPairs, find?_putAll, find?_nil, Option.or_none, Option.map_eq_some_iff]
  constructor
  · rintro ⟨⟨first, stored⟩, found, rfl⟩
    obtain ⟨same, behind, front, split, fresh⟩ := List.find?_eq_some_iff_append.mp found
    obtain rfl : first = key := of_decide_eq_true same
    refine ⟨front.reverse, behind.reverse, ?_, ?_⟩
    · rw [← List.reverse_reverse pairs, split]
      simp
    · intro member
      obtain ⟨pair, listed, same⟩ := List.mem_map.mp member
      simpa [same] using fresh pair (List.mem_reverse.mp listed)
  · rintro ⟨before, after, rfl, fresh⟩
    refine ⟨(key, value), List.find?_eq_some_iff_append.mpr ⟨decide_eq_true rfl, after.reverse,
      before.reverse, by simp, fun pair listed => ?_⟩, rfl⟩
    have apart : pair.1 ≠ key := fun same =>
      fresh (List.mem_map.mpr ⟨pair, List.mem_reverse.mp listed, same⟩)
    simp [apart]

theorem nodup_keys_putAll (unique : entries.keys.Nodup) : (entries.putAll pairs).keys.Nodup := by
  induction pairs generalizing entries with
  | nil => exact unique
  | cons pair pairs ih => exact ih (nodup_keys_put unique)

theorem nodup_keys_ofPairs : (ofPairs pairs).keys.Nodup := nodup_keys_putAll List.nodup_nil

/-- Written pairs are left where they are the last ones under their keys. -/
theorem mem_ofPairs_iff : (key, value) ∈ ofPairs pairs ↔ Last pairs key value := by
  rw [← find?_ofPairs_eq_some]
  exact ⟨find?_of_mem nodup_keys_ofPairs, mem_of_find?⟩

/-- Pairs with different keys are all last. -/
theorem last_of_mem (member : (key, value) ∈ pairs)
    (single : ∀ other, (key, other) ∈ pairs → other = value) : Last pairs key value := by
  cases found : (ofPairs pairs).find? key with
  | some last =>
    have here := mem_ofPairs (mem_of_find? found)
    rw [single last here] at found
    exact find?_ofPairs_eq_some.mp found
  | none =>
    rw [ofPairs, find?_putAll, Option.or_eq_none_iff, Option.map_eq_none_iff] at found
    have missing := List.find?_eq_none.mp found.1 (key, value) (List.mem_reverse.mpr member)
    simp at missing

end ChunkPlan.Entries
