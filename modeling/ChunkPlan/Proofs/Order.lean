import ChunkPlan.Text.Order
import Mathlib.Data.List.Induction
import Mathlib.Data.List.Nodup
import Mathlib.Data.String.Basic

/-!
# Texts in order

What sorting keeps and gives, what a search through texts in descending order finds, and in which
order texts stand that are kept once each.
-/

set_option autoImplicit false

namespace ChunkPlan.Text

variable {texts : List String} {text : String}

theorem mem_sorted : text ∈ sorted texts ↔ text ∈ texts := List.mem_mergeSort

theorem perm_sorted (texts : List String) : (sorted texts).Perm texts := List.mergeSort_perm _ _

theorem precedes_trans (a b c : String) (first : precedes a b = true)
    (second : precedes b c = true) : precedes a c = true :=
  decide_eq_true (String.le_trans (of_decide_eq_true first) (of_decide_eq_true second))

theorem precedes_total (a b : String) : (precedes a b || precedes b a) = true := by
  simpa [precedes] using String.le_total a b

theorem ascending_sorted (texts : List String) : (sorted texts).Pairwise (· ≤ ·) :=
  (List.pairwise_mergeSort precedes_trans precedes_total texts).imp of_decide_eq_true

/-- Texts that differ are sorted in strict order. -/
theorem strictly_ascending_sorted {texts : List String} (distinct : texts.Nodup) :
    (sorted texts).Pairwise (· < ·) := by
  have apart : (sorted texts).Nodup := (perm_sorted texts).nodup_iff.mpr distinct
  exact (ascending_sorted texts).imp₂ (fun _ _ before differ => lt_of_le_of_ne before differ) apart

/-- Pairs are sorted by their first texts. -/
theorem ascending_mergeSort_fst {α : Type} (pairs : List (String × α)) :
    (pairs.mergeSort fun a b => precedes a.1 b.1).Pairwise fun a b => a.1 ≤ b.1 := by
  have sorts := @List.pairwise_mergeSort _ (fun a b : String × α => precedes a.1 b.1)
    (fun a b c => precedes_trans a.1 b.1 c.1) (fun a b => precedes_total a.1 b.1) pairs
  exact sorts.imp of_decide_eq_true

theorem strictly_ascending_mergeSort_fst {α : Type} {pairs : List (String × α)}
    (distinct : (pairs.map Prod.fst).Nodup) :
    (pairs.mergeSort fun a b => precedes a.1 b.1).Pairwise fun a b => a.1 < b.1 := by
  have perm := List.mergeSort_perm pairs fun a b => precedes a.1 b.1
  have apart := List.pairwise_map.mp ((perm.map Prod.fst).nodup_iff.mpr distinct)
  exact (ascending_mergeSort_fst pairs).imp₂ (fun _ _ before differ => lt_of_le_of_ne before differ)
    apart

theorem sorted_of_ascending (ascending : texts.Pairwise (· ≤ ·)) : sorted texts = texts :=
  List.mergeSort_of_pairwise (ascending.imp fun before => decide_eq_true before)

theorem mem_of_lt_of_descending {before after : List String} {other : String}
    (descending : (before ++ text :: after).Pairwise fun a b => b ≤ a)
    (member : other ∈ before ++ text :: after) (above : text < other) : other ∈ before := by
  obtain ⟨-, behind, -⟩ := List.pairwise_append.mp descending
  rcases List.mem_append.mp member with member | member
  · exact member
  · rcases List.mem_cons.mp member with rfl | member
    · exact absurd above (String.lt_irrefl _)
    · exact absurd ((List.pairwise_cons.mp behind).1 other member) (String.not_le.mpr above)

/-- In descending order the search finds the last one that fits. -/
theorem find?_eq_some_iff_of_descending {fits : String → Bool}
    (descending : texts.Pairwise fun a b => b ≤ a) :
    texts.find? fits = some text ↔
      text ∈ texts ∧ fits text = true ∧ ∀ other ∈ texts, text < other → fits other = false := by
  constructor
  · intro found
    obtain ⟨suits, before, after, rfl, earlier⟩ := List.find?_eq_some_iff_append.mp found
    refine ⟨List.mem_append_right _ List.mem_cons_self, suits, fun other member above => ?_⟩
    simpa using earlier other (mem_of_lt_of_descending descending member above)
  · rintro ⟨member, suits, refused⟩
    cases found : texts.find? fits with
    | none => exact absurd suits (List.find?_eq_none.mp found text member)
    | some first =>
      obtain ⟨fitsFirst, before, after, rfl, earlier⟩ := List.find?_eq_some_iff_append.mp found
      rcases lt_trichotomy first text with below | same | above
      · have fails := earlier text (mem_of_lt_of_descending descending member below)
        rw [suits] at fails
        cases fails
      · rw [same]
      · have fails := refused first (List.mem_append_right _ List.mem_cons_self) above
        rw [fitsFirst] at fails
        cases fails

/-! ## Texts kept once -/

theorem eraseDups_concat : (texts ++ [text]).eraseDups =
    if text ∈ texts then texts.eraseDups else texts.eraseDups ++ [text] := by
  rw [List.eraseDups_append]
  by_cases member : text ∈ texts <;> simp [List.removeAll, member, List.eraseDups_cons]

/-- Of two texts that are kept, the first listing of the one kept earlier stands before all listings
of the other one. -/
theorem pairwise_eraseDups (texts : List String) :
    texts.eraseDups.Pairwise fun first second => first ≠ second ∧
      ∃ before after, texts = before ++ first :: after ∧ second ∉ before := by
  induction texts using List.reverseRecOn with
  | nil => simp
  | append_singleton texts last ih =>
    have grown : texts.eraseDups.Pairwise fun first second => first ≠ second ∧
        ∃ before after, texts ++ [last] = before ++ first :: after ∧ second ∉ before := by
      refine ih.imp fun kept => ?_
      obtain ⟨apart, before, after, rfl, absent⟩ := kept
      exact ⟨apart, before, after ++ [last], by simp, absent⟩
    rw [eraseDups_concat]
    split
    · exact grown
    · next fresh =>
      refine List.pairwise_append.mpr ⟨grown, List.pairwise_singleton _ _, fun first kept second new => ?_⟩
      obtain rfl := List.mem_singleton.mp new
      have member := List.mem_eraseDups.mp kept
      obtain ⟨before, after, rfl⟩ := List.append_of_mem member
      refine ⟨fun same => fresh (same ▸ member), before, after ++ [second], by simp, fun earlier => ?_⟩
      exact fresh (List.mem_append_left _ earlier)

theorem nodup_eraseDups (texts : List String) : texts.eraseDups.Nodup :=
  (pairwise_eraseDups texts).imp And.left

end ChunkPlan.Text
