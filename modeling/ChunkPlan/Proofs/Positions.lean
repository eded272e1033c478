import ChunkPlan.Source.Position
import Mathlib.Data.List.Infix

/-!
# Positions as counts

A position counts the line breaks before it and the characters since the last one.  Within one
source it therefore tells how much of the source stands before it.
-/

set_option autoImplicit false

namespace ChunkPlan.Position

variable {c : Char} {before left right chars : List Char}

/-- The position behind some characters: the line after as many line breaks, and the column after
the characters since the last of them. -/
def behind (before : List Char) : Position :=
  ⟨1 + before.count '\n', 1 + (before.reverse.takeWhile (· ≠ '\n')).length⟩

private theorem next_behind : (behind before).next c = behind (before ++ [c]) := by
  unfold next behind
  by_cases line : c = '\n'
  · rw [if_pos line, line]
    simp [Nat.add_assoc]
  · rw [if_neg line]
    simp [line, Nat.add_assoc, Nat.add_comm 1]

theorem after_behind : (behind left).after right = behind (left ++ right) := by
  induction right generalizing left with
  | nil => simp
  | cons c right ih =>
    have step : (behind left).after (c :: right) = ((behind left).next c).after right := rfl
    rw [step, next_behind, ih, List.append_assoc]
    rfl

theorem start_eq : start = behind [] := rfl

theorem eq_nil_of_behind_append (same : behind (left ++ right) = behind left) : right = [] := by
  simp only [behind, Position.mk.injEq, List.count_append, List.reverse_append] at same
  obtain ⟨lines, columns⟩ := same
  -- Without a line break in between, every character moves the column.
  have free : right.count '\n' = 0 := by omega
  have plain : ∀ d ∈ right.reverse, decide (d ≠ '\n') = true := by
    intro d member
    have present := List.mem_reverse.mp member
    refine decide_eq_true fun line => ?_
    exact List.count_eq_zero.mp free (line ▸ present)
  rw [List.takeWhile_append_of_pos plain, List.length_append, List.length_reverse] at columns
  exact List.length_eq_zero_iff.mp (by omega)

/-- Two parts that a source begins with are the same if they end at the same position. -/
theorem eq_of_behind_eq (first : left <+: chars) (second : right <+: chars)
    (same : behind left = behind right) : left = right := by
  rcases List.prefix_or_prefix_of_prefix first second with ⟨more, rfl⟩ | ⟨more, rfl⟩
  · rw [eq_nil_of_behind_append same.symm, List.append_nil]
  · rw [eq_nil_of_behind_append same, List.append_nil]

end ChunkPlan.Position
