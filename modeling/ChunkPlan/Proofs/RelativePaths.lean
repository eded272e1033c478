import ChunkPlan.Proofs.Paths
import Mathlib.Data.List.DropRight

/-!
# Relative paths

A relative path leads from the directory it is made for back to where it comes from, wherever the
two stand.  Places below the root are lists of names here.
-/

set_option autoImplicit false

namespace ChunkPlan

namespace Text

variable {separator c : Char} {parts : List (List Char)}

private theorem mem_joinFields (member : c ∈ joinFields separator parts) :
    c = separator ∨ ∃ part ∈ parts, c ∈ part := by
  fun_induction joinFields separator parts with
  | case1 => cases member
  | case2 part => exact .inr ⟨part, List.mem_cons_self, member⟩
  | case3 part others _ ih =>
    rcases List.mem_append.mp member with inside | behind
    · exact .inr ⟨part, List.mem_cons_self, inside⟩
    · rcases List.mem_cons.mp behind with same | later
      · exact .inl same
      · exact (ih later).imp_right fun ⟨part, listed, inside⟩ =>
          ⟨part, List.mem_cons_of_mem _ listed, inside⟩

private theorem mem_joinFields_of_mem {part : List Char} (listed : part ∈ parts)
    (inside : c ∈ part) :
    c ∈ joinFields separator parts := by
  fun_induction joinFields separator parts with
  | case1 => cases listed
  | case2 only => rwa [← List.mem_singleton.mp listed]
  | case3 first others _ ih =>
    rcases List.mem_cons.mp listed with rfl | later
    · exact List.mem_append_left _ inside
    · exact List.mem_append_right _ (List.mem_cons_of_mem _ (ih later))

theorem joinFields_concat {last : List Char} (nonempty : parts ≠ []) :
    joinFields separator (parts ++ [last]) = joinFields separator parts ++ separator :: last := by
  fun_induction joinFields separator parts with
  | case1 => exact absurd rfl nonempty
  | case2 only => rfl
  | case3 first others apart ih =>
    have more : others ≠ [] := fun none => apart (by rw [none])
    rw [List.cons_append, joinFields, ih more, List.append_assoc, List.cons_append]
    simp [more]

end Text

namespace Path

variable {path start workingDirectory : String} {segments source target before : List Segment}

/-! ## Paths along names -/

/-- Whether a path is absolute and normal.  A second slash in front would count. -/
structure IsResolved (path : String) : Prop where
  absolute : isAbsolute path = true
  normal : normalize path = path
  single : ¬ ['/', '/'] <+: path.toList

/-- Whether a path leads down from the root along some names. -/
structure LeadsAlong (path : String) (segments : List Segment) : Prop where
  named : ∀ segment ∈ segments, IsName segment
  written : path.toList = '/' :: joinNames segments

theorem IsResolved.leadsAlong (resolved : IsResolved path) :
    ∃ segments, LeadsAlong path segments := by
  refine ⟨settle true (names path.toList), isName_of_mem_settle (proper_names _), ?_⟩
  have root : root path.toList = ['/'] := by
    have absolute := resolved.absolute
    rw [isAbsolute, decide_eq_true_eq] at absolute
    obtain ⟨rest, split⟩ := List.head?_eq_some_iff.mp absolute
    have single := resolved.single
    rw [split, List.cons_prefix_cons] at single
    rw [split]
    refine (root_append fun slash => single ⟨rfl, ?_⟩).2.1
    obtain ⟨others, rfl⟩ := List.head?_eq_some_iff.mp slash
    exact ⟨others, rfl⟩
  conv_lhs => rw [← resolved.normal, normalize, root, resolved.absolute]
  exact String.toList_ofList

namespace LeadsAlong

theorem names_eq (leads : LeadsAlong path segments) : names path.toList = segments := by
  rw [leads.written, names_slash, names_joinNames (proper_of_isName leads.named)]

private theorem root_eq (leads : LeadsAlong path segments) : root path.toList = ['/'] := by
  rw [leads.written]
  exact (root_append (head?_joinNames (proper_of_isName leads.named))).2.1

private theorem isAbsolute (leads : LeadsAlong path segments) : isAbsolute path = true := by
  rw [Path.isAbsolute, leads.written]
  rfl

private theorem normalize_eq (leads : LeadsAlong path segments) : normalize path = path := by
  apply String.toList_injective
  rw [normalize, leads.root_eq, leads.names_eq, settle_of_isName leads.named, leads.written]
  exact String.toList_ofList

theorem absolute_eq (leads : LeadsAlong path segments) : absolute workingDirectory path = path := by
  rw [absolute, join, if_pos leads.isAbsolute, leads.normalize_eq]

end LeadsAlong

/-! ## Steps up and down -/

private theorem foldl_walk_up {count : Nat} (named : ∀ segment ∈ before, IsName segment) :
    (List.replicate count up).foldl (walk true) before = before.drop count := by
  induction count generalizing before with
  | zero => rfl
  | succ count ih =>
    rw [List.replicate_succ, List.foldl_cons]
    cases before with
    | nil => simpa [walk] using ih named
    | cons last rest =>
      obtain ⟨first, others⟩ := List.forall_mem_cons.mp named
      have step : walk true (last :: rest) up = rest := by
        rw [walk, if_pos rfl]
        exact if_neg first.2.2.1
      rw [step, ih others, List.drop_succ_cons]

private theorem take_commonLength : ∀ source target : List Segment,
    source.take (commonLength source target) = target.take (commonLength source target)
  | [], _ => rfl
  | _ :: _, [] => by simp [commonLength]
  | a :: as, b :: bs => by
    rw [commonLength]
    split
    · next same => rw [same, List.take_succ_cons, List.take_succ_cons, take_commonLength as bs]
    · rfl

private theorem commonLength_le : ∀ source target : List Segment,
    commonLength source target ≤ source.length
  | [], _ => Nat.zero_le _
  | _ :: _, [] => Nat.zero_le _
  | a :: as, b :: bs => by
    rw [commonLength]
    split
    · exact Nat.succ_le_succ (commonLength_le as bs)
    · exact Nat.zero_le _

/-- The steps from one list of names to another. -/
def stepsBetween (source target : List Segment) : List Segment :=
  let shared := commonLength source target
  List.replicate (source.length - shared) up ++ target.drop shared

private theorem proper_stepsBetween (proper : Proper target) :
    Proper (stepsBetween source target) := by
  intro segment member
  rcases List.mem_append.mp member with climbs | down
  · rw [List.eq_of_mem_replicate climbs]
    decide
  · exact proper segment (List.mem_of_mem_drop down)

private theorem settle_stepsBetween (first : ∀ segment ∈ source, IsName segment)
    (second : ∀ segment ∈ target, IsName segment) :
    settle true (source ++ stepsBetween source target) = target := by
  have reversed : ∀ segment ∈ source.reverse, IsName segment :=
    fun segment member => first segment (List.mem_reverse.mp member)
  have down : ∀ segment ∈ target.drop (commonLength source target), IsName segment :=
    fun segment member => second segment (List.mem_of_mem_drop member)
  rw [settle, stepsBetween, List.foldl_append, List.foldl_append, foldl_walk_of_isName first,
    List.append_nil, foldl_walk_up reversed, foldl_walk_of_isName down, List.drop_reverse,
    List.reverse_append, List.reverse_reverse, List.reverse_reverse,
    Nat.sub_sub_self (commonLength_le source target), take_commonLength, List.take_append_drop]

/-! ## From a directory to a file -/

private theorem names_slash_end (chars : List Char) : names (chars ++ ['/']) = names chars := by
  rw [names, names, Text.fields_append_fields, List.filter_append]
  exact List.append_nil _

private theorem names_append_slash (first second : List Char) :
    names (first ++ '/' :: second) = names first ++ names second := by
  rw [names, names, names, Text.fields_append_fields, List.filter_append]

/-- A joined path has the names of both. -/
theorem names_join (relative : isAbsolute path = false) :
    names (join start path).toList = names start.toList ++ names path.toList := by
  rw [join, if_neg (by simp [relative])]
  split
  · next ends =>
    rw [String.toList_append]
    rcases Bool.or_eq_true_iff.mp ends with empty | slash
    · rw [String.isEmpty_iff.mp empty]
      rfl
    · obtain ⟨front, split⟩ := List.getLast?_eq_some_iff.mp (of_decide_eq_true slash)
      rw [split, List.append_assoc, List.singleton_append, names_append_slash, names_slash_end]
  · rw [String.toList_append, String.toList_append, List.append_assoc]
    exact names_append_slash _ _

private theorem root_join (leads : LeadsAlong start source) (relative : isAbsolute path = false) :
    root (join start path).toList = ['/'] := by
  have begins : path.toList.head? ≠ some '/' := by simpa [isAbsolute] using relative
  have proper := proper_of_isName leads.named
  have written := leads.written
  cases text : joinNames source with
  | nil =>
    have top : start = "/" := String.toList_injective (by rw [written, text]; rfl)
    have joined : (join start path).toList = '/' :: path.toList := by
      rw [join, if_neg (by simp [relative]), top, if_pos (by decide), String.toList_append]
      rfl
    rw [joined]
    exact (root_append begins).2.1
  | cons c cs =>
    have first : (joinNames source).head? ≠ some '/' := head?_joinNames proper
    rw [text] at first written
    obtain ⟨rest, joined⟩ : ∃ rest, (join start path).toList = '/' :: (c :: (cs ++ rest)) := by
      rw [join, if_neg (by simp [relative])]
      split
      · exact ⟨path.toList, by rw [String.toList_append, written]; rfl⟩
      · refine ⟨'/' :: path.toList, ?_⟩
        rw [String.toList_append, String.toList_append, written, List.append_assoc]
        rfl
    rw [joined]
    exact (root_append (by simpa using first)).2.1

theorem relative_eq (leads : LeadsAlong start source) (target_leads : LeadsAlong path target) :
    relative workingDirectory path start = assemble [] (stepsBetween source target) := by
  rw [relative, leads.absolute_eq, target_leads.absolute_eq, leads.names_eq, target_leads.names_eq]
  rfl

theorem isAbsolute_assemble_nil (proper : Proper segments) :
    isAbsolute (assemble [] segments) = false := by
  have root : root (assemble (root []) segments).toList = root [] := root_assemble proper
  rw [← Bool.not_eq_true, isAbsolute_iff_root, not_not]
  exact root

theorem names_assemble_nil (proper : Proper segments) :
    names (assemble [] segments).toList = segments := by
  have same : names (assemble (root []) segments).toList = segments := names_assemble proper
  exact same

/-- What leads from a directory to a file is relative, and leads there. -/
theorem normalize_join_relative (leads : LeadsAlong start source)
    (target_leads : LeadsAlong path target) :
    isAbsolute (relative workingDirectory path start) = false ∧
      normalize (join start (relative workingDirectory path start)) = path := by
  have proper : Proper (stepsBetween source target) :=
    proper_stepsBetween (proper_of_isName target_leads.named)
  have steps : names (assemble [] (stepsBetween source target)).toList =
      stepsBetween source target := names_assemble_nil proper
  have plain := isAbsolute_assemble_nil proper
  rw [relative_eq leads target_leads]
  refine ⟨plain, String.toList_injective ?_⟩
  have rooted := root_join leads plain
  have absolute : isAbsolute (join start (assemble [] (stepsBetween source target))) = true := by
    rw [isAbsolute_iff_root, rooted]
    simp
  rw [normalize, rooted, absolute, names_join plain, leads.names_eq, steps,
    settle_stepsBetween leads.named target_leads.named, target_leads.written]
  exact String.toList_ofList

/-- A path to a file without backslashes needs none. -/
theorem withSlashes_relative (leads : LeadsAlong start source)
    (target_leads : LeadsAlong path target) (plain : '\\' ∉ path.toList) :
    withSlashes (relative workingDirectory path start) = relative workingDirectory path start := by
  have free : ∀ segment ∈ stepsBetween source target, '\\' ∉ segment := by
    intro segment member inside
    rcases List.mem_append.mp member with climbs | down
    · rw [List.eq_of_mem_replicate climbs] at inside
      exact absurd inside (by decide)
    · refine plain ?_
      rw [target_leads.written]
      exact List.mem_cons_of_mem _ (Text.mem_joinFields_of_mem (List.mem_of_mem_drop down) inside)
  have lacks : '\\' ∉ (relative workingDirectory path start).toList := by
    intro member
    rw [relative_eq leads target_leads, assemble, String.toList_ofList] at member
    split at member
    · exact absurd member (by decide)
    · rcases Text.mem_joinFields member with same | ⟨segment, listed, inside⟩
      · exact absurd same (by decide)
      · exact free segment listed inside
  apply String.toList_injective
  rw [withSlashes, String.toList_ofList]
  refine (List.map_congr_left fun c member => if_neg ?_).trans (List.map_id _)
  rintro rfl
  exact lacks member

/-! ## Directories -/

/-- What stands behind the last slash does not matter. -/
theorem directory_append {name : String} (free : '/' ∉ name.toList) :
    directory (path ++ name) = directory path := by
  have passed : ∀ c ∈ name.toList.reverse, decide (c ≠ '/') = true := by
    intro c member
    rw [decide_eq_true_eq]
    rintro rfl
    exact free (List.mem_reverse.mp member)
  rw [directory, directory, String.toList_append, List.reverse_append,
    List.dropWhile_append_of_pos passed]

/-- A text has slashes only, or it has slashes behind a last other character. -/
theorem slashes_cases (chars : List Char) : chars.all (· = '/') = true ∨
    ∃ front c count, c ≠ '/' ∧ chars = front ++ c :: List.replicate count '/' := by
  induction chars using List.reverseRecOn with
  | nil => exact .inl rfl
  | append_singleton chars c ih =>
    by_cases slash : c = '/'
    · subst slash
      refine ih.imp (fun all => by simp [all]) fun ⟨front, c, count, apart, same⟩ => ?_
      refine ⟨front, c, count + 1, apart, ?_⟩
      rw [same, List.replicate_succ', List.append_assoc, List.cons_append]
    · exact .inr ⟨chars, c, 0, slash, rfl⟩

/-- The directory of a path that ends in slashes. -/
theorem directory_of_slash {front : List Char} {c : Char} {count : Nat} (apart : c ≠ '/')
    (written : path.toList = front ++ c :: List.replicate (count + 1) '/') :
    (directory path).toList = front ++ [c] := by
  have reversed : path.toList.reverse =
      List.replicate (count + 1) '/' ++ c :: front.reverse := by
    simp [written, List.reverse_append]
  have head : path.toList.reverse.dropWhile (· ≠ '/') = path.toList.reverse := by
    simp [reversed, List.replicate_succ]
  have other : path.toList.all (· = '/') = false := by simp [written, apart]
  have trimmed : path.toList.reverse.dropWhile (· = '/') = c :: front.reverse := by
    rw [reversed, List.dropWhile_append_of_pos fun c member =>
      decide_eq_true (List.eq_of_mem_replicate member)]
    exact List.dropWhile_cons_of_neg (by simpa using apart)
  rw [directory, head, List.reverse_reverse, other, if_neg (by simp), Text.trimEnd, trimmed,
    String.toList_ofList, List.reverse_cons, List.reverse_reverse]

theorem directory_of_slashes (slashes : path.toList.all (· = '/') = true) :
    directory path = path := by
  have head : path.toList.reverse.dropWhile (· ≠ '/') = path.toList.reverse := by
    rw [List.dropWhile_eq_self_iff]
    intro nonempty
    have slash := List.all_eq_true.mp slashes _ (List.mem_reverse.mp (List.getElem_mem nonempty))
    simpa using slash
  rw [directory, head, List.reverse_reverse, slashes, if_pos rfl, String.ofList_toList]

/-- The last character of a path below the root belongs to a name. -/
theorem LeadsAlong.exists_last (leads : LeadsAlong path segments) (below : segments ≠ []) :
    ∃ front c, c ≠ '/' ∧ path.toList = front ++ [c] := by
  obtain ⟨others, last, rfl⟩ := List.eq_nil_or_concat segments |>.resolve_left below
  obtain ⟨nonempty, -, -, free⟩ := leads.named last (by simp)
  obtain ⟨letters, c, rfl⟩ := List.eq_nil_or_concat last |>.resolve_left nonempty
  rw [List.concat_eq_append, List.mem_append, List.mem_singleton, not_or] at free
  cases others with
  | nil =>
    refine ⟨'/' :: letters, c, Ne.symm free.2, ?_⟩
    rw [leads.written]
    simp [joinNames, Text.joinFields]
  | cons first others =>
    refine ⟨'/' :: joinNames (first :: others) ++ '/' :: letters, c, Ne.symm free.2, ?_⟩
    rw [leads.written, List.concat_eq_append, joinNames, Text.joinFields_concat (by simp)]
    simp [joinNames]

/-- A file in a directory below the root. -/
theorem LeadsAlong.file {name : Segment} (leads : LeadsAlong start source) (below : source ≠ [])
    (named : IsName name) (written : path.toList = start.toList ++ '/' :: name) :
    LeadsAlong path (source ++ [name]) ∧ directory path = start := by
  refine ⟨⟨?_, ?_⟩, ?_⟩
  · exact List.forall_mem_append.mpr ⟨leads.named, List.forall_mem_singleton.mpr named⟩
  · rw [written, leads.written, joinNames, joinNames, Text.joinFields_concat below]
    rfl
  · obtain ⟨front, c, apart, last⟩ := leads.exists_last below
    have split : path = (start ++ "/") ++ String.ofList name := by
      apply String.toList_injective
      simp [written]
    have free : '/' ∉ (String.ofList name).toList := by
      rw [String.toList_ofList]
      exact named.2.2.2
    apply String.toList_injective
    have slash : (start ++ "/").toList = front ++ c :: List.replicate 1 '/' := by
      simp [last]
    rw [split, directory_append free, directory_of_slash apart slash, last]

end Path

end ChunkPlan
