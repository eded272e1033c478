import ChunkPlan.Proofs.Binary64
import ChunkPlan.Proofs.Files
import ChunkPlan.Proofs.JsonChars
import ChunkPlan.Proofs.Paths
import ChunkPlan.SourceCache

/-!
# The cache file read back

Loading what was saved gives the entries whose path leads anywhere, with the dates of the moment of
saving in place of those recorded before.
-/

set_option autoImplicit false

namespace ChunkPlan

/-- A date in milliseconds is short enough to be read back. -/
theorem FileSystem.milliseconds_short (moment : Int) :
    (milliseconds moment).natAbs < 10 ^ Numeral.maxDigits := by
  have bound := Binary64.natAbs_truncate_le (Binary64.bounded_mul
    (.add (.ofSigned (moment.fdiv 1000000000) 1)
      (.mul (.ofSigned 1 1000000000) (.ofSigned (moment.fmod 1000000000) 1))) (.ofSigned 1000 1))
  -- The powers are compared by their exponents: none of them is computed.
  have wider (first second digits : Nat) (fewer : first + second < digits) :
      2 ^ first * 2 ^ second < 10 ^ digits := by
    calc 2 ^ first * 2 ^ second = 2 ^ (first + second) := (Nat.pow_add ..).symm
      _ < 2 ^ digits := Nat.pow_lt_pow_right (by decide) fewer
      _ ≤ 10 ^ digits := Nat.pow_le_pow_left (by decide) digits
  exact Nat.lt_of_le_of_lt bound (wider 54 971 Numeral.maxDigits (by decide))

theorem Json.isDate_integer {date found : Int} :
    (Json.integer date).isDate (some found) = true ↔ date = found := by
  simp [Json.isDate]

namespace SourceCache

variable {files after : FileSystem} {cache : SourceCache} {path key : String} {unit : SourceUnit}
  {date : Int} {entry : CacheEntry} {entries : Entries CacheEntry} {place : List String}
  {bytes : ByteArray} {modified : Int}

/-! ## Members -/

private theorem strings?_ofStrings (texts : List String) :
    (Json.ofStrings texts).strings? = some texts := by
  rw [Json.ofStrings, Json.strings?, List.mapM_map]
  induction texts with
  | nil => rfl
  | cons text texts ih => simp [List.mapM_cons, Json.string?, ih]

private theorem plain_ofStrings (texts : List String) : (Json.ofStrings texts).Plain := by
  apply Json.Plain.array
  intro item member
  obtain ⟨text, _, rfl⟩ := List.mem_map.mp member
  exact .string text

/-- A member that is written is read as an entry of a unit under this path. -/
theorem ofJson_toJson : ofJson path (toJson unit date) =
    .entry ⟨.create path unit.provides unit.requires unit.isModule, .integer date⟩ := by
  have isModule : (Json.bool unit.isModule).isEmpty = !unit.isModule := rfl
  simp [ofJson, toJson, Entries.find?, Json.member, strings?_ofStrings, isModule]

private theorem plain_toJson (short : date.natAbs < 10 ^ Numeral.maxDigits) :
    (toJson unit date).Plain := by
  refine .object (by decide : ["isModule", "modifiedDates", "provides", "requires"].Nodup) ?_
  intro member listed
  simp only [List.mem_cons, List.not_mem_nil, or_false] at listed
  rcases listed with rfl | rfl | rfl | rfl
  · exact .bool _
  · exact .integer short
  · exact plain_ofStrings _
  · exact plain_ofStrings _

/-- What the entries of a cache become by saving and loading. -/
def saved (files : FileSystem) (cache : SourceCache) : Entries CacheEntry :=
  cache.entries.filterMap fun (path, entry) => (files.modified? path).map fun date =>
    (path, ⟨.create path entry.unit.provides entry.unit.requires entry.unit.isModule, .integer date⟩)

theorem mem_saved : (path, entry) ∈ cache.saved files ↔
    ∃ old date, (path, old) ∈ cache.entries ∧ files.modified? path = some date ∧ entry =
      ⟨.create path old.unit.provides old.unit.requires old.unit.isModule, .integer date⟩ := by
  simp only [saved, List.mem_filterMap, Option.map_eq_some_iff, Prod.mk.injEq, Prod.exists]
  constructor
  · intro ⟨key, old, member, date, modified, same, made⟩
    subst same
    exact ⟨old, date, member, modified, made.symm⟩
  · intro ⟨old, date, member, modified, made⟩
    exact ⟨path, old, member, date, modified, rfl, made.symm⟩

private theorem keys_saved : (cache.saved files).keys =
    cache.entries.keys.filter fun path => (files.modified? path).isSome := by
  unfold saved Entries.keys
  induction cache.entries with
  | nil => rfl
  | cons first rest ih =>
    cases modified : files.modified? first.1 <;> simp [modified, ih]

theorem nodup_keys_saved (unique : cache.entries.keys.Nodup) : (cache.saved files).keys.Nodup := by
  rw [keys_saved]
  exact List.Nodup.filter _ unique

private theorem keys_members : Entries.keys (cache.members files) = (cache.saved files).keys := by
  unfold members saved Entries.keys
  simp [List.map_filterMap, Function.comp_def]

private theorem plain_members (unique : cache.entries.keys.Nodup) :
    (Json.object (cache.members files)).Plain := by
  refine .object ?_ fun member listed => ?_
  · rw [keys_members]
    exact nodup_keys_saved unique
  · obtain ⟨⟨path, entry⟩, _, made⟩ := List.mem_filterMap.mp listed
    obtain ⟨date, dated, rfl⟩ := Option.map_eq_some_iff.mp made
    refine plain_toJson ?_
    unfold FileSystem.modified? at dated
    split at dated
    · cases dated
      exact FileSystem.milliseconds_short _
    · cases dated

private theorem readMembers_members (stored : Entries CacheEntry) :
    (readMembers entries (members files ⟨path, stored⟩)).1 =
      entries.putAll (saved files ⟨path, stored⟩) := by
  unfold members saved
  induction stored generalizing entries with
  | nil => rfl
  | cons first rest ih =>
    cases modified : files.modified? first.1 with
    | none => simpa [modified] using ih
    | some date =>
      simp only [List.filterMap_cons, modified, Option.map_some, readMembers, ofJson_toJson]
      exact ih

/-! ## Loading -/

/-- The entries that the bytes of a cache file hold. -/
def entriesOf (bytes : ByteArray) : Entries CacheEntry :=
  match (Utf8.decode bytes).toOption.bind fun text =>
      Json.parse? (String.ofList (Text.unifyLineBreaks text.toList)) with
  | some (.object members) => (readMembers [] members).1
  | _ => []

theorem load_of_file (isFile : files.item (Path.tidy path) = .ok (.file bytes modified)) :
    (load files path).1 = ⟨Path.tidy path, entriesOf bytes⟩ := by
  have there : files.has (Path.tidy path) = true := by rw [FileSystem.has, isFile]; rfl
  have read : (files.readText (Path.tidy path)).toOption =
      (Utf8.decode bytes).toOption.map fun text =>
        String.ofList (Text.unifyLineBreaks text.toList) := by
    rw [FileSystem.readText, isFile]
    simp only
    cases Utf8.decode bytes <;> rfl
  rw [load, there, read, Option.bind_map, entriesOf]
  simp only [Bool.not_true, Bool.false_eq_true, if_false, Function.comp_def]
  generalize Option.bind _ _ = parsed
  cases parsed with
  | none => rfl
  | some value => cases value <;> rfl

theorem load_of_not_file
    (other : ∀ bytes modified, files.item (Path.tidy path) ≠ .ok (.file bytes modified)) :
    (load files path).1 = ⟨Path.tidy path, []⟩ := by
  rw [load, FileSystem.readText_of_not_file other]
  split <;> rfl

private theorem nodup_readMembers (members : List (String × Json)) (unique : entries.keys.Nodup) :
    (readMembers entries members).1.keys.Nodup := by
  induction members generalizing entries with
  | nil => exact unique
  | cons member members ih =>
    rw [readMembers]
    split
    · exact ih (Entries.nodup_keys_put unique)
    · exact ih unique
    · exact ih unique

private theorem nodup_entriesOf (bytes : ByteArray) : (entriesOf bytes).keys.Nodup := by
  unfold entriesOf
  split
  · exact nodup_readMembers _ List.nodup_nil
  · exact List.nodup_nil

theorem nodup_load (files : FileSystem) (path : String) : (load files path).1.entries.keys.Nodup := by
  cases isFile : files.item (Path.tidy path) with
  | error fault =>
    rw [load_of_not_file fun _ _ => by simp [isFile]]
    exact List.nodup_nil
  | ok item =>
    cases item with
    | directory items modified =>
      rw [load_of_not_file fun _ _ => by simp [isFile]]
      exact List.nodup_nil
    | special modified =>
      rw [load_of_not_file fun _ _ => by simp [isFile]]
      exact List.nodup_nil
    | file bytes modified =>
      rw [load_of_file isFile]
      exact nodup_entriesOf bytes

/-- A cache file that is written holds the entries saved. -/
theorem entriesOf_written (unique : cache.entries.keys.Nodup) :
    entriesOf (Utf8.encode (Json.render (.object (cache.members files)))) = cache.saved files := by
  have plain : (Json.object (cache.members files)).Plain := plain_members unique
  have lines : '\r' ∉ (Json.render (.object (cache.members files))).toList := by
    rw [Json.render, String.toList_ofList]
    exact plain.lacks_return.not_mem_chars (by decide) (by decide) (by decide)
  rw [entriesOf, Utf8.decode_encode]
  simp only [Except.toOption, Option.bind_some, Text.unifyLineBreaks_of_not_mem lines,
    String.ofList_toList, Json.parse?_render Json.Separators.fit_spaced plain]
  rw [readMembers_members]
  exact Entries.putAll_nil_of_nodup (nodup_keys_saved unique)

/-! ## Lookups and saves -/

theorem get_cases (files : FileSystem) (cache : SourceCache) (path : String) :
    (cache.get files path).2.1 = cache ∨ (cache.get files path).2.1 = cache.remove path := by
  unfold get
  split
  · exact .inl rfl
  · split
    · exact .inl rfl
    · exact .inr rfl

theorem get_eq_some : (cache.get files path).1 = some unit ↔
    ∃ entry, cache.entries.find? path = some entry ∧
      entry.date.isDate (files.modified? path) = true ∧ entry.unit = unit := by
  unfold get
  cases cache.entries.find? path with
  | none => simp
  | some entry => by_cases hit : entry.date.isDate (files.modified? path) = true <;> simp [hit]

theorem file_load (files : FileSystem) (path : String) :
    (load files path).1.file = Path.tidy path := by
  unfold load
  simp only
  split
  · rfl
  · split <;> rfl

theorem load_tidy (files : FileSystem) (path : String) :
    load files (Path.tidy path) = load files path := by
  simp only [load, Path.tidy_tidy]

theorem files_save (cache : SourceCache) (files : FileSystem) : (cache.save files).1 =
    (files.writeOutput cache.file (Json.render (.object (cache.members files)))).files := by
  unfold save
  simp only
  split <;> rfl

/-- Whether saving a cache succeeds. -/
def Saves (files : FileSystem) (cache : SourceCache) : Prop :=
  (files.writeOutput cache.file (Json.render (.object (cache.members files)))).error = none

/-- A save that succeeds writes the cache file and no other, and loading it gives what was saved. -/
theorem load_of_saves (unique : cache.entries.keys.Nodup) (saves : cache.Saves files) :
    (cache.save files).1.locate (Path.tidy cache.file) =
      .ok (files.placeOf (Path.tidy cache.file)) ∧
    (∃ file,
      files.Revises (files.placeOf (Path.tidy cache.file)) (some file) (cache.save files).1) ∧
    (load (cache.save files).1 cache.file).1 = ⟨Path.tidy cache.file, cache.saved files⟩ := by
  rw [files_save]
  rcases FileSystem.writeOutput_cases files cache.file
      (Json.render (.object (cache.members files))) with
    ⟨failed, -⟩ | ⟨-, place, modified, located, revises⟩
  · exact absurd saves failed
  · obtain rfl : place = files.placeOf (Path.tidy cache.file) := by
      rw [FileSystem.locate_ok located, FileSystem.placeOf_grows revises.toGrows]
    have written := (revises.files _).trans (if_pos rfl)
    refine ⟨located, ⟨_, revises⟩, ?_⟩
    rw [load_of_file ((FileSystem.item_eq_file_of_locate located).mpr written),
      entriesOf_written unique]

theorem grows_save (cache : SourceCache) (files : FileSystem) :
    files.Grows (cache.save files).1 := by
  rw [files_save]
  rcases FileSystem.writeOutput_cases files cache.file
      (Json.render (.object (cache.members files))) with ⟨-, keeps⟩ | ⟨-, _, _, -, revises⟩
  · exact keeps.toGrows
  · exact revises.toGrows

theorem keeps_of_not_saves (fails : ¬cache.Saves files) : files.Keeps (cache.save files).1 := by
  rw [files_save]
  rcases FileSystem.writeOutput_cases files cache.file
      (Json.render (.object (cache.members files))) with ⟨-, keeps⟩ | ⟨saved, -⟩
  · exact keeps
  · exact absurd saved fails

end SourceCache

end ChunkPlan
