import ChunkPlan.Proofs.CacheFile
import ChunkPlan.Proofs.SourceFiles

/-!
# Caches saved and loaded again

A cache that is loaded after a save has the units of before in their order, without those whose path
leads nowhere.  Their dates are those of the moment of saving; the save itself changes no date but
those of the cache file and of directories, so the lookups of source files hit.  File systems have
no links here, and nothing in them is refused for want of a permission.
-/

set_option autoImplicit false

namespace ChunkPlan

private theorem FileSystem.has_eq_modified? {files : FileSystem} {path : String} :
    files.has path = (files.modified? path).isSome := by
  rw [FileSystem.has, FileSystem.modified?]
  cases files.item path <;> rfl

/-- A file that is not the one written keeps its date. -/
theorem FileSystem.Revises.modified? {files after : FileSystem} {place : List String}
    {path : String} {written : Option (ByteArray × Int)} (revises : files.Revises place written after)
    (isFile : files.HasFile path) (apart : files.placeOf path ≠ place) :
    after.modified? path = files.modified? path := by
  obtain ⟨bytes, modified, isFile⟩ := isFile
  obtain ⟨found, located, -⟩ := FileSystem.item_eq_ok.mp isFile
  obtain rfl := FileSystem.locate_ok located
  have same := (revises.files (files.placeOf path)).trans (if_neg apart.symm)
  have held := (FileSystem.item_eq_file_of_locate located).mp isFile
  have later := FileSystem.locate_grows revises.toGrows located
  rw [FileSystem.modified?, FileSystem.modified?, isFile,
    (FileSystem.item_eq_file_of_locate later).mpr (same.trans held)]

namespace SourceCache

variable {files after : FileSystem} {cache : SourceCache} {path : String} {unit : SourceUnit}
  {entry : CacheEntry}

/-- The units of a cache under their paths, whatever their dates are. -/
def units (cache : SourceCache) : Entries SourceUnit :=
  cache.entries.map fun (path, entry) => (path, entry.unit)

/-- Whether every unit was made for the path that it is listed under. -/
def Created (cache : SourceCache) : Prop :=
  ∀ path unit, (path, unit) ∈ cache.units →
    ∃ provides requires isModule, unit = .create path provides requires isModule

theorem mem_units : (path, unit) ∈ cache.units ↔
    ∃ entry, (path, entry) ∈ cache.entries ∧ entry.unit = unit := by
  simp [units]

private theorem units_saved (created : cache.Created) :
    units ⟨path, cache.saved files⟩ = cache.units.filter fun (path, _) => files.has path := by
  obtain ⟨file, entries⟩ := cache
  induction entries with
  | nil => rfl
  | cons first rest ih =>
    have others := ih fun path unit member => created path unit (List.mem_cons_of_mem _ member)
    obtain ⟨provides, requires, isModule, made⟩ :=
      created first.1 first.2.unit (List.mem_cons_self ..)
    -- The flag follows from the path and the provides, and both are written.
    have same : SourceUnit.create first.1 first.2.unit.provides first.2.unit.requires
        first.2.unit.isModule = first.2.unit := by rw [made]; rfl
    cases dated : files.modified? first.1 <;>
      simpa [units, saved, FileSystem.has_eq_modified?, dated, same] using others

private theorem get_of_find? (found : cache.entries.find? path = some entry)
    (dated : entry.date.isDate (files.modified? path) = true) :
    cache.get files path = (some entry.unit, cache, []) := by
  simp only [get, found, dated, if_true]

/-- What was saved is found as long as the date is the one of the moment of saving. -/
theorem get_saved {file : String} (unique : cache.entries.keys.Nodup)
    (listed : (path, unit) ∈ units ⟨file, cache.saved files⟩)
    (dated : after.modified? path = files.modified? path) :
    get after ⟨file, cache.saved files⟩ path = (some unit, ⟨file, cache.saved files⟩, []) := by
  obtain ⟨entry, member, rfl⟩ := mem_units.mp listed
  obtain ⟨old, date, -, modified, made⟩ := mem_saved.mp member
  refine get_of_find? (Entries.find?_of_mem (nodup_keys_saved unique) member) ?_
  rw [dated, modified, made]
  exact Json.isDate_integer.mpr rfl

/-- A save that succeeds loses nothing but the entries whose path leads nowhere: the cache loaded
from the same file lists the other units in the same order, and looking up a source file gives its
unit.  A directory can be listed as well; it is found unless the save itself has changed its date.
-/
theorem load_save (unique : cache.entries.keys.Nodup) (created : cache.Created)
    (apart : ∀ path ∈ cache.entries.keys, files.HasFile path →
      files.placeOf path ≠ files.placeOf (Path.tidy cache.file))
    (saves : cache.Saves files) :
    let after := (cache.save files).1
    let loaded := (load after cache.file).1
    loaded.units = (cache.units.filter fun (path, _) => files.has path) ∧
    ∀ path unit, (path, unit) ∈ loaded.units →
      files.HasFile path ∨ after.modified? path = files.modified? path →
      loaded.get after path = (some unit, loaded, []) := by
  intro after loaded
  obtain ⟨-, ⟨_, revises⟩, same⟩ := load_of_saves unique saves
  rw [show loaded = _ from same]
  refine ⟨units_saved created, fun path unit listed dated => get_saved unique listed ?_⟩
  obtain ⟨entry, member, -⟩ := mem_units.mp listed
  obtain ⟨old, -, held, -⟩ := mem_saved.mp member
  have key : path ∈ cache.entries.keys := List.mem_map_of_mem held
  exact dated.elim (fun isFile => revises.modified? isFile (apart path key isFile)) id

/-- The base file and another one of a library. -/
def library : FileSystem where
  root := .directory [("w", .directory [
    ("base.js", .file (Utf8.encode "var goog = {};") 1000000000000000000),
    ("tür.js", .file (Utf8.encode "goog.module('a');") 1000000001500000000)] 0)] 0
  workingNames := ["w"]

/-- An entry without a date, one of a file that is gone, and one with a stale date. -/
def libraryCache : SourceCache where
  file := "out/cache.json"
  entries := [("tür.js", ⟨.create "tür.js" ["\"\n", "ä.b"] ["goog"] true, .null⟩),
    ("/w/gone.js", ⟨.create "/w/gone.js" ["gone"] [] false, .integer 5⟩),
    ("/w/base.js", ⟨.create "/w/base.js" ["goog", "goog.x"] [] false, .integer 5⟩)]

private theorem created_libraryCache : libraryCache.Created := by
  intro path unit member
  simp only [libraryCache, units, List.map_cons, List.map_nil, List.mem_cons, List.not_mem_nil,
    or_false, Prod.mk.injEq] at member
  rcases member with ⟨rfl, rfl⟩ | ⟨rfl, rfl⟩ | ⟨rfl, rfl⟩ <;> exact ⟨_, _, _, rfl⟩

theorem load_save_libraryCache : libraryCache.entries.keys.Nodup ∧ libraryCache.Created ∧
    (∀ path ∈ libraryCache.entries.keys, library.HasFile path →
      library.placeOf path ≠ library.placeOf (Path.tidy libraryCache.file)) ∧
    libraryCache.Saves library ∧
    let after := (libraryCache.save library).1
    let loaded := (load after "out/cache.json").1
    loaded.units = [
      ("tür.js", .create "tür.js" ["\"\n", "ä.b"] ["goog"] true),
      ("/w/base.js", ⟨"/w/base.js", ["goog", "goog.x"], [], false, true⟩)] ∧
    loaded.get after "tür.js" =
      (some (.create "tür.js" ["\"\n", "ä.b"] ["goog"] true), loaded, []) ∧
    loaded.get after "/w/base.js" =
      (some ⟨"/w/base.js", ["goog", "goog.x"], [], false, true⟩, loaded, []) := by
  have unique : libraryCache.entries.keys.Nodup := by decide
  have apart : ∀ path ∈ libraryCache.entries.keys, library.placeOf path ≠
      library.placeOf (Path.tidy libraryCache.file) := by decide +kernel
  have saves : libraryCache.Saves library := by
    unfold Saves
    decide +kernel
  have name : library.HasFile "tür.js" := ⟨_, _, by rfl⟩
  have base : library.HasFile "/w/base.js" := ⟨_, _, by rfl⟩
  obtain ⟨listed, found⟩ := load_save unique created_libraryCache
    (fun path key _ => apart path key) saves
  have listed := listed.trans (show _ = [
      ("tür.js", SourceUnit.create "tür.js" ["\"\n", "ä.b"] ["goog"] true),
      ("/w/base.js", ⟨"/w/base.js", ["goog", "goog.x"], [], false, true⟩)] by rfl)
  refine ⟨unique, created_libraryCache, fun path key _ => apart path key, saves, listed, ?_, ?_⟩
  · exact found _ _ (by rw [listed]; exact List.mem_cons_self) (.inl name)
  · exact found _ _ (by rw [listed]; exact List.mem_of_mem_tail List.mem_cons_self) (.inl base)

end SourceCache

end ChunkPlan
