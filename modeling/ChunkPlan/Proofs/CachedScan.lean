import ChunkPlan.Proofs.Order
import ChunkPlan.Proofs.Scanning

/-!
# Scans with a cache

A cache whose up-to-date entries are right is not seen in the result of a scan.  The scan leaves it
right, and with an up-to-date entry for each unit of the result.
-/

set_option autoImplicit false

namespace ChunkPlan

variable {files : FileSystem} {path : String} {unit : SourceUnit}

private theorem FileSystem.modified?_of_shows (shows : files.Shows path unit) :
    ∃ date, files.modified? path = some date := by
  obtain ⟨text, read, -⟩ := shows
  obtain ⟨bytes, modified, isFile⟩ := hasFile_of_readText read
  exact ⟨_, modified?_eq_some.mpr ⟨_, isFile, rfl⟩⟩

namespace SourceCache

variable {cache : SourceCache}

/-- Whether every entry that counts as up to date holds what its file gives. -/
def Faithful (files : FileSystem) (cache : SourceCache) : Prop :=
  ∀ path entry, cache.entries.find? path = some entry →
    entry.date.isDate (files.modified? path) = true →
    SourceUnit.ofFile files path = .ok entry.unit

/-- Whether a cache has an up-to-date entry for a path, with a given unit. -/
def Holds (files : FileSystem) (cache : SourceCache) (path : String) (unit : SourceUnit) : Prop :=
  ∃ entry, cache.entries.find? path = some entry ∧
    entry.date.isDate (files.modified? path) = true ∧ entry.unit = unit

private theorem find?_of_get {other : String} {entry : CacheEntry}
    (found : (cache.get files path).2.1.entries.find? other = some entry) :
    cache.entries.find? other = some entry := by
  rcases get_cases files cache path with same | gone
  · rwa [same] at found
  · rw [gone, remove, Entries.find?_remove] at found
    split at found
    · cases found
    · exact found

theorem find?_set_self (files : FileSystem) (cache : SourceCache) (path : String) (unit : SourceUnit) :
    ∃ date, (cache.set files path unit).entries.find? path = some ⟨unit, date⟩ :=
  ⟨_, by rw [set, Entries.find?_put, if_pos rfl]⟩

theorem Faithful.get (faithful : cache.Faithful files) : (cache.get files path).2.1.Faithful files :=
  fun other entry found => faithful other entry (find?_of_get found)

theorem Faithful.set (faithful : cache.Faithful files)
    (read : SourceUnit.ofFile files path = .ok unit) : (cache.set files path unit).Faithful files := by
  intro other entry found dated
  by_cases same : path = other
  · subst same
    obtain ⟨date, written⟩ := find?_set_self files cache path unit
    obtain rfl : entry = ⟨unit, date⟩ := Option.some.inj (found.symm.trans written)
    exact read
  · rw [find?_set same] at found
    exact faithful other entry found dated

private theorem holds_set {date : Int} (dated : files.modified? path = some date) :
    (cache.set files path unit).Holds files path unit := by
  rw [Holds, set, dated]
  exact ⟨⟨unit, .integer date⟩, by rw [Entries.find?_put, if_pos rfl], by simp [Json.isDate], rfl⟩

end SourceCache

namespace SourceScanner

variable {scanner later : SourceScanner} {result : Except BuildError SourceUnit}
  {done paths seen : List String} {units listed : UnitList}

/-- Whether what a scanner knows is what the files give, and is in its cache too. -/
def Backed (files : FileSystem) (scanner : SourceScanner) : Prop :=
  ∃ cache, scanner.cache = some cache ∧ cache.Faithful files ∧
    ∀ path unit, scanner.scanned.find? path = some unit →
      SourceUnit.ofFile files path = .ok unit ∧ cache.Holds files path unit

private theorem FileScan.backed (scan : FileScan files path scanner result later)
    (resolved : files.resolve path = path) (backed : scanner.Backed files) :
    later.Backed files := by
  obtain ⟨cache, before, faithful, known⟩ := backed
  cases scan with
  | known => exact ⟨cache, before, faithful, known⟩
  | @hit unit _ fresh held same scanned =>
    rw [held?, before] at held
    obtain ⟨entry, found, dated, rfl⟩ := SourceCache.get_eq_some.mp held
    refine ⟨cache, same.trans before, faithful, fun other unit listed => ?_⟩
    rw [scanned, Entries.find?_put] at listed
    split at listed
    · next same =>
      cases listed
      subst same
      exact ⟨faithful path entry found dated, entry, found, dated, rfl⟩
    · exact known other unit listed
  | @read unit _ fresh missed read changed scanned =>
    rw [before] at changed
    obtain ⟨date, dated⟩ :=
      FileSystem.modified?_of_shows (FileSystem.shows_of_ofFile resolved read)
    refine ⟨_, changed, faithful.get.set read, fun other unit listed => ?_⟩
    rw [scanned, Entries.find?_put] at listed
    split at listed
    · next same =>
      cases listed
      subst same
      exact ⟨read, SourceCache.holds_set dated⟩
    · next apart =>
      obtain ⟨given, entry, found, current⟩ := known other unit listed
      rw [← SourceCache.find?_get apart, ← SourceCache.find?_set apart] at found
      exact ⟨given, entry, found, current⟩
  | failed fresh missed unreadable changed scanned =>
    -- The stale entry is gone from the cache, but no unit of this run came from it.
    rw [before] at changed
    refine ⟨_, changed, faithful.get, fun other unit listed => ?_⟩
    rw [scanned] at listed
    have apart : path ≠ other := by
      rintro rfl
      rw [fresh] at listed
      cases listed
    obtain ⟨given, entry, found, current⟩ := known other unit listed
    rw [← SourceCache.find?_get apart] at found
    exact ⟨given, entry, found, current⟩

/-- What a scan has come to: the units of some files, each file once. -/
structure Gathered (files : FileSystem) (done : List String) (units : UnitList)
    (scanner : SourceScanner) : Prop where
  backed : scanner.Backed files
  paths : units.paths = done.eraseDups
  known : ∀ unit ∈ units, scanner.scanned.find? unit.path = some unit

theorem Gathered.skip (gathered : Gathered files done units scanner) (member : path ∈ done) :
    Gathered files (done ++ [path]) units scanner :=
  ⟨gathered.backed, by rw [Text.eraseDups_concat, if_pos member, gathered.paths], gathered.known⟩

theorem Gathered.take (gathered : Gathered files done units scanner) (fresh : path ∉ done)
    (resolved : files.resolve path = path)
    (scan : FileScan files path scanner (.ok unit) later) :
    Gathered files (done ++ [path]) (units ++ [unit]) later := by
  have backed := scan.backed resolved gathered.backed
  have listed : later.scanned.find? path = some unit := by
    cases scan with
    | known known => exact known
    | hit _ _ _ scanned => rw [scanned, Entries.find?_put, if_pos rfl]
    | read _ _ _ _ scanned => rw [scanned, Entries.find?_put, if_pos rfl]
  have own : unit.path = path := by
    obtain ⟨cache, -, -, known⟩ := backed
    have shows := FileSystem.shows_of_ofFile resolved (known path unit listed).1
    exact congrArg SourceUnit.path shows.created
  refine ⟨backed, ?_, ?_⟩
  · rw [Text.eraseDups_concat, if_neg fresh, ← gathered.paths, UnitList.paths, List.map_append]
    exact congrArg _ (congrArg (fun path => [path]) own)
  · intro other member
    rcases List.mem_append.mp member with member | last
    · have apart : path ≠ other.path := by
        intro same
        have seen : other.path ∈ done.eraseDups := gathered.paths ▸ List.mem_map_of_mem member
        exact fresh (List.mem_eraseDups.mp (same ▸ seen))
      rw [scan.find?_scanned apart]
      exact gathered.known other member
    · obtain rfl := List.mem_singleton.mp last
      rw [own, listed]

private theorem Gathered.scanFiles (gathered : Gathered files done units scanner)
    (resolved : ∀ path ∈ paths, files.resolve path = path)
    (ran : scanFiles files done.eraseDups units paths scanner = (.ok (seen, listed), later)) :
    seen = (done ++ paths).eraseDups ∧ Gathered files (done ++ paths) listed later := by
  induction paths generalizing done units scanner with
  | nil =>
    cases ran
    rw [List.append_nil]
    exact ⟨rfl, gathered⟩
  | cons path paths ih =>
    obtain ⟨first, others⟩ := List.forall_mem_cons.mp resolved
    rw [List.append_cons]
    rw [SourceScanner.scanFiles] at ran
    by_cases member : path ∈ done
    · have known : done.eraseDups.contains path = true := by simpa using member
      have same : done.eraseDups = (done ++ [path]).eraseDups := by rw [Text.eraseDups_concat, if_pos member]
      rw [if_pos known, same] at ran
      exact ih (gathered.skip member) others ran
    · have fresh : ¬done.eraseDups.contains path = true := by simpa using member
      have grown : done.eraseDups ++ [path] = (done ++ [path]).eraseDups := by
        rw [Text.eraseDups_concat, if_neg member]
      have scan := fileScan files path scanner
      rw [if_neg fresh, grown, Scan.bind_run] at ran
      rcases scanned : scanFile files path scanner with ⟨result, middle⟩
      rw [scanned] at ran scan
      cases result with
      | error error => cases ran
      | ok unit => exact ih (gathered.take member first scan) others ran

private theorem Gathered.scanLocators {options : RunOptions} {locators : List String}
    (gathered : Gathered files done units scanner) (named : files.root.WellNamed)
    (ran : scanLocators files options done.eraseDups units locators scanner = (.ok listed, later)) :
    ∃ found, List.Forall₂
        (fun locator paths => files.find locator (!options.scanHidden) = .ok paths) locators found ∧
      Gathered files (done ++ found.flatten) listed later := by
  induction locators generalizing done units scanner with
  | nil =>
    cases ran
    exact ⟨[], .nil, by simpa using gathered⟩
  | cons locator locators ih =>
    rw [SourceScanner.scanLocators] at ran
    cases found : files.find locator !options.scanHidden with
    | error error =>
      rw [found] at ran
      cases ran
    | ok paths =>
      have resolved : ∀ path ∈ paths, files.resolve path = path :=
        fun path member => FileSystem.resolve_of_find named found member
      rw [found, show Scan.ofExcept (.ok paths) = (pure paths : Scan (List String)) from rfl,
        pure_bind, Scan.bind_run] at ran
      rcases scanned : SourceScanner.scanFiles files done.eraseDups units paths scanner with
        ⟨result, middle⟩
      rw [scanned] at ran
      cases result with
      | error error => cases ran
      | ok result =>
        obtain ⟨seen, some⟩ := result
        obtain ⟨rfl, gathered⟩ := gathered.scanFiles resolved scanned
        obtain ⟨others, each, gathered⟩ := ih gathered ran
        refine ⟨paths :: others, .cons found each, ?_⟩
        rwa [List.flatten_cons, ← List.append_assoc]

private theorem alike_cached {cache : SourceCache} (faithful : cache.Faithful files) :
    Alike files { cache := some cache } {} := by
  intro path
  have plain : reading files {} path = SourceUnit.ofFile files path := rfl
  rw [plain, reading]
  cases held : cache.current? files path with
  | none => simp [held?, held]
  | some unit =>
    obtain ⟨entry, found, dated, rfl⟩ := SourceCache.get_eq_some.mp held
    simp [held?, held, faithful path entry found dated]

/-- A scan with a faithful cache comes to the same as one without, and leaves the cache faithful
and with an up-to-date entry for all that it has listed. -/
theorem scan_cached (files : FileSystem) (options : RunOptions) (locators : List String)
    (cache : SourceCache) (named : files.root.WellNamed) (faithful : cache.Faithful files) :
    (scan files options locators { cache := some cache }).1 = (scan files options locators {}).1 ∧
    ∀ units, (scan files options locators {}).1 = .ok units →
      (∃ found, List.Forall₂
          (fun locator paths => files.find locator (!options.scanHidden) = .ok paths) locators found ∧
        units.paths = found.flatten.eraseDups) ∧
      (∀ unit ∈ units, SourceUnit.ofFile files unit.path = .ok unit) ∧
      ∃ later, (scan files options locators { cache := some cache }).2.cache = some later ∧
        later.Faithful files ∧ ∀ unit ∈ units, later.Holds files unit.path unit := by
  have same := (reads_scan files options locators).same _ _ (alike_cached faithful)
  refine ⟨same, fun units listed => ?_⟩
  rw [← same] at listed
  have backed : Backed files { cache := some cache } :=
    ⟨cache, rfl, faithful, fun _ _ known => nomatch known⟩
  have start : Gathered files [] [] { cache := some cache } :=
    ⟨backed, rfl, fun _ member => nomatch member⟩
  obtain ⟨found, each, gathered⟩ := start.scanLocators named
    (show scan files options locators { cache := some cache } = (.ok units, _) from Prod.ext listed rfl)
  obtain ⟨later, kept, faithful, known⟩ := gathered.backed
  refine ⟨⟨found, each, gathered.paths⟩, ?_, later, kept, faithful, ?_⟩
  · exact fun unit member => (known _ _ (gathered.known unit member)).1
  · exact fun unit member => (known _ _ (gathered.known unit member)).2

def trio : FileSystem where
  root := .directory [("w", .directory [
    ("a.js", .file (Utf8.encode "goog.provide('a');") 1000000000000000000),
    ("b.js", .file (Utf8.encode "goog.require('a');") 1000000001000000000),
    ("c.js", .file (Utf8.encode "goog.module('c');") 1000000002000000000)] 0)] 0
  workingNames := ["w"]

/-- An entry that is up to date and one that is stale. -/
def halfCache : SourceCache where
  file := "cache.json"
  entries := [("/w/a.js", ⟨.create "/w/a.js" ["a"] [] false, .integer 1000000000000⟩),
    ("/w/b.js", ⟨.create "/w/b.js" ["b"] [] false, .integer 1000000000000⟩)]

private theorem wellNamed_trio : trio.root.WellNamed := by
  refine .node (by decide) (List.forall_mem_singleton.mpr (.node (by decide) ?_))
  simp only [List.forall_mem_cons, List.not_mem_nil, false_imp_iff, implies_true, and_true]
  exact ⟨.leaf _ _, .leaf _ _, .leaf _ _⟩

private theorem faithful_halfCache : halfCache.Faithful trio := by
  intro path entry found dated
  have entries : (path, entry) ∈ halfCache.entries := Entries.mem_of_find? found
  rcases List.mem_pair.mp entries with same | same
  · cases same
    exact eq_ok_of_toOption (by decide +kernel)
  · cases same
    have stale : (Json.integer 1000000000000).isDate (trio.modified? "/w/b.js") = false := by
      decide +kernel
    exact absurd dated (Bool.eq_false_iff.mp stale)

theorem scan_cached_halfCache : trio.root.WellNamed ∧ halfCache.Faithful trio ∧
    (scan trio {} ["b.js", "a.js", "./b.js", "c.js"] { cache := some halfCache }).1 =
      (scan trio {} ["b.js", "a.js", "./b.js", "c.js"] {}).1 ∧
    ∃ units, (scan trio {} ["b.js", "a.js", "./b.js", "c.js"] {}).1 = .ok units ∧
      units.paths = ["/w/b.js", "/w/a.js", "/w/c.js"] ∧
      ∃ later : SourceCache, later.Faithful trio ∧ ∀ unit ∈ units, later.Holds trio unit.path unit := by
  obtain ⟨same, lists⟩ := scan_cached trio {} ["b.js", "a.js", "./b.js", "c.js"] halfCache
    wellNamed_trio faithful_halfCache
  have listed : (scan trio {} ["b.js", "a.js", "./b.js", "c.js"] {}).1.toOption.map UnitList.paths =
      some ["/w/b.js", "/w/a.js", "/w/c.js"] := by decide +kernel
  obtain ⟨units, listed, paths⟩ := Option.map_eq_some_iff.mp listed
  have listed := eq_ok_of_toOption listed
  obtain ⟨-, -, later, -, faithful, known⟩ := lists units listed
  exact ⟨wellNamed_trio, faithful_halfCache, same, units, listed, paths, later, faithful, known⟩

end SourceScanner

end ChunkPlan
