import ChunkPlan.Proofs.CacheFile
import ChunkPlan.Proofs.SourceFiles

/-!
# Readings

What a scanner would answer for a path.  Scanning a file settles its answer and changes no other
one, so a run gives what it would have given at its beginning.
-/

set_option autoImplicit false

namespace ChunkPlan

deriving instance DecidableEq for SourceUnit

variable {α β : Type} {files : FileSystem} {path other : String} {unit : SourceUnit}

/-! ## Lookups in a cache -/

namespace SourceCache

variable {cache later : SourceCache}

/-- The unit that a cache holds for a path, if it is up to date. -/
def current? (files : FileSystem) (cache : SourceCache) (path : String) : Option SourceUnit :=
  (cache.get files path).1

theorem current?_congr (same : later.entries.find? path = cache.entries.find? path) :
    later.current? files path = cache.current? files path :=
  Option.ext fun unit => by
    rw [current?, current?, get_eq_some, get_eq_some, same]

theorem find?_get (apart : path ≠ other) :
    (cache.get files path).2.1.entries.find? other = cache.entries.find? other := by
  rcases get_cases files cache path with same | gone
  · rw [same]
  · rw [gone, remove, Entries.find?_remove, if_neg apart]

theorem get_of_current? (held : cache.current? files path = some unit) :
    (cache.get files path).2.1 = cache := by
  obtain ⟨entry, found, dated, -⟩ := get_eq_some.mp held
  simp [get, found, dated]

private theorem current?_get :
    (cache.get files path).2.1.current? files other = cache.current? files other := by
  by_cases same : path = other
  · subst same
    cases held : cache.current? files path with
    | some unit => rw [get_of_current? held, held]
    | none =>
      rcases get_cases files cache path with kept | gone
      · rw [kept, held]
      · rw [gone, current?, get, remove, Entries.find?_remove, if_pos rfl]
  · exact current?_congr (find?_get same)

theorem find?_set (apart : path ≠ other) :
    (cache.set files path unit).entries.find? other = cache.entries.find? other := by
  rw [set, Entries.find?_put, if_neg apart]

end SourceCache

/-! ## One file -/

namespace SourceScanner

variable {scanner later s t u : SourceScanner} {result : Except BuildError SourceUnit}

def held? (files : FileSystem) (scanner : SourceScanner) (path : String) : Option SourceUnit :=
  scanner.cache.bind fun cache => cache.current? files path

/-- What a scanner answers for a path. -/
def reading (files : FileSystem) (scanner : SourceScanner) (path : String) :
    Except BuildError SourceUnit :=
  match scanner.scanned.find? path with
  | some unit => .ok unit
  | none =>
    match scanner.held? files path with
    | some unit => .ok unit
    | none => SourceUnit.ofFile files path

/-- The ways in which a file is scanned: its unit is known, or in the cache, or its file is read. -/
inductive FileScan (files : FileSystem) (path : String) (scanner : SourceScanner) :
    Except BuildError SourceUnit → SourceScanner → Prop where
  | known {unit : SourceUnit} : scanner.scanned.find? path = some unit →
      FileScan files path scanner (.ok unit) scanner
  | hit {unit : SourceUnit} {later : SourceScanner} : scanner.scanned.find? path = none →
      scanner.held? files path = some unit → later.cache = scanner.cache →
      later.scanned = scanner.scanned.put path unit → FileScan files path scanner (.ok unit) later
  | read {unit : SourceUnit} {later : SourceScanner} : scanner.scanned.find? path = none →
      scanner.held? files path = none → SourceUnit.ofFile files path = .ok unit →
      later.cache = scanner.cache.map (fun cache => (cache.get files path).2.1.set files path unit) →
      later.scanned = scanner.scanned.put path unit → FileScan files path scanner (.ok unit) later
  | failed {error : BuildError} {later : SourceScanner} : scanner.scanned.find? path = none →
      scanner.held? files path = none → SourceUnit.ofFile files path = .error error →
      later.cache = scanner.cache.map (fun cache => (cache.get files path).2.1) →
      later.scanned = scanner.scanned → FileScan files path scanner (.error error) later

private theorem lookUp_some (looked : scanner.lookUp files path = (some unit, later)) :
    scanner.held? files path = some unit ∧ later.cache = scanner.cache ∧
      later.scanned = scanner.scanned := by
  unfold lookUp at looked
  split at looked
  · cases looked
  · next cache before =>
    simp only at looked
    split at looked
    · next held =>
      cases looked
      have kept := SourceCache.get_of_current? held
      refine ⟨?_, ?_, rfl⟩
      · rw [held?, before]
        exact held
      · simp only [note, kept, before]
    · cases looked

private theorem lookUp_none (looked : scanner.lookUp files path = (none, later)) :
    scanner.held? files path = none ∧
      later.cache = scanner.cache.map (fun cache => (cache.get files path).2.1) ∧
      later.scanned = scanner.scanned := by
  unfold lookUp at looked
  split at looked
  · next before =>
    cases looked
    rw [held?, before]
    exact ⟨rfl, rfl, rfl⟩
  · next cache before =>
    simp only at looked
    split at looked
    · cases looked
    · next missed =>
      cases looked
      rw [held?, before]
      exact ⟨missed, rfl, rfl⟩

theorem fileScan (files : FileSystem) (path : String) (scanner : SourceScanner) :
    FileScan files path scanner (scanFile files path scanner).1 (scanFile files path scanner).2 := by
  unfold scanFile
  split
  · next known => exact .known known
  · next fresh =>
    split
    · next unit later looked =>
      obtain ⟨held, cache, scanned⟩ := lookUp_some looked
      exact .hit fresh held cache (by rw [keep, scanned])
    · next later looked =>
      obtain ⟨missed, cache, scanned⟩ := lookUp_none looked
      simp only
      split
      · next error unreadable => exact .failed fresh missed unreadable cache scanned
      · next unit read =>
        refine .read fresh missed read ?_ ?_
        · simp only [keep, store, note, cache, Option.map_map]
          rfl
        · simp only [keep, store, note, scanned]

theorem FileScan.result_eq (scan : FileScan files path scanner result later) :
    result = scanner.reading files path := by
  unfold reading
  cases scan with
  | known known => rw [known]
  | hit fresh held => rw [fresh, held]
  | read fresh missed read => rw [fresh, missed, read]
  | failed fresh missed unreadable => rw [fresh, missed, unreadable]

private theorem held?_map {change : SourceCache → SourceCache}
    (changed : later.cache = scanner.cache.map change)
    (same : ∀ cache, (change cache).current? files path = cache.current? files path) :
    later.held? files path = scanner.held? files path := by
  rw [held?, held?, changed]
  cases scanner.cache with
  | none => rfl
  | some cache => exact same cache

theorem reading_congr (known : later.scanned.find? path = scanner.scanned.find? path)
    (held : later.held? files path = scanner.held? files path) :
    later.reading files path = scanner.reading files path := by
  rw [reading, reading, known, held]

theorem FileScan.find?_scanned (scan : FileScan files path scanner result later)
    (apart : path ≠ other) : later.scanned.find? other = scanner.scanned.find? other := by
  cases scan with
  | known => rfl
  | hit _ _ _ scanned => rw [scanned, Entries.find?_put, if_neg apart]
  | read _ _ _ _ scanned => rw [scanned, Entries.find?_put, if_neg apart]
  | failed _ _ _ _ scanned => rw [scanned]

/-- A scan of a file leaves every answer as it is. -/
theorem FileScan.reading_eq (scan : FileScan files path scanner result later) :
    later.reading files other = scanner.reading files other := by
  have answer := scan.result_eq
  by_cases same : path = other
  · subst same
    -- A unit that is kept is the answer from now on, and it was the answer before.
    have kept {unit : SourceUnit} (scanned : later.scanned = scanner.scanned.put path unit) :
        later.reading files path = .ok unit := by
      rw [reading, scanned, Entries.find?_put, if_pos rfl]
    cases scan with
    | known => rfl
    | hit _ _ _ scanned => rw [kept scanned, answer]
    | read _ _ _ _ scanned => rw [kept scanned, answer]
    | failed _ _ _ cache scanned =>
      exact reading_congr (by rw [scanned]) (held?_map cache fun _ => SourceCache.current?_get)
  · refine reading_congr (scan.find?_scanned same) ?_
    cases scan with
    | known => rfl
    | hit _ _ cache => rw [held?, held?, cache]
    | read _ _ _ cache =>
      refine held?_map cache fun before => SourceCache.current?_congr ?_
      exact (SourceCache.find?_set same).trans (SourceCache.find?_get same)
    | failed _ _ _ cache => exact held?_map cache fun _ => SourceCache.current?_get

/-- Scanners that answer alike. -/
def Alike (files : FileSystem) (s t : SourceScanner) : Prop :=
  ∀ path, s.reading files path = t.reading files path

theorem Alike.refl (s : SourceScanner) : Alike files s s := fun _ => rfl

theorem Alike.symm (alike : Alike files s t) : Alike files t s := fun path => (alike path).symm

theorem Alike.trans (first : Alike files s t) (second : Alike files t u) : Alike files s u :=
  fun path => (first path).trans (second path)

end SourceScanner

/-! ## Runs -/

namespace Scan

open SourceScanner

variable {work : Scan α} {next : α → Scan β}

/-- Work whose result follows from the answers of the scanner, and that changes none of them. -/
structure Reads (files : FileSystem) (work : Scan α) : Prop where
  keeps : ∀ scanner, Alike files scanner (work scanner).2
  same : ∀ s t, Alike files s t → (work s).1 = (work t).1

theorem reads_pure (value : α) : Reads files (pure value : Scan α) := ⟨Alike.refl, fun _ _ _ => rfl⟩

private theorem reads_ofExcept_bind {result : Except BuildError α}
    (each : ∀ value, result = .ok value → Reads files (next value)) :
    Reads files (Scan.ofExcept result >>= next) := by
  cases result with
  | error error => exact ⟨Alike.refl, fun _ _ _ => rfl⟩
  | ok value => exact each value rfl

theorem reads_note (entry : LogEntry) : Reads files (Scan.note entry) :=
  ⟨fun _ _ => rfl, fun _ _ _ => rfl⟩

theorem reads_bind (first : Reads files work) (second : ∀ value, Reads files (next value)) :
    Reads files (work >>= next) := by
  constructor
  · intro scanner
    have kept := first.keeps scanner
    rw [bind_run]
    rcases done : work scanner with ⟨result, later⟩
    rw [done] at kept
    cases result with
    | error error => exact kept
    | ok value => exact kept.trans ((second value).keeps later)
  · intro s t alike
    have result := first.same s t alike
    have left := first.keeps s
    have right := first.keeps t
    rw [bind_run, bind_run]
    rcases doneLeft : work s with ⟨answer, s'⟩
    rcases doneRight : work t with ⟨other, t'⟩
    rw [doneLeft, doneRight] at result
    rw [doneLeft] at left
    rw [doneRight] at right
    obtain rfl : answer = other := result
    cases answer with
    | error error => rfl
    | ok value => exact (second value).same s' t' (left.symm.trans (alike.trans right))

end Scan

namespace SourceScanner

private theorem reads_scanFile (files : FileSystem) (path : String) :
    Scan.Reads files (scanFile files path) := by
  constructor
  · exact fun scanner _ => (fileScan files path scanner).reading_eq.symm
  · intro s t alike
    rw [(fileScan files path s).result_eq, (fileScan files path t).result_eq]
    exact alike path

private theorem reads_scanFiles (paths seen : List String) (units : UnitList) :
    Scan.Reads files (scanFiles files seen units paths) := by
  induction paths generalizing seen units with
  | nil => exact Scan.reads_pure _
  | cons path paths ih =>
    rw [scanFiles]
    split
    · exact ih _ _
    · exact Scan.reads_bind (reads_scanFile files path) fun unit => ih _ _

theorem reads_scan (files : FileSystem) (options : RunOptions) (locators : List String) :
    Scan.Reads files (scan files options locators) := by
  have all (seen : List String) (units : UnitList) :
      Scan.Reads files (scanLocators files options seen units locators) := by
    induction locators generalizing seen units with
    | nil => exact Scan.reads_pure _
    | cons locator locators ih =>
      rw [scanLocators]
      exact Scan.reads_ofExcept_bind fun paths _ =>
        Scan.reads_bind (reads_scanFiles paths _ _) fun listed => ih _ _
  exact all [] []

end SourceScanner

end ChunkPlan
