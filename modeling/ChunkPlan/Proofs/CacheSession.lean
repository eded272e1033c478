import ChunkPlan.Proofs.CacheFile
import ChunkPlan.Proofs.SourceFiles

/-!
# Sessions with a cache file

Source files are edited and deleted between the steps of runs that share a cache file.  An entry is
right as long as its file has the recorded date; a save gives the entries new dates, so what they
hold at that moment decides.
-/

set_option autoImplicit false

namespace ChunkPlan

/-- Source files, a cache file, and the run that goes on with them. -/
structure CacheSession where
  files : FileSystem
  file : String
  /-- The files at earlier moments. -/
  past : List FileSystem := []
  /-- The scanner of the run, if one has begun. -/
  scanner : Option SourceScanner := none

namespace CacheSession

inductive Step where
  | edit (path : String) (bytes : ByteArray) (modified : Int)
  | delete (path : String)
  /-- Begins a run, which loads the cache file. -/
  | start
  /-- Goes on with the same cache and a new scanner. -/
  | renew
  | scan (options : RunOptions) (locators : List String)
  | lookUp (path : String)
  | save

def Step.edited? : Step → Option String
  | .edit path _ _ => some path
  | _ => none

def cache? (s : CacheSession) : Option SourceCache := s.scanner.bind (·.cache)

/-- Changes the files and remembers what they were. -/
def change (s : CacheSession) (files : FileSystem) : CacheSession :=
  { s with files, past := s.files :: s.past }

def step (s : CacheSession) : Step → CacheSession
  | .edit path bytes modified => s.change (s.files.edit path bytes modified)
  | .delete path => s.change (s.files.deleteFile path)
  | .start => { s with scanner := some { cache := some (SourceCache.load s.files s.file).1 } }
  | .renew => { s with scanner := some { cache := s.cache? } }
  | .scan options locators =>
    { s with scanner := s.scanner.map fun scanner =>
        (SourceScanner.scan s.files options locators scanner).2 }
  | .lookUp path =>
    { s with scanner := s.scanner.map fun scanner => (scanner.lookUp s.files path).2 }
  | .save =>
    match s.cache? with
    | none => s
    | some cache => s.change (cache.save s.files).1

def run (s : CacheSession) (steps : List Step) : CacheSession := steps.foldl step s

def trail (s : CacheSession) : List Step → List CacheSession
  | [] => [s]
  | next :: steps => s :: (s.step next).trail steps

/-- Every step with the session that it is taken in. -/
def moves (s : CacheSession) : List Step → List (CacheSession × Step)
  | [] => []
  | next :: steps => (s, next) :: (s.step next).moves steps

/-- The entries that a run would begin with. -/
def stored (s : CacheSession) : Entries CacheEntry := (SourceCache.load s.files s.file).1.entries

def cachePlace (s : CacheSession) : List String := s.files.placeOf (Path.tidy s.file)

/-- Whether a path is not that of the cache file. -/
def IsSource (s : CacheSession) (path : String) : Prop := s.files.placeOf path ≠ s.cachePlace

/-- Whether no step edits the cache file. -/
def Spares (s : CacheSession) (steps : List Step) : Prop :=
  ∀ step ∈ steps, ∀ path ∈ step.edited?, s.IsSource path

/-- Whether every lookup of a source file that gives a unit gives the one of its text. -/
def Sound (s : CacheSession) : Prop :=
  ∀ cache path unit, s.cache? = some cache → s.IsSource path → s.files.HasFile path →
    (cache.get s.files path).1 = some unit → s.files.Shows path unit

/-- Whether what stood at a place has had a date in milliseconds, now or before. -/
def HadDate (s : CacheSession) (place : List String) (date : Int) : Prop :=
  ∃ files ∈ s.files :: s.past,
    (files.at? place).map (fun item => FileSystem.milliseconds item.modified) = some date

/-- The entries of the run and those that another one would begin with. -/
def Known (s : CacheSession) (path : String) (entry : CacheEntry) : Prop :=
  (∃ cache, s.cache? = some cache ∧ (path, entry) ∈ cache.entries) ∨
    (path, entry) ∈ s.stored

def Saves (s : CacheSession) (cache : SourceCache) : Prop :=
  (s.files.writeOutput cache.file (Json.render (.object (cache.members s.files)))).error = none

/-- Whether the entries that a cache is saved with hold what their files say. -/
def SavesFaithfully (s : CacheSession) : Prop :=
  ∀ cache path entry, s.cache? = some cache → s.Saves cache → (path, entry) ∈ cache.entries →
    s.IsSource path → s.files.HasFile path → s.files.Shows path entry.unit

/-- Whether an edit that gives a file a date it has had leaves the entries right that have this
date. -/
def EditsApart (s : CacheSession) (path : String) (bytes : ByteArray) (modified : Int) : Prop :=
  let after := s.files.edit path bytes modified
  s.HadDate (s.files.placeOf path) (FileSystem.milliseconds modified) →
    ∀ source entry, s.Known source entry → s.files.placeOf source = s.files.placeOf path →
      after.HasFile source → entry.date.isDate (after.modified? source) = true →
      after.Shows source entry.unit

/-- What a step has to mind. -/
def Careful (s : CacheSession) : Step → Prop
  | .edit path bytes modified => s.EditsApart path bytes modified
  | .save => s.SavesFaithfully
  | _ => True

/-! ## Entries that fit -/

variable {s : CacheSession} {after : FileSystem} {path : String} {entry : CacheEntry}
  {place : List String} {date : Int} {entries : Entries CacheEntry} {unit : SourceUnit}
  {cache : SourceCache} {scanner : SourceScanner}

/-- An entry that is right as long as its file has the recorded date.  This date is one that the
file has had, so an edit with a new one does not bring the entry back. -/
structure Fits (s : CacheSession) (path : String) (entry : CacheEntry) (place : List String)
    (date : Int) : Prop where
  located : s.files.locate path = .ok place
  dated : entry.date = .integer date
  had : s.HadDate place date
  created :
    entry.unit = .create path entry.unit.provides entry.unit.requires entry.unit.isModule
  right : place ≠ s.cachePlace → ∀ bytes modified, s.files.fileAt? place = some (bytes, modified) →
    FileSystem.milliseconds modified = date → s.files.Shows path entry.unit

/-- Entries that all fit, each under its own key. -/
structure Sane (s : CacheSession) (entries : Entries CacheEntry) : Prop where
  unique : entries.keys.Nodup
  fits : ∀ path entry, (path, entry) ∈ entries → ∃ place date, s.Fits path entry place date

/-- What holds at every moment of a careful session. -/
structure Invariant (s : CacheSession) : Prop where
  names : s.files.root.WellNamed
  found : s.files.fileAt? s.cachePlace ≠ none → s.files.locate (Path.tidy s.file) = .ok s.cachePlace
  stored : s.Sane s.stored
  cached : ∀ cache, s.cache? = some cache → cache.file = Path.tidy s.file ∧ s.Sane cache.entries

theorem hadDate_change (had : s.HadDate place date) : (s.change after).HadDate place date := by
  obtain ⟨files, member, dated⟩ := had
  exact ⟨files, List.mem_cons_of_mem _ member, dated⟩

theorem cachePlace_change (grows : s.files.Grows after) :
    (s.change after).cachePlace = s.cachePlace :=
  FileSystem.placeOf_grows grows (Path.tidy s.file)

theorem stored_change : (s.change after).stored = (SourceCache.load after s.file).1.entries := by
  simp only [stored, change]

theorem isSource_change (grows : s.files.Grows after) (source : s.IsSource path) :
    (s.change after).IsSource path := by
  unfold IsSource
  rw [cachePlace_change grows]
  exact (FileSystem.placeOf_grows grows path).trans_ne source

theorem Fits.change (fits : s.Fits path entry place date) (grows : s.files.Grows after)
    (right : place ≠ s.cachePlace → ∀ bytes modified, after.fileAt? place = some (bytes, modified) →
      FileSystem.milliseconds modified = date → after.Shows path entry.unit) :
    (s.change after).Fits path entry place date where
  located := FileSystem.locate_grows grows fits.located
  dated := fits.dated
  had := hadDate_change fits.had
  created := fits.created
  right := by
    rw [cachePlace_change grows]
    exact right

/-- An entry fits as long as its file is as before. -/
theorem Fits.unchanged (fits : s.Fits path entry place date) (grows : s.files.Grows after)
    (same : place ≠ s.cachePlace → after.fileAt? place = s.files.fileAt? place) :
    (s.change after).Fits path entry place date := by
  apply fits.change grows
  intro source bytes modified found dated
  have shows := fits.right source bytes modified ((same source).symm.trans found) dated
  exact shows.moved fits.located (FileSystem.locate_grows grows fits.located) (same source)

theorem Sane.change (sane : s.Sane entries)
    (keeps : ∀ path entry place date, (path, entry) ∈ entries → s.Fits path entry place date →
      (s.change after).Fits path entry place date) : (s.change after).Sane entries := by
  refine ⟨sane.unique, fun path entry member => ?_⟩
  obtain ⟨place, date, fits⟩ := sane.fits path entry member
  exact ⟨place, date, keeps path entry place date member fits⟩

theorem Sane.nil : s.Sane [] := ⟨List.nodup_nil, fun _ _ member => nomatch member⟩

theorem Sane.remove (sane : s.Sane entries) (key : String) : s.Sane (entries.remove key) :=
  ⟨Entries.nodup_keys_remove sane.unique,
    fun path entry member => sane.fits path entry (List.mem_of_mem_filter member)⟩

theorem Sane.put (sane : s.Sane entries) (fits : s.Fits path entry place date) :
    s.Sane (entries.put path entry) := by
  refine ⟨Entries.nodup_keys_put sane.unique, fun other stored member => ?_⟩
  rcases Entries.mem_put member with member | same
  · exact sane.fits other stored member
  · cases same
    exact ⟨place, date, fits⟩

/-- A unit that is scanned fits under the path it is scanned by. -/
theorem fits_of_shows (shows : s.files.Shows path unit) :
    ∃ place date, s.files.modified? path = some date ∧
      s.Fits path ⟨unit, .integer date⟩ place date := by
  obtain ⟨text, read, scanned⟩ := id shows
  obtain ⟨bytes, modified, isFile⟩ := FileSystem.hasFile_of_readText read
  obtain ⟨place, located, reached⟩ := FileSystem.item_eq_ok.mp isFile
  refine ⟨place, FileSystem.milliseconds modified, ?_, located, rfl, ?_, shows.created, ?_⟩
  · exact FileSystem.modified?_eq_some.mpr ⟨_, isFile, rfl⟩
  · exact ⟨s.files, List.mem_cons_self .., by rw [reached]; rfl⟩
  · exact fun _ _ _ _ _ => shows

/-! ## Steps that leave the files alone -/

/-- Whether the cache of a scanner is one of this cache file and its entries fit. -/
def Carries (s : CacheSession) (scanner : SourceScanner) : Prop :=
  ∀ cache, scanner.cache = some cache → cache.file = Path.tidy s.file ∧ s.Sane cache.entries

theorem carries_lookUp (carries : s.Carries scanner) (path : String) :
    s.Carries (scanner.lookUp s.files path).2 := by
  unfold SourceScanner.lookUp
  split
  · exact carries
  · next cache before =>
    obtain ⟨file, sane⟩ := carries cache before
    have after : (cache.get s.files path).2.1.file = Path.tidy s.file ∧
        s.Sane (cache.get s.files path).2.1.entries := by
      rcases SourceCache.get_cases s.files cache path with same | gone
      · rw [same]
        exact ⟨file, sane⟩
      · rw [gone]
        exact ⟨file, sane.remove path⟩
    simp only
    split <;> exact fun _ same => Option.some.inj same ▸ after

private theorem carries_store (carries : s.Carries scanner) (shows : s.files.Shows path unit) :
    s.Carries (scanner.store s.files path unit) := by
  intro later stored
  obtain ⟨cache, before, rfl⟩ := Option.map_eq_some_iff.mp stored
  obtain ⟨file, sane⟩ := carries cache before
  obtain ⟨place, date, dated, fits⟩ := fits_of_shows shows
  refine ⟨file, ?_⟩
  rw [SourceCache.set, dated]
  exact sane.put fits

private theorem carries_scanFile (resolved : s.files.resolve path = path) :
    Scan.Preserves s.Carries (SourceScanner.scanFile s.files path) := by
  intro scanner carries
  have looked := carries_lookUp carries path
  unfold SourceScanner.scanFile
  split
  · exact carries
  · split
    · next result =>
      rw [result] at looked
      exact looked
    · next result =>
      rw [result] at looked
      simp only
      split
      · exact looked
      · next scanned =>
        exact carries_store looked (FileSystem.shows_of_ofFile resolved scanned)

theorem Invariant.carries (inv : s.Invariant) (goes : s.scanner = some scanner) :
    s.Carries scanner := by
  intro cache kept
  exact inv.cached cache (by rw [cache?, goes]; exact kept)

/-- The scanner has no part in what fits. -/
theorem Sane.rescan {next : Option SourceScanner} (sane : s.Sane entries) :
    ({ s with scanner := next } : CacheSession).Sane entries := by
  refine ⟨sane.unique, fun path entry member => ?_⟩
  obtain ⟨place, date, fits⟩ := sane.fits path entry member
  exact ⟨place, date, fits.located, fits.dated, fits.had, fits.created, fits.right⟩

private theorem stored_rescan (next : Option SourceScanner) :
    ({ s with scanner := next } : CacheSession).stored = s.stored := by
  simp only [stored]

private theorem Invariant.rescan {next : Option SourceScanner} (inv : s.Invariant)
    (carries : ∀ scanner, next = some scanner → s.Carries scanner) :
    ({ s with scanner := next } : CacheSession).Invariant where
  names := inv.names
  found := inv.found
  stored := stored_rescan next ▸ inv.stored.rescan
  cached := by
    intro cache kept
    obtain ⟨scanner, goes, kept⟩ := Option.bind_eq_some_iff.mp kept
    obtain ⟨file, sane⟩ := carries scanner goes cache kept
    exact ⟨file, sane.rescan⟩

/-! ## Steps that change the files -/

/-- What is stored is the same as long as the cache file is. -/
theorem Invariant.stored_eq (inv : s.Invariant) (grows : s.files.Grows after)
    (same : after.fileAt? s.cachePlace = s.files.fileAt? s.cachePlace) :
    (s.change after).stored = s.stored := by
  rw [stored_change, CacheSession.stored]
  cases held : s.files.fileAt? s.cachePlace with
  | none =>
    have before : s.files.fileAt? (s.files.placeOf (Path.tidy s.file)) = none := held
    have later : after.fileAt? (after.placeOf (Path.tidy s.file)) = none := by
      rw [FileSystem.placeOf_grows grows]
      exact same.trans held
    rw [SourceCache.load_of_not_file fun _ _ => FileSystem.item_ne_file before,
      SourceCache.load_of_not_file fun _ _ => FileSystem.item_ne_file later]
  | some file =>
    have located := inv.found (by simp [held])
    have later := FileSystem.locate_grows grows located
    rw [SourceCache.load_of_file ((FileSystem.item_eq_file_of_locate located).mpr held),
      SourceCache.load_of_file ((FileSystem.item_eq_file_of_locate later).mpr (same.trans held))]

/-- A change that leaves the cache file alone or takes it away keeps the invariant if all entries
still fit. -/
theorem Invariant.change (inv : s.Invariant) (grows : s.files.Grows after)
    (same : after.fileAt? s.cachePlace ≠ none →
      after.fileAt? s.cachePlace = s.files.fileAt? s.cachePlace)
    (keeps : ∀ path entry place date, s.Known path entry → s.Fits path entry place date →
      (s.change after).Fits path entry place date) : (s.change after).Invariant where
  names := grows.names inv.names
  found := by
    rw [cachePlace_change grows]
    intro held
    have before := same held ▸ held
    exact FileSystem.locate_grows grows (inv.found before)
  stored := by
    by_cases gone : after.fileAt? s.cachePlace = none
    · have later : after.fileAt? (after.placeOf (Path.tidy s.file)) = none := by
        rw [FileSystem.placeOf_grows grows]
        exact gone
      rw [stored_change, SourceCache.load_of_not_file fun _ _ => FileSystem.item_ne_file later]
      exact .nil
    · rw [inv.stored_eq grows (same gone)]
      exact inv.stored.change fun path entry place date member =>
        keeps path entry place date (.inr member)
  cached := by
    intro cache kept
    obtain ⟨file, sane⟩ := inv.cached cache kept
    exact ⟨file, sane.change fun path entry place date member =>
      keeps path entry place date (.inl ⟨cache, kept, member⟩)⟩

theorem Invariant.keeps (inv : s.Invariant) (keeps : s.files.Keeps after) :
    (s.change after).Invariant :=
  inv.change keeps.toGrows (fun _ => keeps.files _) fun _ _ place _ _ fits =>
    fits.unchanged keeps.toGrows fun _ => keeps.files place

theorem Invariant.edit {bytes : ByteArray} {modified : Int} (inv : s.Invariant)
    (source : s.IsSource path) (careful : s.EditsApart path bytes modified) :
    (s.step (.edit path bytes modified)).Invariant := by
  rcases FileSystem.edit_cases s.files path bytes modified with keeps | revises
  · exact inv.keeps keeps
  · refine inv.change revises.toGrows (fun _ => ?_) fun other entry place date known fits => ?_
    · rw [revises.files, if_neg source]
    · by_cases here : s.files.placeOf path = place
      · apply fits.change revises.toGrows
        intro _ laterBytes laterModified found dated
        rw [revises.files, if_pos here] at found
        cases found
        subst dated
        have located := FileSystem.locate_grows revises.toGrows fits.located
        have isFile := (FileSystem.item_eq_file_of_locate located).mpr
          ((revises.files place).trans (if_pos here))
        refine careful (here ▸ fits.had) other entry known ?_ ⟨_, _, isFile⟩ ?_
        · exact (FileSystem.locate_ok fits.located).symm.trans here.symm
        · rw [fits.dated, FileSystem.modified?_eq_some.mpr ⟨_, isFile, rfl⟩]
          exact Json.isDate_integer.mpr rfl
      · exact fits.unchanged revises.toGrows fun _ => by rw [revises.files, if_neg here]

theorem Invariant.delete (inv : s.Invariant) (path : String) : (s.step (.delete path)).Invariant := by
  rcases FileSystem.deleteFile_cases s.files path with same | ⟨gone, revises⟩
  · refine inv.keeps ?_
    rw [same]
    exact .refl _
  · refine inv.change revises.toGrows (fun left => ?_) fun other entry place date known fits => ?_
    · rw [revises.files] at left ⊢
      split at left
      · exact absurd rfl left
      · next apart => exact if_neg apart
    · by_cases here : gone = place
      · apply fits.change revises.toGrows
        intro _ bytes modified found _
        rw [revises.files, if_pos here] at found
        cases found
      · exact fits.unchanged revises.toGrows fun _ => by rw [revises.files, if_neg here]

/-- What a save that succeeds does: only the cache file is another one, and loading it gives the
entries saved. -/
structure Stores (s : CacheSession) (cache : SourceCache) (after : FileSystem) : Prop where
  grows : s.files.Grows after
  located : after.locate (Path.tidy s.file) = .ok s.cachePlace
  same : ∀ place, place ≠ s.cachePlace → after.fileAt? place = s.files.fileAt? place
  loaded : (SourceCache.load after s.file).1.entries = cache.saved s.files

theorem step_save (kept : s.cache? = some cache) :
    s.step .save = s.change (cache.save s.files).1 := by
  unfold step
  rw [kept]

theorem Invariant.save_cases (inv : s.Invariant) (kept : s.cache? = some cache) :
    (¬s.Saves cache ∧ s.files.Keeps (cache.save s.files).1) ∨
      s.Saves cache ∧ s.Stores cache (cache.save s.files).1 := by
  obtain ⟨file, sane⟩ := inv.cached cache kept
  by_cases saves : s.Saves cache
  · obtain ⟨located, ⟨_, revises⟩, loaded⟩ := SourceCache.load_of_saves sane.unique saves
    rw [file, Path.tidy_tidy] at located revises loaded
    rw [SourceCache.load_tidy] at loaded
    refine .inr ⟨saves, revises.toGrows, located, fun place source => ?_, by rw [loaded]⟩
    exact (revises.files place).trans (if_neg (Ne.symm source))
  · exact .inl ⟨saves, SourceCache.keeps_of_not_saves saves⟩

/-- What is saved fits if it is saved faithfully: it has the date of now. -/
theorem fits_saved (sane : s.Sane cache.entries) (stores : s.Stores cache after)
    (faithful : ∀ path entry, (path, entry) ∈ cache.entries → s.IsSource path →
      s.files.HasFile path → s.files.Shows path entry.unit)
    (member : (path, entry) ∈ cache.saved s.files) :
    ∃ place date, (s.change after).Fits path entry place date := by
  obtain ⟨old, date, listed, dated, rfl⟩ := SourceCache.mem_saved.mp member
  obtain ⟨place, _, fits⟩ := sane.fits path old listed
  obtain ⟨item, found, dated⟩ := FileSystem.modified?_eq_some.mp dated
  obtain ⟨there, located, reached⟩ := FileSystem.item_eq_ok.mp found
  obtain rfl : there = place := Except.ok.inj (located.symm.trans fits.located)
  have later := FileSystem.locate_grows stores.grows located
  have had : s.HadDate there date := ⟨s.files, List.mem_cons_self .., by rw [reached, ← dated]; rfl⟩
  refine ⟨there, date, later, rfl, hadDate_change had, rfl, ?_⟩
  rw [cachePlace_change stores.grows]
  intro source bytes modified isFile _
  have before := (stores.same there source).symm.trans isFile
  have shows := faithful path old listed
    (fun cached => source ((FileSystem.locate_ok located).trans cached))
    ((FileSystem.hasFile_iff located).mpr ⟨bytes, modified, before⟩)
  rw [← fits.created]
  exact shows.moved located later (stores.same there source)

theorem Invariant.save (inv : s.Invariant) (faithful : s.SavesFaithfully) :
    (s.step .save).Invariant := by
  cases kept : s.cache? with
  | none =>
    unfold step
    rwa [kept]
  | some cache =>
    rw [step_save kept]
    rcases inv.save_cases kept with ⟨_, keeps⟩ | ⟨done, stores⟩
    · exact inv.keeps keeps
    · obtain ⟨_, sane⟩ := inv.cached cache kept
      refine ⟨stores.grows.names inv.names, fun _ => ?_, ?_, fun later kept => ?_⟩
      · rw [cachePlace_change stores.grows]
        exact stores.located
      · rw [stored_change, stores.loaded]
        refine ⟨?_, fun path entry member =>
          fits_saved sane stores (fun path entry => faithful cache path entry kept done) member⟩
        exact SourceCache.nodup_keys_saved sane.unique
      · obtain ⟨laterFile, laterSane⟩ := inv.cached later kept
        exact ⟨laterFile, laterSane.change fun _ _ place _ _ fits =>
          fits.unchanged stores.grows (stores.same place)⟩

/-- A step of a careful session keeps the invariant. -/
theorem Invariant.step (inv : s.Invariant) {next : Step} (spares : s.Spares [next])
    (careful : s.Careful next) : (s.step next).Invariant := by
  cases next with
  | edit path bytes modified =>
    exact inv.edit (spares _ (List.mem_singleton_self _) path rfl) careful
  | delete path => exact inv.delete path
  | start =>
    apply inv.rescan
    intro scanner begun
    cases begun
    intro cache loaded
    cases loaded
    exact ⟨SourceCache.file_load _ _, inv.stored⟩
  | renew =>
    apply inv.rescan
    intro scanner renewed
    cases renewed
    exact inv.cached
  | scan options locators =>
    apply inv.rescan
    intro scanner scanned
    obtain ⟨before, goes, rfl⟩ := Option.map_eq_some_iff.mp scanned
    exact SourceScanner.preserves_scan inv.names (fun path resolved => carries_scanFile resolved)
      options locators before (inv.carries goes)
  | lookUp path =>
    apply inv.rescan
    intro scanner looked
    obtain ⟨before, goes, rfl⟩ := Option.map_eq_some_iff.mp looked
    exact carries_lookUp (inv.carries goes) path
  | save => exact inv.save careful

end CacheSession

end ChunkPlan
