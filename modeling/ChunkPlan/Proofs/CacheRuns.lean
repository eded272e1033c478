import ChunkPlan.Proofs.CacheSession

/-!
# Lookups over whole sessions

Lookups are right throughout a session exactly when its steps are careful: a save writes no entry
that its file has outgrown, and an edit brings no entry back with a date that its file had before.
-/

set_option autoImplicit false

namespace ChunkPlan.CacheSession

variable {s : CacheSession} {after : FileSystem} {path : String} {entry : CacheEntry}
  {unit : SourceUnit} {cache : SourceCache} {steps : List Step}

/-! ## Lookups -/

theorem Invariant.sound (inv : s.Invariant) : s.Sound := by
  intro cache path unit kept source ⟨bytes, modified, isFile⟩ got
  obtain ⟨entry, found, hit, rfl⟩ := SourceCache.get_eq_some.mp got
  obtain ⟨place, date, fits⟩ := (inv.cached cache kept).2.fits path entry (Entries.mem_of_find? found)
  rw [fits.dated, FileSystem.modified?_eq_some.mpr ⟨_, isFile, rfl⟩] at hit
  refine fits.right (fun cached => source ?_) bytes modified
    ((FileSystem.item_eq_file_of_locate fits.located).mp isFile) (Json.isDate_integer.mp hit).symm
  exact (FileSystem.locate_ok fits.located).symm.trans cached

/-- An entry that is hit is what a lookup gives. -/
theorem Sound.shows (sound : s.Sound) (kept : s.cache? = some cache)
    (unique : cache.entries.keys.Nodup) (member : (path, entry) ∈ cache.entries)
    (source : s.IsSource path) (isFile : s.files.HasFile path)
    (hit : entry.date.isDate (s.files.modified? path) = true) : s.files.Shows path entry.unit :=
  sound cache path entry.unit kept source isFile
    (SourceCache.get_eq_some.mpr ⟨entry, Entries.find?_of_mem unique member, hit, rfl⟩)

private theorem cache?_start (s : CacheSession) :
    (s.step .start).cache? = some (SourceCache.load s.files s.file).1 := rfl

/-- An entry of the cache file that is hit is what a lookup gives in a run that is started. -/
theorem Sound.shows_stored (sound : (s.step .start).Sound)
    (member : (path, entry) ∈ s.stored)
    (source : s.IsSource path) (isFile : s.files.HasFile path)
    (hit : entry.date.isDate (s.files.modified? path) = true) : s.files.Shows path entry.unit :=
  sound (SourceCache.load s.files s.file).1 path entry.unit (cache?_start s) source isFile
    (SourceCache.get_eq_some.mpr
      ⟨entry, Entries.find?_of_mem (SourceCache.nodup_load s.files s.file) member, hit, rfl⟩)

/-- After a change that leaves the cache file alone the entries known before are still looked up. -/
theorem Known.shows {s : CacheSession} (known : s.Known path entry) (inv : s.Invariant)
    (grows : s.files.Grows after) (same : after.fileAt? s.cachePlace = s.files.fileAt? s.cachePlace)
    (now : (s.change after).Sound) (next : ((s.change after).step .start).Sound)
    (source : s.IsSource path) (isFile : after.HasFile path)
    (hit : entry.date.isDate (after.modified? path) = true) : after.Shows path entry.unit := by
  have source := isSource_change grows source
  rcases known with ⟨cache, kept, member⟩ | member
  · have shows := now.shows kept (inv.cached cache kept).2.unique member source isFile hit
    exact shows
  · rw [← inv.stored_eq grows same] at member
    have shows := Sound.shows_stored next member source isFile hit
    exact shows

private theorem editsApart_of_sound {bytes : ByteArray} {modified : Int} (inv : s.Invariant)
    (source : s.IsSource path) (now : (s.step (.edit path bytes modified)).Sound)
    (next : ((s.step (.edit path bytes modified)).step .start).Sound) :
    s.EditsApart path bytes modified := by
  have change : s.files.Grows (s.files.edit path bytes modified) ∧
      (s.files.edit path bytes modified).fileAt? s.cachePlace = s.files.fileAt? s.cachePlace := by
    rcases FileSystem.edit_cases s.files path bytes modified with keeps | revises
    · exact ⟨keeps.toGrows, keeps.files _⟩
    · exact ⟨revises.toGrows, (revises.files _).trans (if_neg source)⟩
  intro _ other entry known led isFile hit
  exact known.shows inv change.1 change.2 now next (fun cached => source (led.symm.trans cached))
    isFile hit

private theorem savesFaithfully_of_sound (inv : s.Invariant)
    (next : ((s.step .save).step .start).Sound) :
    s.SavesFaithfully := by
  intro cache path entry kept done member source ⟨bytes, modified, isFile⟩
  obtain ⟨place, date, fits⟩ := (inv.cached cache kept).2.fits path entry member
  have stores := ((inv.save_cases kept).resolve_left fun failed => failed.1 done).2
  rw [step_save kept] at next
  generalize (cache.save s.files).1 = after at stores next
  have apart : place ≠ s.cachePlace := fun cached =>
    source ((FileSystem.locate_ok fits.located).symm.trans cached)
  have later := FileSystem.locate_grows stores.grows fits.located
  have held := (FileSystem.item_eq_file_of_locate fits.located).mp isFile
  have laterFile := (FileSystem.item_eq_file_of_locate later).mpr ((stores.same place apart).trans held)
  -- The new run loads the entry with the date that the file still has.
  have listed := SourceCache.mem_saved.mpr
    ⟨entry, _, member, FileSystem.modified?_eq_some.mpr ⟨_, isFile, rfl⟩, rfl⟩
  rw [← stores.loaded] at listed
  have laterSource : (s.change after).IsSource path := isSource_change stores.grows source
  have hit : (Json.integer (FileSystem.milliseconds modified)).isDate (after.modified? path) = true := by
    rw [FileSystem.modified?_eq_some.mpr ⟨_, laterFile, rfl⟩]
    exact Json.isDate_integer.mpr rfl
  have shows := Sound.shows_stored next listed laterSource ⟨bytes, modified, laterFile⟩ hit
  rw [← fits.created] at shows
  exact shows.moved later fits.located (stores.same place apart).symm

private theorem careful_of_sound {next : Step} (inv : s.Invariant) (spares : s.Spares [next])
    (now : (s.step next).Sound) (later : ((s.step next).step .start).Sound) : s.Careful next := by
  cases next with
  | edit path bytes modified =>
    exact editsApart_of_sound inv (spares _ (List.mem_singleton_self _) path rfl) now later
  | save => exact savesFaithfully_of_sound inv later
  | _ => trivial

/-! ## Whole sessions -/

theorem isSource_step (next : Step) (source : s.IsSource path) : (s.step next).IsSource path := by
  cases next with
  | edit path bytes modified =>
    rcases FileSystem.edit_cases s.files path bytes modified with keeps | revises
    · exact isSource_change keeps.toGrows source
    · exact isSource_change revises.toGrows source
  | delete path =>
    rcases FileSystem.deleteFile_cases s.files path with same | ⟨_, revises⟩
    · refine isSource_change ?_ source
      rw [same]
      exact .refl _
    · exact isSource_change revises.toGrows source
  | start => exact source
  | renew => exact source
  | scan options locators => exact source
  | lookUp path => exact source
  | save =>
    cases kept : s.cache? with
    | none =>
      unfold step
      rwa [kept]
    | some cache =>
      rw [step_save kept]
      exact isSource_change (cache.grows_save s.files) source

private theorem run_mem_trail : s.run steps ∈ s.trail steps := by
  induction steps generalizing s with
  | nil => exact List.mem_singleton_self _
  | cons next steps ih => exact List.mem_cons_of_mem _ ih

theorem mem_trail_self : s ∈ s.trail steps := by cases steps <;> simp [trail]

/-- A step of a session is taken on its trail, and leads on along it. -/
theorem trail_of_moves {t : CacheSession} {next : Step} (move : (t, next) ∈ s.moves steps) :
    t ∈ s.trail steps ∧ t.step next ∈ s.trail steps := by
  induction steps generalizing s with
  | nil => cases move
  | cons first steps ih =>
    rcases List.mem_cons.mp move with same | later
    · cases same
      exact ⟨mem_trail_self, List.mem_cons_of_mem _ mem_trail_self⟩
    · obtain ⟨before, after⟩ := ih later
      exact ⟨List.mem_cons_of_mem _ before, List.mem_cons_of_mem _ after⟩

theorem Spares.of_moves {t : CacheSession} {next : Step} (spares : s.Spares steps)
    (move : (t, next) ∈ s.moves steps) : t.Spares [next] := by
  induction steps generalizing s with
  | nil => cases move
  | cons first steps ih =>
    rcases List.mem_cons.mp move with same | later
    · cases same
      intro step listed
      rw [List.mem_singleton.mp listed]
      exact spares next (List.mem_cons_self ..)
    · refine ih (fun step listed path edited => ?_) later
      exact isSource_step first (spares step (List.mem_cons_of_mem _ listed) path edited)

/-- The invariant holds all along a session whose steps are careful where it holds. -/
theorem Invariant.trail (inv : s.Invariant) (spares : s.Spares steps)
    (careful : ∀ t next, (t, next) ∈ s.moves steps → t.Invariant → t.Careful next) :
    ∀ t ∈ s.trail steps, t.Invariant := by
  induction steps generalizing s with
  | nil =>
    intro t member
    rw [List.mem_singleton.mp member]
    exact inv
  | cons next steps ih =>
    have first := careful s next (List.mem_cons_self ..) inv
    have begins := spares.of_moves (List.mem_cons_self ..)
    intro t member
    rcases List.mem_cons.mp member with rfl | later
    · exact inv
    · refine ih (inv.step begins first) (fun step listed path edited => ?_) ?_ t later
      · exact isSource_step next (spares step (List.mem_cons_of_mem _ listed) path edited)
      · exact fun t move member => careful t move (List.mem_cons_of_mem _ member)

/-- A session before the first run: no cache file is there. -/
structure Blank (s : CacheSession) : Prop where
  names : s.files.root.WellNamed
  absent : s.files.fileAt? s.cachePlace = none
  idle : s.scanner = none

theorem Blank.invariant (blank : s.Blank) : s.Invariant where
  names := blank.names
  found := fun held => absurd blank.absent held
  stored := by
    have absent : s.files.fileAt? (s.files.placeOf (Path.tidy s.file)) = none := blank.absent
    rw [stored, SourceCache.load_of_not_file fun _ _ => FileSystem.item_ne_file absent]
    exact .nil
  cached := by
    intro cache kept
    rw [cache?, blank.idle] at kept
    cases kept

/-! ## Dates -/

/-- Whether an edit gives a file a date that it never had. -/
def DatesAnew (s : CacheSession) : Step → Prop
  | .edit path _ modified => ¬s.HadDate (s.files.placeOf path) (FileSystem.milliseconds modified)
  | _ => True

/-- Whether a save finds every entry with the date that its file has now. -/
def SavesDated (s : CacheSession) : Step → Prop
  | .save => ∀ cache ∈ s.cache?, ∀ entry ∈ cache.entries,
      entry.2.date.isDate (s.files.modified? entry.1) = true
  | _ => True

private theorem Invariant.careful_of_dates {next : Step} (inv : s.Invariant)
    (anew : s.DatesAnew next)
    (dated : s.SavesDated next) : s.Careful next := by
  cases next with
  | edit path bytes modified => exact fun had => absurd had anew
  | save =>
    intro cache path entry kept _ member source isFile
    exact inv.sound.shows kept (inv.cached cache kept).2.unique member source isFile
      (dated cache kept (path, entry) member)
  | _ => trivial

/-- Edits with new dates and saves of entries that are up to date are careful. -/
theorem Blank.careful_of_dates (blank : s.Blank) (spares : s.Spares steps)
    (dates : ∀ t next, (t, next) ∈ s.moves steps → t.DatesAnew next ∧ t.SavesDated next) :
    ∀ t next, (t, next) ∈ s.moves steps → t.Careful next := by
  have careful (t : CacheSession) (next : Step) (move : (t, next) ∈ s.moves steps)
      (inv : t.Invariant) : t.Careful next :=
    inv.careful_of_dates (dates t next move).1 (dates t next move).2
  have inv := blank.invariant.trail spares careful
  exact fun t next move => careful t next move (inv t (trail_of_moves move).1)

/-! ## Right lookups -/

/-- Every lookup is right, in every run of a session and in any that could be started on the way,
exactly when every step is careful. -/
theorem lookups_sound_iff (blank : s.Blank) (spares : s.Spares steps) :
    (∀ t ∈ s.trail steps, t.Sound ∧ (t.step .start).Sound) ↔
      ∀ t next, (t, next) ∈ s.moves steps → t.Careful next := by
  constructor
  · intro sound
    have careful (t : CacheSession) (next : Step) (move : (t, next) ∈ s.moves steps)
        (inv : t.Invariant) : t.Careful next := by
      obtain ⟨now, begun⟩ := sound (t.step next) (trail_of_moves move).2
      exact careful_of_sound inv (spares.of_moves move) now begun
    have inv := blank.invariant.trail spares careful
    exact fun t next move => careful t next move (inv t (trail_of_moves move).1)
  · intro careful t member
    have inv := blank.invariant.trail spares (fun t next move _ => careful t next move) t member
    have starts : t.Spares [.start] := by simp [Spares, Step.edited?]
    have begun : (t.step .start).Invariant := inv.step starts trivial
    exact ⟨inv.sound, begun.sound⟩

instance (s : CacheSession) (path : String) : Decidable (s.IsSource path) :=
  inferInstanceAs (Decidable (_ ≠ _))

instance (s : CacheSession) (steps : List Step) : Decidable (s.Spares steps) :=
  inferInstanceAs (Decidable (∀ step ∈ steps, ∀ path ∈ step.edited?, s.IsSource path))

instance (s : CacheSession) (place : List String) (date : Int) : Decidable (s.HadDate place date) :=
  inferInstanceAs (Decidable (∃ files ∈ s.files :: s.past, _ = some date))

instance (s : CacheSession) : (next : Step) → Decidable (s.DatesAnew next)
  | .edit path _ modified =>
    inferInstanceAs (Decidable ¬s.HadDate (s.files.placeOf path) (FileSystem.milliseconds modified))
  | .delete _ | .start | .renew | .scan .. | .lookUp _ | .save => isTrue trivial

instance (s : CacheSession) : (next : Step) → Decidable (s.SavesDated next)
  | .save => inferInstanceAs (Decidable (∀ cache ∈ s.cache?, ∀ entry ∈ cache.entries, _ = true))
  | .edit .. | .delete _ | .start | .renew | .scan .. | .lookUp _ => isTrue trivial

/-- A project with one directory and no files. -/
def bareProject : CacheSession := { files := .empty ["w"], file := "cache.json" }

theorem blank_bareProject : bareProject.Blank where
  names := FileSystem.wellNamed_empty (by decide)
  absent := by decide +kernel
  idle := rfl

/-- Two runs with an edit between them. -/
def editBetweenRuns : List Step :=
  [.edit "a.js" (Utf8.encode "goog.provide('a');") 1000000000000000000, .start, .scan {} ["a.js"],
    .save, .edit "a.js" (Utf8.encode "goog.provide('b');") 1000000001000000000, .start]

theorem lookups_sound_iff_editBetweenRuns : bareProject.Blank ∧ bareProject.Spares editBetweenRuns ∧
    ∀ t ∈ bareProject.trail editBetweenRuns, t.Sound ∧ (t.step .start).Sound := by
  have spares : bareProject.Spares editBetweenRuns := by decide +kernel
  have dates : ∀ move ∈ bareProject.moves editBetweenRuns,
      move.1.DatesAnew move.2 ∧ move.1.SavesDated move.2 := by decide +kernel
  have careful := blank_bareProject.careful_of_dates spares fun t next move => dates (t, next) move
  exact ⟨blank_bareProject, spares, (lookups_sound_iff blank_bareProject spares).mpr careful⟩

/-- A run whose file is edited between the scan and the save, and the start of another one. -/
def editBeforeSave : List Step :=
  [.edit "a.js" (Utf8.encode "goog.provide('a');") 1000000000000000000, .start, .scan {} ["a.js"],
    .edit "a.js" (Utf8.encode "goog.provide('b');") 1000000001000000000, .save, .start]

/-- Every edit has a new date, and still the second run looks up what the file said before. -/
theorem not_sound_editBeforeSave : bareProject.Blank ∧ bareProject.Spares editBeforeSave ∧
    (∀ move ∈ bareProject.moves editBeforeSave, move.1.DatesAnew move.2) ∧
    bareProject.run editBeforeSave ∈ bareProject.trail editBeforeSave ∧
    ¬(bareProject.run editBeforeSave).Sound := by
  refine ⟨blank_bareProject, by decide +kernel, by decide +kernel, run_mem_trail, fun sound => ?_⟩
  have got : ((bareProject.run editBeforeSave).cache?.bind fun cache =>
      (cache.get (bareProject.run editBeforeSave).files "/w/a.js").1).map (·.provides) =
        some ["a"] := by decide +kernel
  have content : ((bareProject.run editBeforeSave).files.readText "/w/a.js").toOption.map (fun text =>
      (SourceUnit.ofText "/w/a.js" text).toOption.map (·.provides)) = some (some ["b"]) := by
    decide +kernel
  have source : (bareProject.run editBeforeSave).IsSource "/w/a.js" := by decide +kernel
  generalize bareProject.run editBeforeSave = t at sound got content source
  obtain ⟨unit, got, stale⟩ := Option.map_eq_some_iff.mp got
  obtain ⟨cache, kept, got⟩ := Option.bind_eq_some_iff.mp got
  cases read : t.files.readText "/w/a.js" with
  | error fault =>
    rw [read] at content
    cases content
  | ok text =>
    obtain ⟨current, same, scanned⟩ :=
      sound cache _ unit kept source (FileSystem.hasFile_of_readText read) got
    obtain rfl : text = current := Except.ok.inj (read.symm.trans same)
    rw [read] at content
    have now : (SourceUnit.ofText "/w/a.js" text).toOption.map (·.provides) = some ["b"] :=
      Option.some.inj content
    rw [scanned] at now
    have provides : unit.provides = ["b"] := Option.some.inj now
    rw [stale] at provides
    exact absurd provides (by decide)

end ChunkPlan.CacheSession
