import ChunkPlan.Proofs.Files
import ChunkPlan.SourceScanner

/-!
# What source files say

The unit that the text of a file gives, and what an edit, a deletion or a scan leaves as it was.
-/

set_option autoImplicit false

namespace ChunkPlan

namespace FileSystem

/-- Whether a path leads to a file. -/
def HasFile (files : FileSystem) (path : String) : Prop :=
  ∃ bytes modified, files.item path = .ok (.file bytes modified)

/-- Whether a unit is the one that the text of a file gives as it is now. -/
def Shows (files : FileSystem) (path : String) (unit : SourceUnit) : Prop :=
  ∃ text, files.readText path = .ok text ∧ SourceUnit.ofText path text = .ok unit

/-- Writes a file with a date, and makes the directories on the way. -/
def edit (files : FileSystem) (path : String) (bytes : ByteArray) (modified : Int) : FileSystem :=
  let above := files.ensureParent path
  match above.error with
  | some _ => above.files
  | none => (above.files.writeBytes path bytes modified).toOption.getD above.files

/-- Deletes a file; anything else stays. -/
def deleteFile (files : FileSystem) (path : String) : FileSystem :=
  match files.item path with
  | .ok (.file ..) => files.delete path
  | _ => files

variable {files after : FileSystem} {path : String} {unit : SourceUnit} {place : List String}
  {bytes : ByteArray} {modified date : Int}

theorem modified?_eq_some : files.modified? path = some date ↔
    ∃ item, files.item path = .ok item ∧ milliseconds item.modified = date := by
  unfold modified?
  cases files.item path <;> simp

theorem hasFile_of_readText {text : String} (read : files.readText path = .ok text) :
    files.HasFile path := by
  by_contra other
  have none := readText_of_not_file fun bytes modified isFile => other ⟨bytes, modified, isFile⟩
  rw [read] at none
  cases none

theorem hasFile_iff (located : files.locate path = .ok place) :
    files.HasFile path ↔ ∃ bytes modified, files.fileAt? place = some (bytes, modified) := by
  unfold HasFile
  simp only [item_eq_file_of_locate located]

/-- What the file at a place says is the same as long as the file is. -/
theorem Shows.moved (shows : files.Shows path unit) (located : files.locate path = .ok place)
    (later : after.locate path = .ok place) (same : after.fileAt? place = files.fileAt? place) :
    after.Shows path unit := by
  obtain ⟨text, read, scanned⟩ := shows
  obtain ⟨bytes, modified, isFile⟩ := hasFile_of_readText read
  have found := (item_eq_file_of_locate located).mp isFile
  have later := (item_eq_file_of_locate later).mpr (same.trans found)
  exact ⟨text, (readText_of_item isFile later).trans read, scanned⟩

private theorem readSource_ok {found text : String}
    (read : files.readSource path = .ok (found, text)) :
    found = files.resolve path ∧ files.readText found = .ok text := by
  unfold readSource at read
  simp only at read
  split at read
  · next same =>
    obtain ⟨place, content⟩ := Prod.mk.inj (Except.ok.inj read)
    rw [← place, ← content]
    exact ⟨rfl, same⟩
  · exact nomatch read
  · exact nomatch read

theorem shows_of_ofFile (resolved : files.resolve path = path)
    (scanned : SourceUnit.ofFile files path = .ok unit) : files.Shows path unit := by
  unfold SourceUnit.ofFile at scanned
  split at scanned
  · cases scanned
  · next found text source =>
    obtain ⟨rfl, read⟩ := readSource_ok source
    rw [resolved] at read scanned
    exact ⟨text, read, scanned⟩

/-- The bootstrap flag of a unit follows from the rest. -/
theorem Shows.created (shows : files.Shows path unit) :
    unit = .create path unit.provides unit.requires unit.isModule := by
  have itself {provides requires : List String} {isModule : Bool}
      (made : SourceUnit.create path provides requires isModule = unit) :
      unit = .create path unit.provides unit.requires unit.isModule := by
    subst made
    rfl
  obtain ⟨text, _, scanned⟩ := shows
  unfold SourceUnit.ofText at scanned
  cases read : Script.readAs path text with
  | error error =>
    rw [read] at scanned
    cases scanned
  | ok script =>
    rw [read, Except.map] at scanned
    exact itself (Except.ok.inj scanned)

theorem edit_cases (files : FileSystem) (path : String) (bytes : ByteArray) (modified : Int) :
    Keeps files (files.edit path bytes modified) ∨
      files.Revises (files.placeOf path) (some (bytes, modified))
        (files.edit path bytes modified) := by
  have keeps := ensureParent_keeps files path
  unfold edit
  simp only
  split
  · exact .inl keeps
  · cases written : (files.ensureParent path).files.writeBytes path bytes modified with
    | error fault => exact .inl keeps
    | ok after =>
      obtain ⟨place, located, revises⟩ := writeBytes_revises written
      have led := (locate_ok located).trans (placeOf_grows keeps.toGrows path)
      exact .inr (keeps.revises (led ▸ revises))

theorem deleteFile_cases (files : FileSystem) (path : String) :
    files.deleteFile path = files ∨
      ∃ place, files.Revises place none (files.deleteFile path) := by
  unfold deleteFile
  split
  · next isFile =>
    obtain ⟨place, _, revises⟩ := delete_revises isFile
    exact .inr ⟨place, revises⟩
  · exact .inl rfl

end FileSystem

/-! ## Scanning -/

namespace Scan

variable {α β : Type} {holds : SourceScanner → Prop} {work : Scan α} {next : α → Scan β}

/-- Work that leaves a property of the scanner true, whether it fails or not. -/
def Preserves (holds : SourceScanner → Prop) (work : Scan α) : Prop :=
  ∀ scanner, holds scanner → holds (work scanner).2

theorem preserves_pure (value : α) : Preserves holds (pure value : Scan α) := fun _ held => held

theorem preserves_ofExcept (result : Except BuildError α) : Preserves holds (ofExcept result) :=
  fun _ held => held

theorem bind_run {scanner : SourceScanner} : (work >>= next) scanner = match work scanner with
    | (.ok value, later) => next value later
    | (.error error, later) => (.error error, later) := by
  show (ExceptT.bind work next) scanner = _
  unfold ExceptT.bind ExceptT.mk
  show (StateT.bind work (ExceptT.bindCont next)) scanner = _
  unfold StateT.bind
  rcases work scanner with ⟨result, later⟩
  cases result <;> rfl

theorem preserves_bind (first : Preserves holds work) (second : ∀ value, Preserves holds (next value)) :
    Preserves holds (work >>= next) := by
  intro scanner held
  have after := first scanner held
  rw [bind_run]
  rcases done : work scanner with ⟨result, later⟩
  rw [done] at after
  cases result with
  | error error => exact after
  | ok value => exact second value later after

end Scan

namespace SourceScanner

variable {files : FileSystem} {holds : SourceScanner → Prop}

private theorem preserves_scanFiles {paths : List String}
    (each : ∀ path ∈ paths, Scan.Preserves holds (scanFile files path)) (seen : List String)
    (units : UnitList) : Scan.Preserves holds (scanFiles files seen units paths) := by
  induction paths generalizing seen units with
  | nil => exact Scan.preserves_pure _
  | cons path paths ih =>
    obtain ⟨first, others⟩ := List.forall_mem_cons.mp each
    rw [scanFiles]
    split
    · exact ih others _ _
    · exact Scan.preserves_bind first fun unit => ih others _ _

/-- Scanning preserves what every scan of a file that is found does. -/
theorem preserves_scan_of_find {options : RunOptions} (each : ∀ locator paths,
      files.find locator (!options.scanHidden) = .ok paths → ∀ path ∈ paths,
        Scan.Preserves holds (scanFile files path)) (locators : List String) :
    Scan.Preserves holds (scan files options locators) := by
  have all (seen : List String) (units : UnitList) :
      Scan.Preserves holds (scanLocators files options seen units locators) := by
    induction locators generalizing seen units with
    | nil => exact Scan.preserves_pure _
    | cons locator locators ih =>
      rw [scanLocators]
      intro scanner held
      cases found : files.find locator !options.scanHidden with
      | error error => exact held
      | ok paths =>
        refine Scan.preserves_bind ?_ (fun (listed : List String × UnitList) => ih listed.1 listed.2) scanner held
        exact preserves_scanFiles (each locator paths found) _ _
  exact all [] []

/-- The paths that are found are resolved. -/
theorem preserves_scan (named : files.root.WellNamed)
    (each : ∀ path, files.resolve path = path → Scan.Preserves holds (scanFile files path))
    (options : RunOptions) (locators : List String) :
    Scan.Preserves holds (scan files options locators) :=
  preserves_scan_of_find (fun _ _ found path member =>
    each path (FileSystem.resolve_of_find named found member)) locators

end SourceScanner

end ChunkPlan
