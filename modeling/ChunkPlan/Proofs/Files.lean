import ChunkPlan.Proofs.FileItems

/-!
# What an operation does to the files

Making directories, writing and deleting change one file at most, and what a path leads to stays
there as long as no directory goes.  What is said of all file systems is said of those without links
and without refused permissions.
-/

set_option autoImplicit false

namespace ChunkPlan

theorem Utf8.decode_encode (text : String) : decode (encode text) = .ok text := by
  have encoded : (encode text).IsValidUTF8 := text.isValidUTF8
  have read : String.fromUTF8? (encode text) = some text := by
    unfold String.fromUTF8?
    rw [dif_pos encoded]
    rfl
  rw [decode, read]

theorem Text.unifyLineBreaks_of_not_mem {text : List Char} (free : '\r' ∉ text) :
    unifyLineBreaks text = text := by
  induction text with
  | nil => rfl
  | cons c cs ih =>
    obtain ⟨apart, free⟩ := List.ne_and_not_mem_of_not_mem_cons free
    rw [unifyLineBreaks, if_neg (Ne.symm apart), ih free]
    intro rest same
    cases same
    exact absurd rfl apart

namespace FileSystem

variable {files after : FileSystem} {place other : List String} {path : String} {item : FileItem}
  {bytes : ByteArray} {modified : Int} {segments : List Path.Segment} {reached : List String}

/-- The bytes and the date of the file at a place. -/
def fileAt? (files : FileSystem) (place : List String) : Option (ByteArray × Int) :=
  files.root.fileAt? place

/-- The working directory is the same, no directory is gone, and names stay names. -/
structure Grows (before after : FileSystem) : Prop where
  working : after.workingNames = before.workingNames
  directories : ∀ place, before.root.DirectoryAt place → after.root.DirectoryAt place
  names : before.root.WellNamed → after.root.WellNamed

/-- All files are as before. -/
structure Keeps (before after : FileSystem) : Prop extends Grows before after where
  files : ∀ place, after.fileAt? place = before.fileAt? place

/-- All files are as before, except that at one place there is now a given file, or none. -/
structure Revises (before : FileSystem) (place : List String) (file : Option (ByteArray × Int))
    (after : FileSystem) : Prop extends Grows before after where
  files : ∀ other, after.fileAt? other = if place = other then file else before.fileAt? other

theorem Grows.refl (files : FileSystem) : Grows files files := ⟨rfl, fun _ => id, id⟩

theorem Grows.trans {middle : FileSystem} (first : Grows files middle) (second : Grows middle after) :
    Grows files after :=
  ⟨second.working.trans first.working,
    fun place directory => second.directories place (first.directories place directory),
    fun named => second.names (first.names named)⟩

theorem Keeps.refl (files : FileSystem) : Keeps files files := ⟨.refl files, fun _ => rfl⟩

theorem Keeps.trans {middle : FileSystem} (first : Keeps files middle) (second : Keeps middle after) :
    Keeps files after :=
  ⟨first.toGrows.trans second.toGrows,
    fun place => (second.files place).trans (first.files place)⟩

theorem Keeps.revises {middle : FileSystem} {file : Option (ByteArray × Int)}
    (first : Keeps files middle) (second : Revises middle place file after) :
    Revises files place file after := by
  refine ⟨first.toGrows.trans second.toGrows, fun other => ?_⟩
  rw [second.files, first.files]

/-! ## Following a path -/

/-- Where one name of a path leads from a place. -/
def stepFrom (place : List String) (segment : Path.Segment) : List String :=
  if segment = [] || segment = Path.here then place
  else if segment = Path.up then place.dropLast
  else place ++ [String.ofList segment]

def destination (workingNames : List String) (path : String) : List String :=
  (Text.fields '/' path.toList).foldl stepFrom (if Path.isAbsolute path then [] else workingNames)

/-- The place that a path leads to if it leads anywhere. -/
def placeOf (files : FileSystem) (path : String) : List String :=
  destination files.workingNames path

theorem placeOf_grows (grows : Grows files after) (path : String) :
    after.placeOf path = files.placeOf path := by
  rw [placeOf, placeOf, grows.working]

theorem follow_cons {segment : Path.Segment} :
    files.follow place (segment :: segments) = .ok reached ↔
      files.root.DirectoryAt place ∧ (String.ofList segment).utf8ByteSize ≤ maxNameBytes ∧
        files.follow (stepFrom place segment) segments = .ok reached := by
  have found : files.root.get? place = files.at? place := rfl
  rw [follow, FileItem.DirectoryAt, found]
  cases files.at? place with
  | none => simp
  | some item =>
    cases item with
    | file bytes modified => simp
    | special modified => simp
    | directory items modified =>
      by_cases long : maxNameBytes < (String.ofList segment).utf8ByteSize
      · simp [long, Nat.not_le.mpr long]
      · simp [long, stepFrom, Nat.le_of_not_lt long]

/-- Without links the place that a path leads to shows in the path. -/
theorem follow_ok (followed : files.follow place segments = .ok reached) :
    reached = segments.foldl stepFrom place := by
  induction segments generalizing place with
  | nil =>
    cases followed
    rfl
  | cons segment segments ih =>
    obtain ⟨_, _, followed⟩ := follow_cons.mp followed
    exact ih followed

private theorem follow_grows (grows : Grows files after)
    (followed : files.follow place segments = .ok reached) :
    after.follow place segments = .ok reached := by
  induction segments generalizing place with
  | nil => exact followed
  | cons segment segments ih =>
    obtain ⟨directory, short, followed⟩ := follow_cons.mp followed
    exact follow_cons.mpr ⟨grows.directories place directory, short, ih followed⟩

theorem directoryAt_dropLast (directory : files.root.DirectoryAt place) :
    files.root.DirectoryAt place.dropLast := by
  by_cases root : place = []
  · rwa [root] at directory ⊢
  · obtain ⟨_, _, found⟩ := directory
    have above : place.dropLast <+: place := List.dropLast_prefix place
    refine .of_above found above fun same => ?_
    have shorter := congrArg List.length same
    rw [List.length_dropLast] at shorter
    have := List.length_pos_iff.mpr root
    omega

/-- A place with a directory around it and a name of its own. -/
def Beside (files : FileSystem) (place : List String) : Prop :=
  ∃ above name, place = above ++ [name] ∧ Path.IsName name.toList ∧ files.root.DirectoryAt above

theorem Beside.within (beside : files.Beside place) : files.root.Within place := by
  obtain ⟨above, name, rfl, _, around⟩ := beside
  exact ⟨by simp, by simpa using around⟩

private theorem Beside.isName {above : List String} {name : String}
    (beside : files.Beside (above ++ [name])) :
    Path.IsName name.toList := by
  obtain ⟨_, _, same, isName, _⟩ := beside
  obtain ⟨_, last⟩ := List.append_inj' same rfl
  cases last
  exact isName

/-- Wherever a path leads, there is a directory or one around it. -/
theorem beside_of_follow (nonempty : segments ≠ []) (free : ∀ segment ∈ segments, '/' ∉ segment)
    (followed : files.follow place segments = .ok reached) :
    files.root.DirectoryAt reached ∨ files.Beside reached := by
  induction segments generalizing place with
  | nil => exact absurd rfl nonempty
  | cons segment segments ih =>
    obtain ⟨directory, _, followed⟩ := follow_cons.mp followed
    obtain ⟨first, others⟩ := List.forall_mem_cons.mp free
    cases segments with
    | cons next segments => exact ih (by simp) others followed
    | nil =>
      cases followed
      unfold stepFrom
      split
      · exact .inl directory
      · next moves =>
        split
        · exact .inl (directoryAt_dropLast directory)
        · next climbs =>
          have isName : Path.IsName segment := ⟨by simp_all, by simp_all, climbs, first⟩
          exact .inr ⟨place, _, rfl, by rwa [String.toList_ofList], directory⟩

theorem locate_eq_ok : files.locate path = .ok place ↔
    path.isEmpty = false ∧ path.utf8ByteSize ≤ maxPathBytes ∧
      files.follow (if Path.isAbsolute path then [] else files.workingNames)
        (Text.fields '/' path.toList) = .ok place := by
  rw [locate]
  cases path.isEmpty with
  | true => simp
  | false =>
    by_cases long : maxPathBytes < path.utf8ByteSize
    · simp [long, Nat.not_le.mpr long]
    · simp [long, Nat.le_of_not_lt long]

theorem locate_ok (located : files.locate path = .ok place) : place = files.placeOf path :=
  follow_ok (locate_eq_ok.mp located).2.2

/-- A path that leads somewhere leads there as long as no directory goes. -/
theorem locate_grows (grows : Grows files after) (located : files.locate path = .ok place) :
    after.locate path = .ok place := by
  obtain ⟨nonempty, short, followed⟩ := locate_eq_ok.mp located
  exact locate_eq_ok.mpr ⟨nonempty, short, grows.working ▸ follow_grows grows followed⟩

theorem beside_of_locate (located : files.locate path = .ok place)
    (notDirectory : ¬files.root.DirectoryAt place) : files.Beside place := by
  refine (beside_of_follow (Text.fields_ne_nil _ _) ?_ (locate_eq_ok.mp located).2.2).resolve_left
    notDirectory
  exact fun segment member => Text.not_mem_of_mem_fields member

/-! ## Changes -/

/-- A change keeps the files of the changed root: only a directory may get another date. -/
theorem fileAt?_changed {root : FileItem} (around : root.DirectoryAt place.dropLast) :
    (files.changed place root).fileAt? other = root.fileAt? other := by
  simp only [changed, fileAt?]
  split
  · rfl
  · exact FileItem.fileAt?_redate around

theorem directoryAt_changed {root : FileItem} (directory : root.DirectoryAt other) :
    (files.changed place root).root.DirectoryAt other := by
  simp only [changed]
  split
  · exact directory
  · exact FileItem.directoryAt_redate directory

private theorem not_above_dropLast (within : files.root.Within place) :
    ¬place <+: place.dropLast := by
  intro below
  have shorter := below.length_le
  rw [List.length_dropLast] at shorter
  have := List.length_pos_iff.mpr within.1
  omega

theorem fileAt?_putItem (within : files.root.Within place) :
    (files.putItem place item).fileAt? other =
      if place <+: other then item.fileAt? (other.drop place.length) else files.fileAt? other := by
  rw [putItem, fileAt?_changed (FileItem.directoryAt_put within (not_above_dropLast within) within.2)]
  exact FileItem.fileAt?_put within

theorem directoryAt_putItem (within : files.root.Within place) (apart : ¬place <+: other)
    (directory : files.root.DirectoryAt other) :
    (files.putItem place item).root.DirectoryAt other :=
  directoryAt_changed (FileItem.directoryAt_put within apart directory)

theorem wellNamed_changed {root : FileItem} (named : root.WellNamed) :
    (files.changed place root).root.WellNamed := by
  simp only [changed]
  split
  · exact named
  · exact named.redated

theorem wellNamed_putItem (beside : files.Beside place) (inside : item.WellNamed)
    (named : files.root.WellNamed) : (files.putItem place item).root.WellNamed := by
  refine wellNamed_changed (named.put inside fun above name same => ?_)
  subst same
  exact beside.isName

private theorem Keeps.putItem_directory (beside : files.Beside place)
    (missing : files.at? place = none) :
    Keeps files (files.putItem place (.directory [] modified)) := by
  have unused {other : List String} (below : place <+: other) : files.root.get? other = none := by
    obtain ⟨rest, rfl⟩ := below
    rw [FileItem.get?_append, show files.root.get? place = none from missing]
    rfl
  refine ⟨⟨rfl, fun other directory => directoryAt_putItem beside.within ?_ directory,
    wellNamed_putItem beside (.node (by simp) (by simp))⟩, fun other => ?_⟩
  · intro below
    obtain ⟨_, _, found⟩ := directory
    rw [unused below] at found
    cases found
  · rw [fileAt?_putItem beside.within]
    split
    · next below =>
      rw [fileAt?, FileItem.fileAt?_of_get? (unused below)]
      cases other.drop place.length <;> rfl
    · rfl

theorem not_directoryAt_of_missing (missing : files.at? place = none) :
    ¬files.root.DirectoryAt place := by
  intro ⟨_, _, found⟩
  rw [show files.root.get? place = none from missing] at found
  cases found

/-- A directory is made only where nothing is. -/
theorem makeDirectory_ok (made : files.makeDirectory path = .ok after) :
    ∃ place, files.locate path = .ok place ∧ files.at? place = none ∧
      after = files.putItem place (.directory [] files.clock) := by
  unfold makeDirectory at made
  cases located : files.locate path with
  | error fault => simp [located] at made
  | ok place =>
    simp only [located] at made
    split at made
    · cases made
    · next missing =>
      cases made
      exact ⟨place, rfl, missing, rfl⟩

private theorem makeDirectory_keeps (made : files.makeDirectory path = .ok after) :
    Keeps files after := by
  obtain ⟨place, located, missing, rfl⟩ := makeDirectory_ok made
  exact .putItem_directory (beside_of_locate located (not_directoryAt_of_missing missing)) missing

private theorem settle_keeps (fault : FileFault) : Keeps files (files.settle path fault).files := by
  unfold settle
  split <;> exact .refl files

private theorem makeDirectories_keeps (root : List Char) :
    Keeps files (files.makeDirectories root segments).files := by
  induction segments with
  | nil => exact settle_keeps _
  | cons segment segments ih =>
    rw [makeDirectories]
    split
    · next made => exact makeDirectory_keeps made
    · cases failed : (files.makeDirectories root segments).error with
      | some error => simpa [failed] using ih
      | none =>
        simp only [failed]
        split
        · next made => exact ih.trans (makeDirectory_keeps made)
        · exact ih.trans (settle_keeps _)
    · exact settle_keeps _

/-- Making the directory that a file stands in changes no file. -/
theorem ensureParent_keeps (files : FileSystem) (path : String) :
    Keeps files (files.ensureParent path).files :=
  makeDirectories_keeps _

private theorem revises_putItem (beside : files.Beside place)
    (notDirectory : ¬files.root.DirectoryAt place) :
    files.Revises place (some (bytes, modified)) (files.putItem place (.file bytes modified)) := by
  have inside {other : List String} (below : place <+: other) (proper : place ≠ other) :
      files.root.get? other = none := by
    cases found : files.root.get? other with
    | none => rfl
    | some item => exact absurd (.of_above found below proper) notDirectory
  refine ⟨⟨rfl, fun other directory => directoryAt_putItem beside.within ?_ directory,
    wellNamed_putItem beside (.leaf bytes modified)⟩, fun other => ?_⟩
  · intro below
    by_cases here : place = other
    · exact notDirectory (here ▸ directory)
    · obtain ⟨_, _, found⟩ := directory
      rw [inside below here] at found
      cases found
  · rw [fileAt?_putItem beside.within]
    by_cases here : place = other
    · subst here
      simp [FileItem.fileAt?_file_nil]
    · rw [if_neg here]
      split
      · next below =>
        obtain ⟨rest, rfl⟩ := below
        rw [fileAt?, FileItem.fileAt?_of_get? (inside (List.prefix_append place rest) here),
          List.drop_left]
        cases rest with
        | nil => simp at here
        | cons name names => rfl
      · rfl

/-- Bytes are written only where no directory is. -/
theorem writeBytes_ok (written : files.writeBytes path bytes modified = .ok after) :
    ∃ place, files.locate path = .ok place ∧ ¬files.root.DirectoryAt place ∧
      after = files.putItem place (.file bytes modified) := by
  unfold writeBytes at written
  cases located : files.locate path with
  | error fault => simp [located] at written
  | ok place =>
    simp only [located] at written
    split at written
    · cases written
    · cases written
    · next other _ =>
      cases written
      exact ⟨place, rfl, fun ⟨items, modified, found⟩ => other items modified found, rfl⟩

theorem writeBytes_revises (written : files.writeBytes path bytes modified = .ok after) :
    ∃ place, files.locate path = .ok place ∧
      files.Revises place (some (bytes, modified)) after := by
  obtain ⟨place, located, notDirectory, rfl⟩ := writeBytes_ok written
  exact ⟨place, located, revises_putItem (beside_of_locate located notDirectory) notDirectory⟩

/-- Writing an output makes directories and, unless it fails, one file. -/
theorem writeOutput_cases (files : FileSystem) (path text : String) :
    ((files.writeOutput path text).error ≠ none ∧ Keeps files (files.writeOutput path text).files) ∨
      (files.writeOutput path text).error = none ∧ ∃ place modified,
        (files.writeOutput path text).files.locate (Path.tidy path) = .ok place ∧
          files.Revises place (some (Utf8.encode text, modified)) (files.writeOutput path text).files := by
  have keeps := ensureParent_keeps files path
  cases failed : (files.ensureParent path).error with
  | some error =>
    have same : files.writeOutput path text = files.ensureParent path := by
      simp only [writeOutput, failed]
    rw [same, failed]
    exact .inl ⟨nofun, keeps⟩
  | none =>
    have same : files.writeOutput path text = (files.ensureParent path).files.writeText path text := by
      simp only [writeOutput, failed]
    rw [same, writeText]
    split
    · exact .inl ⟨nofun, keeps⟩
    · next after written =>
      obtain ⟨place, located, revises⟩ := writeBytes_revises written
      exact .inr ⟨rfl, place, _, locate_grows revises.toGrows located, keeps.revises revises⟩

theorem wellNamed_empty (named : ∀ name ∈ place, Path.IsName name.toList) :
    (empty place).root.WellNamed := by
  show (place.foldr (fun name inner => FileItem.directory [(name, inner)] _)
    (.directory [] _)).WellNamed
  induction place with
  | nil => exact .node (by simp) (by simp)
  | cons name place ih =>
    obtain ⟨first, others⟩ := List.forall_mem_cons.mp named
    exact .node (List.forall_mem_singleton.mpr first) (List.forall_mem_singleton.mpr (ih others))

/-! ## Finding -/

theorem item_eq_ok : files.item path = .ok item ↔
    ∃ place, files.locate path = .ok place ∧ files.at? place = some item := by
  unfold FileSystem.item
  cases located : files.locate path with
  | error fault => simp
  | ok place => cases reached : files.at? place <;> simp [reached]

private theorem resolve_ofNames (named : ∀ name ∈ place, Path.IsName name.toList) :
    files.resolve (Path.ofNames place) = Path.ofNames place := by
  rw [resolve, Path.locate_ofNames named]

/-- What a locator stands for is given by paths that are resolved. -/
theorem resolve_of_find {locator : String} {ignoreHidden : Bool} {paths : List String}
    (named : files.root.WellNamed) (found : files.find locator ignoreHidden = .ok paths)
    (member : path ∈ paths) : files.resolve path = path := by
  have upper : ∀ name ∈ Path.locate files.workingDirectory locator, Path.IsName name.toList :=
    fun name listed => Path.isName_of_mem_locate listed
  rw [find] at found
  cases reached : files.item (Path.ofNames (Path.locate files.workingDirectory locator)) with
  | error fault => cases fault <;> simp [reached, scriptsAt] at found
  | ok tree =>
    rw [reached] at found
    cases tree with
    | special => cases found
    | file =>
      rw [← Except.ok.inj found] at member
      rw [List.mem_singleton.mp member]
      exact resolve_ofNames upper
    | directory items modified =>
      obtain ⟨there, -, inside⟩ := item_eq_ok.mp reached
      rw [← Except.ok.inj found] at member
      obtain ⟨names, listed, rfl⟩ := List.mem_map.mp member
      apply resolve_ofNames
      intro name joined
      rcases List.mem_append.mp joined with above | below
      · exact upper name above
      · exact (named.get? inside).scripts listed name below

/-! ## Reading -/

theorem item_eq_file : files.item path = .ok (.file bytes modified) ↔
    ∃ place, files.locate path = .ok place ∧ files.fileAt? place = some (bytes, modified) := by
  rw [item_eq_ok]
  exact exists_congr fun place => and_congr_right fun _ => FileItem.fileAt?_eq_some.symm

theorem item_eq_file_of_locate (located : files.locate path = .ok place) :
    files.item path = .ok (.file bytes modified) ↔ files.fileAt? place = some (bytes, modified) := by
  rw [item_eq_file]
  simp [located]

theorem item_ne_file (missing : files.fileAt? (files.placeOf path) = none) :
    files.item path ≠ .ok (.file bytes modified) := by
  intro isFile
  obtain ⟨place, located, found⟩ := item_eq_file.mp isFile
  rw [locate_ok located, missing] at found
  cases found

theorem readText_of_not_file (other : ∀ bytes modified, files.item path ≠ .ok (.file bytes modified)) :
    (files.readText path).toOption = none := by
  unfold readText
  split
  · rfl
  · rfl
  · rfl
  · next isFile => exact absurd isFile (other _ _)

/-- The text of a file depends on its bytes only. -/
theorem readText_of_item {laterModified : Int} (isFile : files.item path = .ok (.file bytes modified))
    (same : after.item path = .ok (.file bytes laterModified)) :
    after.readText path = files.readText path := by
  rw [readText, readText, isFile, same]

/-- Deleting a file takes this file only. -/
theorem delete_revises (isFile : files.item path = .ok (.file bytes modified)) :
    ∃ place, files.locate path = .ok place ∧ files.Revises place none (files.delete path) := by
  obtain ⟨place, located, found⟩ := item_eq_file.mp isFile
  have isFile := FileItem.fileAt?_eq_some.mp found
  have notDirectory : ¬files.root.DirectoryAt place := by
    intro ⟨items, modified, reached⟩
    rw [isFile] at reached
    cases reached
  have within := (beside_of_locate located notDirectory).within
  have deleted : files.delete path = files.changed place (files.root.erase place) := by
    rw [delete, located]
  have around := FileItem.directoryAt_erase within isFile within.2
  rw [deleted]
  refine ⟨place, located, ⟨rfl, fun other directory => ?_, fun named => ?_⟩, fun other => ?_⟩
  · exact directoryAt_changed (FileItem.directoryAt_erase within isFile directory)
  · exact wellNamed_changed named.erased
  · rw [fileAt?_changed around]
    exact FileItem.fileAt?_erase within isFile

end FileSystem

end ChunkPlan
