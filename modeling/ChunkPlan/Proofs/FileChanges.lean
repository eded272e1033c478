import ChunkPlan.Proofs.Files

/-!
# Where files change

Writing to a path changes something only where the path leads through: at the file itself and at
the directories on the way to it.
-/

set_option autoImplicit false

namespace ChunkPlan.FileSystem

variable {files middle after : FileSystem} {place front : List String} {path text : String}
  {item : FileItem} {allowed : List String → Prop} {segment : Path.Segment}
  {segments names : List Path.Segment}

/-- Files and directories are as before, except at places that are allowed to change.  A directory
may hold other items than before only at such places. -/
structure ChangesOnly (before : FileSystem) (allowed : List String → Prop) (after : FileSystem) :
    Prop where
  working : after.workingNames = before.workingNames
  elsewhere : ∀ place, ¬allowed place → after.root.outlineAt? place = before.root.outlineAt? place

theorem ChangesOnly.refl (files : FileSystem) : ChangesOnly files allowed files := ⟨rfl, fun _ _ => rfl⟩

theorem ChangesOnly.trans (first : ChangesOnly files allowed middle)
    (second : ChangesOnly middle allowed after) : ChangesOnly files allowed after :=
  ⟨second.working.trans first.working, fun place apart =>
    (second.elsewhere place apart).trans (first.elsewhere place apart)⟩

theorem ChangesOnly.mono {wider : List String → Prop} (changes : ChangesOnly files allowed after)
    (within : ∀ place, allowed place → wider place) : ChangesOnly files wider after :=
  ⟨changes.working, fun place apart => changes.elsewhere place fun inside => apart (within place inside)⟩

/-- An item with nothing below it changes its place and the directory around it. -/
theorem ChangesOnly.putItem (beside : files.Beside place)
    (notDirectory : ¬files.root.DirectoryAt place)
    (bare : ∀ name names, item.get? (name :: names) = none) (here : allowed place)
    (around : allowed place.dropLast) : ChangesOnly files allowed (files.putItem place item) := by
  refine ⟨rfl, fun other apart => ?_⟩
  have dated : (files.putItem place item).root.outlineAt? other =
      (files.root.put place item).outlineAt? other := by
    simp only [FileSystem.putItem, changed]
    split
    · rfl
    · rw [FileItem.outlineAt?_redate, if_neg]
      rintro rfl
      exact apart around
  rw [dated, FileItem.outlineAt?_put beside.within]
  split
  · next below =>
    obtain ⟨rest, rfl⟩ := below
    cases rest with
    | nil => exact absurd (by simpa using here) apart
    | cons name names =>
      -- Nothing was below the place, since no directory was there.
      have missing : files.root.get? (place ++ name :: names) = none := by
        cases found : files.root.get? (place ++ name :: names) with
        | none => rfl
        | some item =>
          exact absurd (.of_above found (List.prefix_append _ _) (by simp)) notDirectory
      rw [List.drop_left, FileItem.outlineAt?, FileItem.outlineAt?, bare, missing]
  · rfl

/-! ## The places on the way -/

/-- Where a path begins. -/
def startOf (files : FileSystem) (path : String) : List String :=
  if Path.isAbsolute path then [] else files.workingNames

/-- Whether a path leads through a place or to it: where the path begins, and where its first names
lead, however many. -/
def LeadsThrough (files : FileSystem) (path : String) (place : List String) : Prop :=
  ∃ front, front <+: Path.names path.toList ∧ front.foldl stepFrom (files.startOf path) = place

theorem follow_concat {place reached : List String}
    (followed : files.follow place (segments ++ [segment]) = .ok reached) :
    files.root.DirectoryAt (segments.foldl stepFrom place) ∧
      reached = stepFrom (segments.foldl stepFrom place) segment := by
  induction segments generalizing place with
  | nil =>
    obtain ⟨directory, -, followed⟩ := follow_cons.mp followed
    cases followed
    exact ⟨directory, rfl⟩
  | cons first segments ih =>
    obtain ⟨-, -, followed⟩ := follow_cons.mp followed
    exact ih followed

/-- Names that stay in place can be left out. -/
theorem foldl_stepFrom_filter (segments : List Path.Segment) (place : List String) :
    (segments.filter fun segment => segment ≠ [] && segment ≠ Path.here).foldl stepFrom place =
      segments.foldl stepFrom place := by
  have still : (fun place segment => if (segment ≠ [] && segment ≠ Path.here) = true then
      stepFrom place segment else place) = stepFrom := by
    funext place segment
    split
    · rfl
    · next stays =>
      rw [stepFrom, if_pos]
      simpa [Classical.not_imp, ← or_iff_not_imp_left] using stays
  rw [List.foldl_filter, still]

/-- A place without a directory that a path leads to is the last one on the way, right below the one
before it. -/
theorem names_of_locate (located : files.locate path = .ok place)
    (notDirectory : ¬files.root.DirectoryAt place) : ∃ front last,
      Path.names path.toList = front ++ [last] ∧
        place = front.foldl stepFrom (files.startOf path) ++ [String.ofList last] := by
  obtain ⟨-, -, followed⟩ := locate_eq_ok.mp located
  obtain ⟨segments, segment, split⟩ : ∃ segments segment,
      Text.fields '/' path.toList = segments ++ [segment] :=
    (List.eq_nil_or_concat' _).resolve_left (Text.fields_ne_nil _ _)
  rw [split] at followed
  obtain ⟨directory, rfl⟩ := follow_concat followed
  have moves : ¬(segment = [] || segment = Path.here) = true := by
    intro stays
    rw [stepFrom, if_pos stays] at notDirectory
    exact notDirectory directory
  have sinks : segment ≠ Path.up := by
    intro climbs
    rw [stepFrom, if_neg moves, if_pos climbs] at notDirectory
    exact notDirectory (directoryAt_dropLast directory)
  have kept : (segment ≠ [] && segment ≠ Path.here) = true := by simpa using moves
  refine ⟨segments.filter fun segment => segment ≠ [] && segment ≠ Path.here, segment, ?_, ?_⟩
  · rw [Path.names, split, List.filter_append, List.filter_singleton, kept]
    rfl
  · rw [stepFrom, if_neg moves, if_neg sinks, foldl_stepFrom_filter]
    rfl

private theorem leadsThrough_of_locate (located : files.locate path = .ok place)
    (notDirectory : ¬files.root.DirectoryAt place) :
    files.LeadsThrough path place ∧ files.LeadsThrough path place.dropLast := by
  obtain ⟨front, last, names, reached⟩ := names_of_locate located notDirectory
  constructor
  · have led := (locate_ok located).symm
    rw [placeOf, destination, ← foldl_stepFrom_filter] at led
    exact ⟨Path.names path.toList, List.prefix_rfl, led⟩
  · rw [reached, List.dropLast_concat]
    exact ⟨front, names ▸ List.prefix_append _ _, rfl⟩

theorem LeadsThrough.of_working (same : after.workingNames = files.workingNames)
    (through : after.LeadsThrough path place) : files.LeadsThrough path place := by
  rwa [LeadsThrough, startOf, same] at through

/-- A path of the first names leads through fewer places. -/
theorem LeadsThrough.of_assemble (first : names <+: Path.names path.toList)
    (through : files.LeadsThrough (Path.assemble (Path.root path.toList) names) place) :
    files.LeadsThrough path place := by
  have proper : Path.Proper names := fun segment member =>
    Path.proper_names path.toList segment (first.subset member)
  obtain ⟨front, before, reached⟩ := through
  rw [Path.names_assemble proper] at before
  rw [startOf, Path.isAbsolute_assemble proper] at reached
  exact ⟨front, before.trans first, reached⟩

theorem leadsThrough_tidy (through : files.LeadsThrough (Path.tidy path) place) :
    files.LeadsThrough path place :=
  through.of_assemble List.prefix_rfl

/-! ## Writing -/

theorem putItem_changesOnly (located : files.locate path = .ok place)
    (notDirectory : ¬files.root.DirectoryAt place)
    (bare : ∀ name names, item.get? (name :: names) = none) :
    ChangesOnly files (files.LeadsThrough path) (files.putItem place item) := by
  obtain ⟨here, around⟩ := leadsThrough_of_locate located notDirectory
  exact .putItem (beside_of_locate located notDirectory) notDirectory bare here around

private theorem makeDirectory_changesOnly (made : files.makeDirectory path = .ok after) :
    ChangesOnly files (files.LeadsThrough path) after := by
  obtain ⟨place, located, missing, rfl⟩ := makeDirectory_ok made
  exact putItem_changesOnly located (not_directoryAt_of_missing missing) fun _ _ => rfl

private theorem settle_changesOnly (fault : FileFault) :
    ChangesOnly files allowed (files.settle path fault).files := by
  unfold settle
  split <;> exact .refl files

/-- The names are those of a path up to some name, the last one first. -/
theorem makeDirectories_changesOnly (first : names.reverse <+: Path.names path.toList) :
    ChangesOnly files (files.LeadsThrough path)
      (files.makeDirectories (Path.root path.toList) names).files := by
  induction names with
  | nil => exact settle_changesOnly _
  | cons name names ih =>
    have above : names.reverse <+: Path.names path.toList := by
      rw [List.reverse_cons] at first
      exact (List.prefix_append _ _).trans first
    have made {files after : FileSystem} (made : files.makeDirectory
        (Path.assemble (Path.root path.toList) (name :: names).reverse) = .ok after) :
        ChangesOnly files (files.LeadsThrough path) after :=
      (makeDirectory_changesOnly made).mono fun _ through => through.of_assemble first
    rw [makeDirectories]
    split
    · next done => exact made done
    · cases failed : (files.makeDirectories (Path.root path.toList) names).error with
      | some error => simpa [failed] using ih above
      | none =>
        simp only [failed]
        split
        · next done =>
          have later := (made done).mono fun _ through => through.of_working (ih above).working
          exact (ih above).trans later
        · exact (ih above).trans (settle_changesOnly _)
    · exact settle_changesOnly _

private theorem ensureParent_changesOnly (files : FileSystem) (path : String) :
    ChangesOnly files (files.LeadsThrough path) (files.ensureParent path).files := by
  apply makeDirectories_changesOnly
  rw [List.tail_reverse, List.reverse_reverse]
  exact List.dropLast_prefix _

private theorem writeBytes_changesOnly {bytes : ByteArray} {modified : Int}
    (written : files.writeBytes path bytes modified = .ok after) :
    ChangesOnly files (files.LeadsThrough path) after := by
  obtain ⟨place, located, notDirectory, rfl⟩ := writeBytes_ok written
  exact putItem_changesOnly located notDirectory fun _ _ => rfl

private theorem writeText_changesOnly (files : FileSystem) (path text : String) :
    ChangesOnly files (files.LeadsThrough path) (files.writeText path text).files := by
  rw [writeText]
  split
  · exact .refl files
  · next written =>
    exact (writeBytes_changesOnly written).mono fun _ through => leadsThrough_tidy through

/-- Writing an output changes files and directories only where its path leads through. -/
theorem writeOutput_changesOnly (files : FileSystem) (path text : String) :
    ChangesOnly files (files.LeadsThrough path) (files.writeOutput path text).files := by
  have above := ensureParent_changesOnly files path
  rw [writeOutput]
  split
  · exact above
  · have later := (writeText_changesOnly (files.ensureParent path).files path text).mono
      fun _ through => through.of_working above.working
    exact above.trans later

end ChunkPlan.FileSystem
