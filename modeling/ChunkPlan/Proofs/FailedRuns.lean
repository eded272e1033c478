import ChunkPlan.CommandLine.Run
import ChunkPlan.Proofs.BuildTree
import ChunkPlan.Proofs.CacheFile
import ChunkPlan.Proofs.FileChanges

/-!
# Runs that fail

A command has errors exactly if it meets one: in its configuration, in what it scans or in the plan
of its modules.  It then gives nothing out.  The only file that it can write is the cache, whose path
no scan changes.  A refused permission is no such error, since file systems here have none.
-/

set_option autoImplicit false

namespace ChunkPlan

open FileSystem (ChangesOnly)

variable {files : FileSystem} {options : RunOptions} {file : Option String}

/-! ## The path of the cache -/

namespace SourceCache

private theorem file_get (files : FileSystem) (cache : SourceCache) (path : String) :
    (cache.get files path).2.1.file = cache.file := by
  unfold get
  split
  · rfl
  · split <;> rfl

private theorem save_changesOnly (files : FileSystem) (cache : SourceCache) :
    ChangesOnly files (files.LeadsThrough cache.file) (cache.save files).1 := by
  rw [files_save]
  exact FileSystem.writeOutput_changesOnly _ _ _

end SourceCache

namespace Scan

variable {α β : Type} {holds : SourceScanner → Prop}

private theorem preserves_traverse {action : α → Scan β}
    (each : ∀ value, Preserves holds (action value))
    (tree : Tree α) : Preserves holds (tree.traverse action) := by
  have all {trees : List (Tree α)} (below : ∀ tree ∈ trees, Preserves holds (tree.traverse action)) :
      Preserves holds (Tree.traverseAll action trees) := by
    induction trees with
    | nil => exact preserves_pure _
    | cons tree trees ih =>
      obtain ⟨first, others⟩ := List.forall_mem_cons.mp below
      exact preserves_bind first fun _ => preserves_bind (ih others) fun _ => preserves_pure _
  induction tree using Tree.induct with
  | node value children ih =>
    rw [Tree.traverse]
    exact preserves_bind (each value) fun _ => preserves_bind (all ih) fun _ => preserves_pure _

end Scan

namespace SourceScanner

/-- Whether a scanner has a cache that is saved at a path, or none. -/
def SavesTo (file : Option String) (scanner : SourceScanner) : Prop :=
  scanner.cache.map (·.file) = file

theorem savesTo_note (entry : LogEntry) : Scan.Preserves (SavesTo file) (Scan.note entry) :=
  fun _ saves => saves

private theorem savesTo_scanFile (path : String) :
    Scan.Preserves (SavesTo file) (scanFile files path) := by
  intro scanner saves
  have mapped {later : SourceScanner} {change : SourceCache → SourceCache}
      (changed : later.cache = scanner.cache.map change)
      (same : ∀ cache, (change cache).file = cache.file) : later.SavesTo file := by
    rw [SavesTo, changed, Option.map_map, ← saves]
    exact congrArg (scanner.cache.map ·) (funext same)
  have scanned := fileScan files path scanner
  generalize (scanFile files path scanner).1 = result, (scanFile files path scanner).2 = later
    at scanned
  cases scanned with
  | known => exact saves
  | hit _ _ cache => rwa [SavesTo, cache]
  | read _ _ _ cache => exact mapped cache fun before => SourceCache.file_get files before path
  | failed _ _ _ cache => exact mapped cache fun before => SourceCache.file_get files before path

theorem savesTo_scan (locators : List String) :
    Scan.Preserves (SavesTo file) (scan files options locators) :=
  preserves_scan_of_find (fun _ _ _ path _ => savesTo_scanFile path) locators

end SourceScanner

namespace Build

open Scan SourceScanner

theorem savesTo_scanAll (locators : List String) :
    Preserves (SavesTo file) (scanAll files options locators) :=
  preserves_bind (savesTo_note _) fun _ => preserves_bind (savesTo_scan _) fun _ =>
    preserves_bind (savesTo_note _) fun _ => preserves_pure _

private theorem savesTo_loadSingle (locators inputs : List String) :
    Preserves (SavesTo file) (loadSingle files options locators inputs) :=
  preserves_bind (savesTo_scanAll _) fun _ => preserves_bind (savesTo_scan _) fun _ =>
    preserves_bind (savesTo_note _) fun _ => preserves_bind (preserves_ofExcept _) fun _ =>
      preserves_bind (savesTo_note _) fun _ => preserves_bind (savesTo_note _) fun _ =>
        preserves_pure _

private theorem savesTo_buildTree (modules : Entries ModuleDeclaration) :
    Preserves (SavesTo file) (buildTree files options modules) := by
  have materialized (entry : String × ModuleDeclaration) :
      Preserves (SavesTo file) (materialize files options entry) :=
    preserves_bind (savesTo_scan _) fun _ => preserves_bind (savesTo_note _) fun _ => preserves_pure _
  refine preserves_bind (preserves_ofExcept _) fun grown =>
    preserves_bind (preserves_traverse materialized grown) fun tree => ?_
  cases ModuleGraph.unreachable modules grown with
  | nil => exact preserves_pure _
  | cons => exact preserves_ofExcept _

private theorem savesTo_loadModules (config : ModuleConfig) (locators : List String) :
    Preserves (SavesTo file) (loadModules files options config locators) := by
  have noted (nodes : List ModuleNode) : Preserves (SavesTo file) (nodes.forM fun node =>
      Scan.note (.message .debug s!"Module '{node.name}': {node.flag}")) := by
    induction nodes with
    | nil => exact preserves_pure _
    | cons node nodes ih => exact preserves_bind (savesTo_note _) fun _ => ih
  exact preserves_bind (savesTo_scanAll _) fun _ => preserves_bind (savesTo_note _) fun _ =>
    preserves_bind (savesTo_buildTree _) fun _ => preserves_bind (preserves_ofExcept _) fun tree =>
      preserves_bind (noted tree.nodes) fun _ => preserves_bind (savesTo_note _) fun _ =>
        preserves_pure _

end Build

namespace DepsFile

open Scan SourceScanner

private theorem savesTo_generate (entries : List DepsEntry) :
    Preserves (SavesTo file) (generate files options entries) := by
  have collected (sources : Entries SourceUnit) :
      Preserves (SavesTo file) (DepsEntry.collect files options sources entries) := by
    induction entries generalizing sources with
    | nil => exact preserves_pure _
    | cons entry entries ih => exact preserves_bind (savesTo_scan _) fun _ => ih _
  exact preserves_bind (collected []) fun _ => preserves_bind (savesTo_note _) fun _ =>
    preserves_pure _

end DepsFile

namespace CommandLine

open SourceScanner

variable {request : Request} {launcher : Launcher} {selection : Selection} {session : BuildSession}
  {cacheFile : String} {cache : Option SourceCache} {result : BuildResult} {label : String}
  {work : Scan (ModuleTree × UnitList)} {error : BuildError} {allowed : List String → Prop}

/-! ## What a session saves -/

/-- The path that a cache is saved at: none if no cache is asked for. -/
def savePath? (cacheFile : String) : Option String :=
  if cacheFile.isEmpty then none else some (Path.tidy cacheFile)

/-- Whether a place is that of the cache file or of a directory on the way to it. -/
def OnCachePath (files : FileSystem) (cacheFile : String) (place : List String) : Prop :=
  cacheFile.isEmpty = false ∧ files.LeadsThrough cacheFile place

theorem savesTo_openSession (files : FileSystem) (cacheFile : String) :
    (openSession files cacheFile).scanner.SavesTo (savePath? cacheFile) := by
  unfold openSession savePath?
  split
  · rfl
  · exact congrArg some (SourceCache.file_load files cacheFile)

theorem files_openSession (files : FileSystem) (cacheFile : String) :
    (openSession files cacheFile).files = files := by
  unfold openSession
  split <;> rfl

theorem saveIfAny_changesOnly (saves : cache.map (·.file) = savePath? cacheFile) :
    ChangesOnly files (OnCachePath files cacheFile) (SourceCache.saveIfAny files cache).1 := by
  cases cache with
  | none => exact .refl files
  | some cache =>
    unfold savePath? at saves
    split at saves
    · cases saves
    · next given =>
      obtain same : cache.file = Path.tidy cacheFile := Option.some.inj saves
      refine (SourceCache.save_changesOnly files cache).mono fun place through => ?_
      rw [same] at through
      exact ⟨Bool.eq_false_iff.mpr given, FileSystem.leadsThrough_tidy through⟩

/-! ## Outcomes -/

/-- An outcome of a run that fails: exit code 1, nothing printed, and changes at allowed places
only. -/
structure Fails (files : FileSystem) (allowed : List String → Prop) (outcome : Outcome) : Prop where
  ending : outcome.ending = .exit 1
  printed : outcome.printed = ""
  changes : ChangesOnly files allowed outcome.files

private theorem finish_error (failed : (work session.scanner).1 = .error error) :
    (Build.finish result work label session).1 = result.failed error ∧
      (Build.finish result work label session).2.files =
        (SourceCache.saveIfAny session.files (work session.scanner).2.cache).1 := by
  unfold Build.finish
  rcases done : work session.scanner with ⟨answer, later⟩
  rw [done] at failed
  obtain rfl : answer = .error error := failed
  exact ⟨rfl, rfl⟩

private theorem hasErrors_failed (result : BuildResult) (error : BuildError) :
    (result.failed error).hasErrors = true := by
  simp [BuildResult.failed, BuildResult.hasErrors, Diagnostic.ofError]

private theorem failed_of_hasErrors {made : BuildResult} {later : BuildSession}
    (clean : result.hasErrors = false) (finished : Build.finish result work label session = (made, later))
    (errors : made.hasErrors = true) : ∃ error, (work session.scanner).1 = .error error := by
  rcases worked : work session.scanner with ⟨answer, scanner⟩
  cases answer with
  | error error => exact ⟨error, rfl⟩
  | ok planned =>
    have kept : made.hasErrors = result.hasErrors := by
      rw [Build.finish, worked] at finished
      rw [← congrArg BuildResult.hasErrors (congrArg Prod.fst finished)]
      rfl
    rw [kept, clean] at errors
    cases errors

private theorem withPlan_fails {next : BuildResult → ModuleTree → Outcome → Outcome}
    {later : BuildSession}
    (resolved : resolve options selection session = some (result, later))
    (errors : result.hasErrors = true) (changes : ChangesOnly files allowed later.files) :
    Fails files allowed (withPlan options selection session launcher next) := by
  have none : result.plan? = none := by rw [BuildResult.plan?, if_pos errors]
  unfold withPlan
  simp only [resolved, none]
  exact ⟨rfl, rfl, changes⟩

private theorem finish_fails (failed : (work session.scanner).1 = .error error)
    (keeps : Scan.Preserves (SavesTo (savePath? cacheFile)) work)
    (saves : session.scanner.SavesTo (savePath? cacheFile)) :
    (Build.finish result work label session).1.hasErrors = true ∧
      ChangesOnly session.files (OnCachePath session.files cacheFile)
        (Build.finish result work label session).2.files := by
  obtain ⟨diagnosed, left⟩ := finish_error failed
  rw [diagnosed, left]
  exact ⟨hasErrors_failed _ _, saveIfAny_changesOnly (keeps _ saves)⟩

/-! ## Requests -/

/-- Commands that give out the plan of a build without compiling it. -/
inductive Plans : Command → Selection → Prop where
  | order (selection : Selection) (output : String) : Plans (.order selection output) selection
  | modules (selection : Selection) (output : String) : Plans (.modules selection output) selection
  | flags (selection : Selection) (output : String) : Plans (.flags selection output) selection
  | moduleDeps (selection : Selection) (defines : Defines) (loadAsync : Bool) (infoFile : String) :
      Plans (.moduleDeps selection defines loadAsync infoFile) selection

/-- The build error that a request meets: in its configuration, in what it scans, or in the plan of
its modules. -/
inductive Meets (request : Request) (files : FileSystem) (error : BuildError) : Prop where
  | single {selection : Selection} {inputs : List String} : Plans request.command selection →
      selection.config = "" → selection.inputs = some inputs →
      (Build.loadSingle files request.options selection.roots inputs
        (openSession files request.cacheFile).scanner).1 = .error error → Meets request files error
  | config {selection : Selection} : Plans request.command selection → selection.config ≠ "" →
      Build.readConfig files selection.config = .error error → Meets request files error
  | modules {selection : Selection} {config : ModuleConfig} : Plans request.command selection →
      selection.config ≠ "" → Build.readConfig files selection.config = .ok config →
      (Build.loadModules files request.options config selection.roots
        (openSession files request.cacheFile).scanner).1 = .error error → Meets request files error
  | deps {entries : List DepsEntry} {output : String} : request.command = .deps entries output →
      (DepsFile.generate files request.options entries
        (openSession files request.cacheFile).scanner).1 = .error error → Meets request files error
  | checkRequires {check : RequireCheck} : request.command = .checkRequires check →
      (check.run files request.options).1 = .error error → Meets request files error

/-- Whether the build, the listing or the check that a request asks for ends in an error. -/
inductive HasErrors (request : Request) (files : FileSystem) : Prop where
  | build {selection : Selection} {result : BuildResult} {later : BuildSession} :
      Plans request.command selection →
      resolve request.options selection (openSession files request.cacheFile) = some (result, later) →
      result.hasErrors = true → HasErrors request files
  | deps {entries : List DepsEntry} {output : String} : request.command = .deps entries output →
      (DepsFile.generate files request.options entries
        (openSession files request.cacheFile).scanner).1.isOk = false → HasErrors request files
  | checkRequires {check : RequireCheck} : request.command = .checkRequires check →
      (check.run files request.options).1.isOk = false → HasErrors request files

private theorem run_fails_of_finish (plans : Plans request.command selection)
    (resolved : resolve request.options selection (openSession files request.cacheFile) =
      some (Build.finish result work label (openSession files request.cacheFile)))
    (failed : (work (openSession files request.cacheFile).scanner).1 = .error error)
    (keeps : Scan.Preserves (SavesTo (savePath? request.cacheFile)) work) :
    HasErrors request files ∧
      Fails files (OnCachePath files request.cacheFile) (request.run files launcher) := by
  obtain ⟨errors, changes⟩ :=
    finish_fails failed keeps (savesTo_openSession files request.cacheFile)
  rw [files_openSession] at changes
  refine ⟨.build plans resolved errors, ?_⟩
  obtain ⟨options, cacheFile, command⟩ := request
  rw [Request.run]
  cases plans with
  | order => exact withPlan_fails resolved errors changes
  | modules => exact withPlan_fails resolved errors changes
  | flags => exact withPlan_fails resolved errors changes
  | moduleDeps => exact withPlan_fails resolved errors changes

theorem resolve_single {inputs : List String} (unconfigured : selection.config = "")
    (given : selection.inputs = some inputs) :
    resolve options selection (openSession files cacheFile) =
      some (Build.finish {} (Build.loadSingle files options selection.roots inputs)
        "Total time. Dependencies resolved." (openSession files cacheFile)) := by
  rw [resolve, if_pos (by simpa using unconfigured), given, Option.map_some, Build.single,
    files_openSession]

theorem resolve_modules {config : ModuleConfig} (configured : selection.config ≠ "")
    (read : Build.readConfig files selection.config = .ok config) :
    resolve options selection (openSession files cacheFile) =
      some (Build.finish { config := some config }
        (Build.loadModules files options config selection.roots)
        "Total time. Modules resolved." (openSession files cacheFile)) := by
  rw [resolve, if_neg (by simpa using configured), Build.modules, files_openSession, read]

private theorem resolve_misconfigured (configured : selection.config ≠ "")
    (failed : Build.readConfig files selection.config = .error error) :
    resolve options selection (openSession files cacheFile) =
      some (Build.finish {} (Scan.ofExcept (.error error)) "Total time. Modules resolved."
        (openSession files cacheFile)) := by
  rw [resolve, if_neg (by simpa using configured), Build.modules, files_openSession, failed]

private theorem writeDeps_fails {entries : List DepsEntry} {output : String}
    (failed : (DepsFile.generate files options entries (openSession files cacheFile).scanner).1 =
      .error error) :
    Fails files (OnCachePath files cacheFile)
      (writeDeps options entries output (openSession files cacheFile) launcher) := by
  have saves := savesTo_openSession files cacheFile
  have kept : (DepsFile.generate files options entries
      (openSession files cacheFile).scanner).2.SavesTo (savePath? cacheFile) :=
    DepsFile.savesTo_generate entries _ saves
  unfold writeDeps
  rw [files_openSession]
  generalize DepsFile.generate files options entries (openSession files cacheFile).scanner = done
    at failed kept
  obtain ⟨answer, later⟩ := done
  obtain rfl : answer = .error error := failed
  exact ⟨rfl, rfl, saveIfAny_changesOnly kept⟩

private theorem checkRequires_fails {check : RequireCheck}
    (failed : (check.run files options).1 = .error error) :
    Fails files allowed (checkRequires options check files launcher) := by
  unfold checkRequires
  rcases done : check.run files options with ⟨answer, log⟩
  rw [done] at failed
  obtain rfl : answer = .error error := failed
  exact ⟨rfl, rfl, .refl files⟩

private theorem meets_of_hasErrors (errors : HasErrors request files) :
    ∃ error, Meets request files error := by
  cases errors with
  | @build selection result later plans resolved errors =>
    by_cases unconfigured : selection.config = ""
    · cases given : selection.inputs with
      | none => simp [resolve, unconfigured, given] at resolved
      | some inputs =>
        rw [resolve_single unconfigured given, Option.some.injEq] at resolved
        obtain ⟨error, failed⟩ := failed_of_hasErrors rfl resolved errors
        exact ⟨error, .single plans unconfigured given failed⟩
    · cases read : Build.readConfig files selection.config with
      | error error => exact ⟨error, .config plans unconfigured read⟩
      | ok config =>
        rw [resolve_modules unconfigured read, Option.some.injEq] at resolved
        obtain ⟨error, failed⟩ := failed_of_hasErrors rfl resolved errors
        exact ⟨error, .modules plans unconfigured read failed⟩
  | deps command errors =>
    obtain ⟨error, failed⟩ := exists_error_of_isOk errors
    exact ⟨error, .deps command failed⟩
  | checkRequires command errors =>
    obtain ⟨error, failed⟩ := exists_error_of_isOk errors
    exact ⟨error, .checkRequires command failed⟩

private theorem fails_of_meets (launcher : Launcher) (meets : Meets request files error) :
    HasErrors request files ∧
      Fails files (OnCachePath files request.cacheFile) (request.run files launcher) := by
  cases meets with
  | single plans unconfigured given failed =>
    exact run_fails_of_finish plans (resolve_single unconfigured given) failed
      (Build.savesTo_loadSingle _ _)
  | config plans configured failed =>
    exact run_fails_of_finish plans (resolve_misconfigured configured failed) rfl
      (Scan.preserves_ofExcept _)
  | modules plans configured read failed =>
    exact run_fails_of_finish plans (resolve_modules configured read) failed
      (Build.savesTo_loadModules _ _)
  | deps command failed =>
    refine ⟨.deps command (by rw [failed]; rfl), ?_⟩
    rw [Request.run, command]
    exact writeDeps_fails failed
  | checkRequires command failed =>
    refine ⟨.checkRequires command (by rw [failed]; rfl), ?_⟩
    rw [Request.run, command]
    exact checkRequires_fails failed

/-- A command has errors exactly if it meets a build error, and then fails without any output.  It
leaves all files and directories as they are, except for the cache file and the directories on the
way to it. -/
theorem run_of_error (request : Request) (files : FileSystem) (launcher : Launcher) :
    (HasErrors request files ↔ ∃ error, Meets request files error) ∧
      ∀ error, Meets request files error →
        Fails files (OnCachePath files request.cacheFile) (request.run files launcher) :=
  ⟨⟨meets_of_hasErrors, fun ⟨_, meets⟩ => (fails_of_meets launcher meets).1⟩,
    fun _ meets => (fails_of_meets launcher meets).2⟩

/-- A script that ends within a string. -/
def tornFiles : FileSystem where
  root := .directory [("w", .directory [
    ("a.js", .file (Utf8.encode "goog.provide('a") 1000000000000000000)] 0)] 0
  workingNames := ["w"]

def tornRequest : Request where
  options := {}
  cacheFile := "cache/units.json"
  command := .order { roots := [], inputs := some ["a.js"] } "out/order.txt"

theorem run_of_error_torn : ∃ error, Meets tornRequest tornFiles error ∧
    Fails tornFiles (OnCachePath tornFiles "cache/units.json") (tornRequest.run tornFiles {}) := by
  have failed : (Build.loadSingle tornFiles {} [] ["a.js"]
      (openSession tornFiles "cache/units.json").scanner).1.isOk = false := by decide +kernel
  obtain ⟨error, met⟩ := exists_error_of_isOk failed
  have meets : Meets tornRequest tornFiles error := .single (.order _ _) rfl rfl met
  exact ⟨error, meets, (run_of_error tornRequest tornFiles {}).2 error meets⟩

end CommandLine

end ChunkPlan
