import ChunkPlan.Proofs.DepsFiles
import ChunkPlan.Proofs.Scanning

/-!
# Listings of dependency files

Each source of each entry is listed under a path.  A source is in the file if nothing later is listed
under the same path; otherwise the later one takes its place.
-/

set_option autoImplicit false

namespace ChunkPlan

namespace DepsEntry

variable {files : FileSystem} {options : RunOptions} {entries : List DepsEntry}
  {sources collected : Entries SourceUnit} {scanner later : SourceScanner}

/-- The units that a scanner finds for each entry. -/
def Scans (files : FileSystem) (options : RunOptions) (scanner : SourceScanner) :
    List DepsEntry → List UnitList → Prop :=
  List.Forall₂ fun entry units =>
    (SourceScanner.scan files options entry.locators scanner).1 = .ok units

/-- The units found for each entry with the paths they are listed under, in the order in which they
are met. -/
def listings (workingDirectory : String) (entries : List DepsEntry) (scans : List UnitList) :
    List (String × SourceUnit) :=
  (entries.zip scans).flatMap fun (entry, units) =>
    units.map fun unit => (entry.listedPath workingDirectory unit, unit)

/-- Scanners that answer alike find the same units. -/
theorem Scans.congr {scans : List UnitList} (alike : SourceScanner.Alike files scanner later)
    (found : Scans files options later entries scans) : Scans files options scanner entries scans :=
  List.Forall₂.imp (fun entry _ ok =>
    ((SourceScanner.reads_scan files options entry.locators).same _ _ alike).trans ok) found

theorem Scans.unique {scans others : List UnitList} (found : Scans files options scanner entries scans)
    (again : Scans files options scanner entries others) : scans = others := by
  refine List.right_unique_forall₂' (fun entry units more first second => ?_) found again
  exact Except.ok.inj (first.symm.trans second)

/-- All listings are written one after the other. -/
theorem collect_ok (ok : (collect files options sources entries scanner).1 = .ok collected) :
    ∃ scans, Scans files options scanner entries scans ∧
      collected = sources.putAll (listings files.workingDirectory entries scans) := by
  induction entries generalizing sources scanner with
  | nil =>
    cases ok
    exact ⟨[], .nil, rfl⟩
  | cons entry entries ih =>
    rw [collect, Scan.bind_run] at ok
    have keeps := (SourceScanner.reads_scan files options entry.locators).keeps scanner
    rcases scanned : SourceScanner.scan files options entry.locators scanner with ⟨result, later⟩
    rw [scanned] at ok keeps
    cases result with
    | error error => cases ok
    | ok units =>
      obtain ⟨scans, found, rfl⟩ := ih ok
      exact ⟨units :: scans, .cons (by rw [scanned]) (found.congr keeps),
        Entries.putAll_append.symm⟩

end DepsEntry

namespace DepsFile

open DepsEntry

variable {files : FileSystem} {options : RunOptions} {entries : List DepsEntry} {text : String}
  {scanner : SourceScanner}

theorem generate_eq_ok : (generate files options entries scanner).1 = .ok text ↔
    ∃ sources, (collect files options [] entries scanner).1 = .ok sources ∧
      header ++ body sources = text := by
  rw [generate, Scan.bind_run]
  rcases collected : collect files options [] entries scanner with ⟨result, later⟩
  cases result with
  | error error => exact ⟨nofun, fun ⟨_, failed, _⟩ => nomatch failed⟩
  | ok sources =>
    constructor
    · rintro ⟨⟩
      exact ⟨sources, rfl, rfl⟩
    · rintro ⟨_, ⟨⟩, rfl⟩
      rfl

/-- A dependency file has a line for each path under which something is listed, with the last source
that is, as long as that provides something.  So it has all sources that do if no two share a path. -/
theorem generate_lists_last (ok : (generate files options entries scanner).1 = .ok text) :
    ∃ scans listed, Scans files options scanner entries scans ∧
      text = header ++ String.join (listed.map fun entry => line entry.1 entry.2) ∧
      (Entries.keys listed).Pairwise (· < ·) ∧
      let all := listings files.workingDirectory entries scans
      (∀ path unit, (path, unit) ∈ listed ↔ unit.provides ≠ [] ∧ Entries.Last all path unit) ∧
      ((∀ path first second, (path, first) ∈ all → (path, second) ∈ all → first = second) →
        ∀ path unit, (path, unit) ∈ all → unit.provides ≠ [] → (path, unit) ∈ listed) := by
  obtain ⟨sources, collected, rfl⟩ := generate_eq_ok.mp ok
  obtain ⟨scans, found, rfl⟩ := collect_ok collected
  let all := listings files.workingDirectory entries scans
  let listed := ((Entries.ofPairs all).mergeSort precedes).filter (!·.2.provides.isEmpty)
  have lasts (path : String) (unit : SourceUnit) :
      (path, unit) ∈ listed ↔ unit.provides ≠ [] ∧ Entries.Last all path unit := by
    rw [List.mem_filter, List.mem_mergeSort, Entries.mem_ofPairs_iff, and_comm]
    simp
  have unique : (Entries.ofPairs all).keys.Nodup := Entries.nodup_keys_ofPairs
  refine ⟨scans, listed, found, rfl, ?_, lasts, fun single path unit member provides => ?_⟩
  · exact List.pairwise_map.mpr ((Text.strictly_ascending_mergeSort_fst unique).filter _)
  · exact (lasts path unit).mpr ⟨provides, Entries.last_of_mem member fun other listed =>
      single path other unit listed member⟩

/-- Two directories with a script of the same name in each. -/
def twins : FileSystem where
  root := .directory [
    ("a", .directory [("x.js", .file (Utf8.encode "goog.provide('a');") 0)] 0),
    ("b", .directory [("x.js", .file (Utf8.encode "goog.provide('b');") 0)] 0)] 0

def firstTwin : SourceUnit := .create "/a/x.js" ["a"] [] false

def secondTwin : SourceUnit := .create "/b/x.js" ["b"] [] false

theorem scans_twins (first second firstLead secondLead : String) :
    Scans twins {} {} [.files ["/a/x.js"] first firstLead, .files ["/b/x.js"] second secondLead]
      [[firstTwin], [secondTwin]] := by
  have first : (SourceScanner.scan twins {} ["/a/x.js"] {}).1 = .ok [firstTwin] :=
    eq_ok_of_toOption (by decide +kernel)
  have second : (SourceScanner.scan twins {} ["/b/x.js"] {}).1 = .ok [secondTwin] :=
    eq_ok_of_toOption (by decide +kernel)
  exact .cons first (.cons second .nil)

theorem generate_lists_last_twins :
    let entries : List DepsEntry := [.files ["/a/x.js"] "/a" "a/", .files ["/b/x.js"] "/b" "b/"]
    ∃ text listed, (generate twins {} entries {}).1 = .ok text ∧
      text = header ++ String.join (List.map (fun entry => line entry.1 entry.2) listed) ∧
      ("a/x.js", firstTwin) ∈ listed ∧ ("b/x.js", secondTwin) ∈ listed := by
  intro entries
  have collected : (collect twins {} [] entries {}).1 =
      .ok [("a/x.js", firstTwin), ("b/x.js", secondTwin)] := eq_ok_of_toOption (by decide +kernel)
  have ok := generate_eq_ok.mpr ⟨_, collected, rfl⟩
  obtain ⟨scans, listed, found, written, -, -, all⟩ := generate_lists_last ok
  obtain rfl := found.unique (scans_twins "/a" "/b" "a/" "b/")
  have paths : listings twins.workingDirectory entries [[firstTwin], [secondTwin]] =
      [("a/x.js", firstTwin), ("b/x.js", secondTwin)] := by decide +kernel
  rw [paths] at all
  have single : ∀ path first second,
      (path, first) ∈ [("a/x.js", firstTwin), ("b/x.js", secondTwin)] →
        (path, second) ∈ [("a/x.js", firstTwin), ("b/x.js", secondTwin)] → first = second := by
    intro path first second here there
    rcases List.mem_pair.mp here with same | same
    · cases same
      exact .symm (by simpa using there)
    · cases same
      exact .symm (by simpa using there)
  exact ⟨_, listed, ok, written, all single _ _ (by simp) (by decide), all single _ _ (by simp)
    (by decide)⟩

private theorem quotedNames_of_sorted {names : List String} (ascending : names.Pairwise (· ≤ ·)) :
    quotedNames names = ", ".intercalate (names.map fun name => s!"'{name}'") := by
  rw [quotedNames, Text.sorted_of_ascending ascending]

private theorem line_secondTwin :
    line "x.js" secondTwin = "goog.addDependency('x.js', ['b'], [], false);\n" := by
  have provides : quotedNames secondTwin.provides = ", ".intercalate ["'b'"] :=
    quotedNames_of_sorted (List.pairwise_singleton _ _)
  have requires : quotedNames secondTwin.requires = ", ".intercalate [] :=
    quotedNames_of_sorted .nil
  apply String.toList_injective
  rw [toList_line, provides, requires]
  decide +kernel

/-- The script of the first directory is scanned, but its line makes way for the one of its twin. -/
theorem generate_forgets_twin :
    let entries : List DepsEntry := [.files ["/a/x.js"] "/a" "", .files ["/b/x.js"] "/b" ""]
    let text := header ++ "goog.addDependency('x.js', ['b'], [], false);\n"
    Scans twins {} {} entries [[firstTwin], [secondTwin]] ∧ firstTwin.provides = ["a"] ∧
      (generate twins {} entries {}).1 = .ok text ∧
      Text.occursIn "['a']".toList text.toList = false := by
  intro entries text
  have collected : (collect twins {} [] entries {}).1 = .ok [("x.js", secondTwin)] :=
    eq_ok_of_toOption (by decide +kernel)
  have written : body [("x.js", secondTwin)] = line "x.js" secondTwin := by
    rw [body, List.mergeSort_singleton]
    simp [secondTwin, SourceUnit.create]
  have ok := generate_eq_ok.mpr ⟨_, collected, rfl⟩
  rw [written, line_secondTwin] at ok
  exact ⟨scans_twins "/a" "/b" "" "", rfl, ok, by decide +kernel⟩

end DepsFile

end ChunkPlan
