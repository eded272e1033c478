import ChunkPlan.LoaderFile
import ChunkPlan.Proofs.RelativePaths
import Mathlib.Data.List.Forall2

/-!
# Addresses in loader files

The address of a source leads from the directory that the loader file is served from back to the
source.  That directory is cut out of the address that the output is served under, so the address
goes on with the configured one only if that ends in a single slash.
-/

set_option autoImplicit false

namespace ChunkPlan

/-- Whether an address is a beginning with a relative path behind it that leads from a directory to
a file. -/
def LeadsTo (directory served address path : String) : Prop :=
  ∃ relative, address = served ++ relative ∧ Path.isAbsolute relative = false ∧
    Path.normalize (Path.join directory relative) = path

/-- Whether a text ends in a slash with another character in front of it. -/
def EndsInOneSlash (text : String) : Prop := ∃ front c, c ≠ '/' ∧ text.toList = front ++ [c, '/']

variable {served address path directory : String}

private theorem EndsInOneSlash.directory_append (ends : EndsInOneSlash served) :
    Path.directory served ++ "/" = served := by
  obtain ⟨front, c, apart, written⟩ := ends
  have single : served.toList = front ++ c :: List.replicate (0 + 1) '/' := written
  have cut : (Path.directory served).toList = front ++ [c] := Path.directory_of_slash apart single
  apply String.toList_injective
  rw [String.toList_append, cut, written, List.append_assoc]
  rfl

/-- What a directory is served as is as good as the address only if one slash is cut. -/
theorem leadsTo_iff (slash : served.toList.getLast? = some '/')
    (leads : LeadsTo directory (Path.directory served ++ "/") address path) :
    LeadsTo directory served address path ↔ EndsInOneSlash served := by
  refine ⟨fun whole => ?_, fun ends => by rwa [ends.directory_append] at leads⟩
  obtain ⟨relative, rfl, plain, -⟩ := leads
  obtain ⟨rest, same, plainRest, -⟩ := whole
  have same := congrArg String.toList same
  simp only [String.toList_append, List.append_assoc] at same
  rcases Path.slashes_cases served.toList with all | ⟨front, c, count, apart, written⟩
  · rw [Path.directory_of_slashes all] at same
    have same : '/' :: relative.toList = rest.toList := List.append_cancel_left same
    rw [Path.isAbsolute, ← same] at plainRest
    cases plainRest
  · cases count with
    | zero => simp [written, apart] at slash
    | succ count =>
      rw [Path.directory_of_slash apart written, written] at same
      have same : relative.toList = List.replicate count '/' ++ rest.toList := by
        simpa [List.replicate_succ] using same
      cases count with
      | zero => exact ⟨front, c, apart, written⟩
      | succ count =>
        rw [Path.isAbsolute, same] at plain
        cases plain

namespace LoaderPlan

variable {workingDirectory base : String} {config : ModuleConfig} {node : ModuleNode}

private theorem isName_script {name : String} (free : '/' ∉ name.toList) :
    Path.IsName (name ++ ".js").toList := by
  have length : 3 ≤ (name ++ ".js").toList.length := by simp
  refine ⟨?_, ?_, ?_, by simp [free]⟩ <;> intro same <;> rw [same] at length <;>
    exact absurd length (by decide)

/-- An output file stands in the directory that its prefix names. -/
theorem leadsAlong_outputFile (output : config.outputPrefix = base ++ "/")
    (resolved : Path.IsResolved base) (single : ¬ ['/', '/'] <+: config.outputPrefix.toList)
    (free : '/' ∉ node.name.toList) :
    ∃ source name, Path.LeadsAlong base source ∧
      Path.LeadsAlong (config.outputFile node.name) (source ++ [name]) ∧
      Path.directory (config.outputFile node.name) = base := by
  obtain ⟨source, leads⟩ := resolved.leadsAlong
  have below : source ≠ [] := by
    rintro rfl
    refine single ⟨[], ?_⟩
    rw [output, String.toList_append, leads.written]
    rfl
  have written : (config.outputFile node.name).toList =
      base.toList ++ '/' :: (node.name ++ ".js").toList := by
    simp [ModuleConfig.outputFile, output]
  exact ⟨source, _, leads, leads.file below (isName_script free) written⟩

/-- Each address leads to its source, behind the address of the directory that the loader file is
served from.  It does so behind the configured address just if that ends in one slash. -/
theorem fileUris_leadTo (output : config.outputPrefix = base ++ "/")
    (resolved : Path.IsResolved base) (single : ¬ ['/', '/'] <+: config.outputPrefix.toList)
    (slash : config.productionUri.toList.getLast? = some '/') (free : '/' ∉ node.name.toList)
    (sources : ∀ unit ∈ node.units, Path.IsResolved unit.path ∧ '\\' ∉ unit.path.toList) :
    let directory := Path.directory (config.outputFile node.name)
    List.Forall₂
      (fun uri unit =>
        LeadsTo directory (Path.directory config.productionUri ++ "/") uri unit.path ∧
          (LeadsTo directory config.productionUri uri unit.path ↔
            EndsInOneSlash config.productionUri))
      (fileUris workingDirectory config node) node.units := by
  obtain ⟨source, name, leads, file, here⟩ := leadsAlong_outputFile output resolved single free
  have cut : Path.directory (config.productionUri ++ node.name ++ ".js") =
      Path.directory config.productionUri := by
    rw [String.append_assoc]
    exact Path.directory_append (isName_script free).2.2.2
  rw [fileUris, List.forall₂_map_left_iff, List.forall₂_same]
  simp only [cut, file.absolute_eq, here]
  intro unit member
  obtain ⟨placed, plain⟩ := sources unit member
  obtain ⟨target, target_leads⟩ := placed.leadsAlong
  rw [Path.withSlashes_relative leads target_leads plain]
  let relative := Path.relative workingDirectory unit.path base
  have back : LeadsTo base (Path.directory config.productionUri ++ "/")
      (Path.directory config.productionUri ++ "/" ++ relative) unit.path :=
    ⟨relative, rfl, Path.normalize_join_relative leads target_leads⟩
  exact ⟨back, leadsTo_iff slash back⟩

/-- A configuration for outputs in one directory that are served under some address. -/
def servedUnder (productionUri : String) : ModuleConfig := { outputPrefix := "/out/", productionUri }

/-- A module with a source beside its loader file and one elsewhere. -/
def spreadNode : ModuleNode :=
  { name := "app", deps := [{ path := "/out/a.js" }, { path := "/src/b.js" }] }

private theorem isResolved_spreadNode : ∀ unit ∈ spreadNode.units,
    Path.IsResolved unit.path ∧ '\\' ∉ unit.path.toList := by
  have units : spreadNode.units = [{ path := "/out/a.js" }, { path := "/src/b.js" }] := rfl
  rw [units]
  simp only [List.forall_mem_cons]
  exact ⟨⟨⟨by decide, by decide +kernel, by decide⟩, by decide⟩,
    ⟨⟨by decide, by decide +kernel, by decide⟩, by decide⟩, by simp⟩

theorem fileUris_leadTo_spreadNode :
    fileUris "/" (servedUnder "/js/") spreadNode = ["/js/a.js", "/js/../src/b.js"] ∧
      List.Forall₂ (fun uri unit => LeadsTo "/out" "/js/" uri unit.path)
        ["/js/a.js", "/js/../src/b.js"] spreadNode.units := by
  have uris : fileUris "/" (servedUnder "/js/") spreadNode = ["/js/a.js", "/js/../src/b.js"] := by
    decide +kernel
  have ends : EndsInOneSlash "/js/" := ⟨['/', 'j'], 's', by decide, by decide⟩
  refine ⟨uris, ?_⟩
  rw [← uris]
  have base : Path.IsResolved "/out" := ⟨by decide, by decide +kernel, by decide⟩
  exact (fileUris_leadTo rfl base (by decide) (by decide) (by decide)
    isResolved_spreadNode).imp fun uri unit both => both.2.mpr ends

/-- Behind the address of a whole site the second slash makes the rest the name of a host. -/
theorem fileUris_not_leadTo_site :
    Path.IsResolved "/out" ∧ (servedUnder "/").outputPrefix = "/out" ++ "/" ∧
      ¬ ['/', '/'] <+: (servedUnder "/").outputPrefix.toList ∧
      (servedUnder "/").productionUri.toList.getLast? = some '/' ∧ '/' ∉ spreadNode.name.toList ∧
      (∀ unit ∈ spreadNode.units, Path.IsResolved unit.path ∧ '\\' ∉ unit.path.toList) ∧
      ¬ List.Forall₂ (fun uri unit => LeadsTo "/out" (servedUnder "/").productionUri uri unit.path)
        (fileUris "/" (servedUnder "/") spreadNode) spreadNode.units := by
  refine ⟨⟨by decide, by decide +kernel, by decide⟩, rfl, by decide, by decide, by decide,
    isResolved_spreadNode, fun all => ?_⟩
  have uris : fileUris "/" (servedUnder "/") spreadNode = ["//a.js", "//../src/b.js"] := by
    decide +kernel
  rw [uris] at all
  cases all with
  | cons first _ =>
    obtain ⟨relative, same, plain, -⟩ := first
    have same : "/a.js".toList = relative.toList := by
      simpa [servedUnder] using congrArg String.toList same
    rw [Path.isAbsolute, ← same] at plain
    exact absurd plain (by decide)

end LoaderPlan

end ChunkPlan
