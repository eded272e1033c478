import ChunkPlan.LoaderFile
import ChunkPlan.Proofs.BuildTree
import ChunkPlan.Proofs.JsonKeys

/-!
# Module maps from configurations and from trees

What is loaded after what can be read off a configuration, without its sources, or off the tree of
its modules.  Both say the same of every module.
-/

set_option autoImplicit false

namespace ChunkPlan

variable {workingDirectory file name productionUri : String} {directory : Option String}
  {descriptor : Json} {descriptors : List (String × Json)} {members : Entries Json}
  {declaration : ModuleDeclaration} {modules : Entries ModuleDeclaration} {config : ModuleConfig}
  {files : FileSystem} {options : RunOptions} {scanner : SourceScanner} {tree : ModuleTree}

/-! ## Configurations that are read -/

namespace ModuleDeclaration

private theorem ofJson_ok (ok : ofJson directory name descriptor = .ok declaration) :
    ∃ members, descriptor = .object members ∧
      texts name "deps" (Json.member members "deps") = .ok declaration.deps := by
  cases descriptor with
  | object members =>
    obtain ⟨deps, read, ok⟩ := of_bind_ok ok
    obtain ⟨inputs, -, ok⟩ := of_bind_ok ok
    split at ok
    · cases ok
    · cases ok
      exact ⟨members, rfl, read⟩
  | _ => cases ok

private theorem keys_listOfJson (read : listOfJson directory descriptors = .ok modules) :
    modules.keys = Entries.keys descriptors := by
  induction descriptors generalizing modules with
  | nil =>
    cases read
    rfl
  | cons entry descriptors ih =>
    obtain ⟨declaration, -, read⟩ := of_bind_ok read
    obtain ⟨modules, rest, read⟩ := of_bind_ok read
    cases read
    exact congrArg (entry.1 :: ·) (ih rest)

theorem ofModules_ok {value : Json} (ok : ofModules directory value = .ok modules) :
    ∃ descriptors, value = .object descriptors ∧ value.isEmpty = false ∧
      listOfJson directory descriptors = .ok modules := by
  unfold ofModules at ok
  by_cases none : value.isEmpty = true
  · rw [if_pos none] at ok
    cases ok
  · rw [if_neg none] at ok
    cases value with
    | object descriptors => exact ⟨descriptors, rfl, eq_false_of_ne_true none, ok⟩
    | _ => cases ok

end ModuleDeclaration

namespace ModuleConfig

private theorem requiredText_ok {value : Json} {fault : BuildError} {text : String}
    (ok : requiredText value fault = .ok text) : value = .string text ∧ text.isEmpty = false := by
  cases value with
  | string given =>
    rw [requiredText] at ok
    split at ok
    · cases ok
    · next filled =>
      cases ok
      exact ⟨rfl, eq_false_of_ne_true filled⟩
  | _ => cases ok

theorem ofJson_ok (accepted : ofJson workingDirectory members file = .ok config) :
    (Json.member members "productionUri" = .string config.productionUri ∧
      config.productionUri.isEmpty = false) ∧
    ∃ directory, ModuleDeclaration.ofModules (some directory) (Json.member members "modules") =
      .ok config.modules := by
  obtain ⟨scopeName, -, ok⟩ := of_bind_ok accepted
  obtain ⟨outputPath, -, ok⟩ := of_bind_ok ok
  obtain ⟨productionUri, address, ok⟩ := of_bind_ok ok
  obtain ⟨renamed, -, ok⟩ := of_bind_ok ok
  obtain ⟨modules, read, ok⟩ := of_bind_ok ok
  cases ok
  exact ⟨requiredText_ok address, _, read⟩

theorem nodup_modules (keyed : (Json.object members).Keyed)
    (accepted : ofJson workingDirectory members file = .ok config) :
    config.modules.keys.Nodup := by
  obtain ⟨-, directory, read⟩ := ofJson_ok accepted
  obtain ⟨descriptors, form, -, read⟩ := ModuleDeclaration.ofModules_ok read
  rw [ModuleDeclaration.keys_listOfJson read]
  exact (Json.keyed_object.mp (form ▸ keyed.member "modules")).1

end ModuleConfig

private theorem Build.keyed_of_readConfigFile (read : readConfigFile files file = .ok members) :
    (Json.object members).Keyed := by
  rw [readConfigFile] at read
  split at read
  · cases read
  · split at read
    · cases read
    · cases read
    · split at read
      · cases read
      · next parsed =>
        cases read
        exact Json.keyed_of_parse? parsed
      · cases read

/-! ## Maps -/

namespace ModuleMap

/-- What some declarations say of their modules. -/
def ofDeclarations (productionUri : String) (modules : Entries ModuleDeclaration) : ModuleMap where
  info := modules.map fun entry => (entry.1, entry.2.deps)
  uris := modules.map fun entry => (entry.1, productionUri ++ entry.1 ++ ".js")

/-- Descriptors that are accepted as declarations are accepted here, and read the same way. -/
theorem ofDescriptors_eq (read : ModuleDeclaration.listOfJson directory descriptors = .ok modules) :
    ofDescriptors productionUri descriptors = .ok (ofDeclarations productionUri modules) := by
  induction descriptors generalizing modules with
  | nil =>
    cases read
    rfl
  | cons entry descriptors ih =>
    obtain ⟨name, descriptor⟩ := entry
    obtain ⟨declaration, first, read⟩ := of_bind_ok read
    obtain ⟨modules, rest, read⟩ := of_bind_ok read
    cases read
    obtain ⟨members, rfl, deps⟩ := ModuleDeclaration.ofJson_ok first
    rw [ofDescriptors, deps, ih rest]
    rfl

theorem ofJson_eq (accepted : ModuleConfig.ofJson workingDirectory members file = .ok config) :
    ofJson members = .ok (ofDeclarations config.productionUri config.modules) := by
  obtain ⟨⟨address, given⟩, directory, read⟩ := ModuleConfig.ofJson_ok accepted
  obtain ⟨descriptors, form, filled, read⟩ := ModuleDeclaration.ofModules_ok read
  have addressed : ¬(Json.string config.productionUri).isEmpty = true := by simp [Json.isEmpty, given]
  rw [ofJson, if_neg (ne_true_of_eq_false filled), form, address]
  exact (if_neg addressed).trans (ofDescriptors_eq read)

theorem keys_declared {α : Type} (value : String × ModuleDeclaration → α) :
    Entries.keys (modules.map fun entry => (entry.1, value entry)) = modules.keys := by
  simp [Entries.keys]

theorem keys_placed {α : Type} (value : ModuleNode → α) :
    Entries.keys (tree.nodes.map fun node => (node.name, value node)) =
      tree.nodes.map (·.name) := by
  simp [Entries.keys]

theorem ofTree_eq (unique : (tree.nodes.map (·.name)).Nodup) : ofTree tree productionUri =
    ⟨tree.nodes.map fun node => (node.name, node.parent.toList),
      tree.nodes.map fun node => (node.name, productionUri ++ node.name ++ ".js")⟩ :=
  congrArg₂ ModuleMap.mk (Entries.putAll_nil_of_nodup ((keys_placed _).symm ▸ unique))
    (Entries.putAll_nil_of_nodup ((keys_placed _).symm ▸ unique))

/-- A tree of declared modules says what the declarations say. -/
theorem perm_ofTree (unique : modules.keys.Nodup)
    (forms : Build.Forms files options scanner modules tree) :
    (ofTree tree productionUri).info.Perm (ofDeclarations productionUri modules).info ∧
    (ofTree tree productionUri).uris.Perm (ofDeclarations productionUri modules).uris := by
  -- Both sides have the names of the modules as their keys, so the pairs of the nodes are enough.
  have perm {α : Type} {value : ModuleNode → α} {stated : String × ModuleDeclaration → α}
      (same : ∀ node ∈ tree.nodes, ∃ declaration, (node.name, declaration) ∈ modules ∧
        stated (node.name, declaration) = value node) :
      (tree.nodes.map fun node => (node.name, value node)).Perm
        (modules.map fun entry => (entry.1, stated entry)) := by
    refine Entries.perm_of_subset ?_ ?_ fun entry member => ?_
    · rwa [keys_declared]
    · rw [keys_declared, keys_placed]
      exact forms.names
    · obtain ⟨node, placed, rfl⟩ := List.mem_map.mp member
      obtain ⟨declaration, declared, same⟩ := same node placed
      exact List.mem_map.mpr ⟨_, declared, by rw [same]⟩
  rw [ofTree_eq (forms.names.nodup_iff.mpr unique)]
  refine ⟨perm fun node placed => ?_, perm fun node placed => ?_⟩
  · obtain ⟨declaration, declared, parent, -⟩ := forms.nodes node placed
    exact ⟨declaration, declared, parent.symm⟩
  · obtain ⟨declaration, declared, -⟩ := forms.nodes node placed
    exact ⟨declaration, declared, rfl⟩

/-- A configuration that is accepted and comes to a tree gives a map without its sources being read.
The map holds what the tree's own map holds, each module once: in order of declaration, where the
tree has them in pre-order. -/
theorem ofJson_perm_ofTree (keyed : (Json.object members).Keyed)
    (accepted : ModuleConfig.ofJson workingDirectory members file = .ok config)
    (made : (Build.buildTree files options config.modules scanner).1 = .ok tree) :
    ∃ map, ofJson members = .ok map ∧
      map.info.Perm (ofTree tree config.productionUri).info ∧
      map.uris.Perm (ofTree tree config.productionUri).uris ∧
      map.info.keys = config.modules.keys ∧ map.uris.keys = config.modules.keys ∧
      (ofTree tree config.productionUri).info.keys = tree.nodes.map (·.name) ∧
      (ofTree tree config.productionUri).uris.keys = tree.nodes.map (·.name) ∧
      (tree.nodes.map (·.name)).Nodup := by
  have unique := ModuleConfig.nodup_modules keyed accepted
  have forms := Build.forms_of_buildTree_ok unique made
  have once : (tree.nodes.map (·.name)).Nodup := forms.names.nodup_iff.mpr unique
  obtain ⟨info, uris⟩ := perm_ofTree unique forms
  rw [ofTree_eq once] at info uris ⊢
  exact ⟨_, ofJson_eq accepted, info.symm, uris.symm, keys_declared _, keys_declared _,
    keys_placed _, keys_placed _, once⟩

/-- Modules declared child first, whose fields hold a text, a list or what stands for nothing. -/
def looseMembers : Entries Json :=
  [("modules", .object [
      ("late", .object [("deps", .string "early"), ("inputs", .string "b.js")]),
      ("early", .object [("deps", .bool false), ("inputs", .array [.string "a.js"])])]),
    ("outputPath", .string "out/"), ("productionUri", .string "/js/")]

private theorem keyed_looseMembers : (Json.object looseMembers).Keyed := by
  have text (text : String) : (Json.string text).Keyed := .flat rfl
  have absent : (Json.bool false).Keyed := .flat rfl
  simp [looseMembers, Json.keyed_object, Json.keyed_array, Entries.keys, text, absent]

/-- What is read from `looseMembers`. -/
def looseConfig : ModuleConfig where
  outputPrefix := "/w/out/"
  productionUri := "/js/"
  modules := [("late", { name := "late", deps := ["early"], inputs := ["/w/b.js"] }),
    ("early", { name := "early", deps := [], inputs := ["/w/a.js"] })]

theorem ofJson_perm_ofTree_looseMembers : (Json.object looseMembers).Keyed ∧
    ModuleConfig.ofJson "/w" looseMembers "" = .ok looseConfig ∧
    ∃ tree, (Build.buildTree Build.chainFiles {} looseConfig.modules {}).1 = .ok tree ∧
      ∃ map, ofJson looseMembers = .ok map ∧ map.info = [("late", ["early"]), ("early", [])] ∧
        map.info.Perm (ofTree tree "/js/").info ∧ map.uris.Perm (ofTree tree "/js/").uris := by
  have accepted : ModuleConfig.ofJson "/w" looseMembers "" = .ok looseConfig := rfl
  obtain ⟨tree, made⟩ : ∃ tree,
      (Build.buildTree Build.chainFiles {} looseConfig.modules {}).1 = .ok tree :=
    exists_of_isOk (by decide +kernel)
  obtain ⟨map, read, info, uris, -⟩ := ofJson_perm_ofTree keyed_looseMembers accepted made
  refine ⟨keyed_looseMembers, accepted, tree, made, map, read, ?_, info, uris⟩
  cases read
  rfl

/-- A configuration file that is read and comes to a tree gives a map that holds what the tree's own
map holds, each module once. -/
theorem perm_ofTree_of_readConfig (read : Build.readConfig files file = .ok config)
    (made : (Build.buildTree files options config.modules scanner).1 = .ok tree) :
    ∃ members map, Build.readConfigFile files file = .ok members ∧ ofJson members = .ok map ∧
      map.info.Perm (ofTree tree config.productionUri).info ∧
      map.uris.Perm (ofTree tree config.productionUri).uris ∧ (tree.nodes.map (·.name)).Nodup := by
  obtain ⟨members, source, accepted⟩ := of_bind_ok read
  have unique := ModuleConfig.nodup_modules (Build.keyed_of_readConfigFile source) accepted
  have forms := Build.forms_of_buildTree_ok unique made
  obtain ⟨info, uris⟩ := perm_ofTree unique forms
  exact ⟨members, _, source, ofJson_eq accepted, info.symm, uris.symm,
    forms.names.nodup_iff.mpr unique⟩

end ModuleMap

end ChunkPlan
