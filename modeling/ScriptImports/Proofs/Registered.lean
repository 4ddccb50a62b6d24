import ScriptImports.Name
import ScriptImports.Proofs.Alone
import ScriptImports.Proofs.Staging

/-!
Which registered module a file gives. A file name stands for itself and, if it is a flattened URL,
for every name that it ends in after an underscore; the longest registered one of these names is
chosen. For a remote module that has been staged this is what the load comes to, whatever directories
the URL has and whatever other modules are registered.
-/
namespace ScriptImports

namespace Registry

def StandsFor (fileName name : String) : Prop :=
  name = fileName ∨ isStagedName fileName = true ∧ endsInName fileName name = true

/-- Of the registered names that a file name stands for, the longest one. -/
structure Chooses (r : Registry) (fileName name : String) (exports : Exports) : Prop where
  registered : r.plugins.lookup name = some exports
  stands : StandsFor fileName name
  longest (other : String) : r.contains other = true → StandsFor fileName other →
    other.toList.length ≤ name.toList.length

theorem endsInName_iff {fileName name : String} :
    endsInName fileName name = true ↔ '_' :: name.toList <:+ fileName.toList := by
  rw [endsInName, List.isSuffixOf_iff_suffix]

theorem StandsFor.suffix {fileName name : String} (stands : StandsFor fileName name) :
    name.toList <:+ fileName.toList := by
  obtain rfl | ⟨_, ends⟩ := stands
  · exact List.suffix_refl _
  · exact (List.suffix_cons '_' name.toList).trans (endsInName_iff.1 ends)

theorem utf8ByteSize_lt_of_suffix {name other : String} (suffix : other.toList <:+ name.toList)
    (differ : other ≠ name) : other.utf8ByteSize < name.utf8ByteSize := by
  obtain ⟨above, whole⟩ := suffix
  have joined : String.ofList above ++ other = name := by
    rw [← String.toList_inj, String.toList_append, String.toList_ofList, whole]
  have some : String.ofList above ≠ "" := by
    intro nothing
    rw [nothing, String.empty_append] at joined
    exact differ joined
  rw [← joined, String.utf8ByteSize_append]
  exact Nat.lt_add_of_pos_left (Nat.pos_of_ne_zero (mt String.utf8ByteSize_eq_zero_iff.1 some))

/-- Of two names that a file name stands for, the one with fewer bytes has fewer characters. -/
theorem StandsFor.length_le {fileName name other : String} (stands : StandsFor fileName name)
    (stands' : StandsFor fileName other) (size : other.utf8ByteSize ≤ name.utf8ByteSize) :
    other.toList.length ≤ name.toList.length := by
  by_contra longer
  have suffix := List.suffix_of_suffix_length_le stands.suffix stands'.suffix
    (Nat.le_of_not_le longer)
  have differ : name ≠ other := by
    rintro rfl
    exact longer (Nat.le_refl _)
  exact absurd size (Nat.not_le_of_lt (utf8ByteSize_lt_of_suffix suffix differ))

/-- Names of one length that a file name stands for are one name. -/
theorem StandsFor.eq_of_length_eq {fileName name other : String} (stands : StandsFor fileName name)
    (stands' : StandsFor fileName other)
    (same : name.toList.length = other.toList.length) : name = other := by
  have suffix := List.suffix_of_suffix_length_le stands.suffix stands'.suffix (Nat.le_of_eq same)
  exact String.toList_inj.1 (suffix.eq_of_length same)

theorem contains_of_lookup {r : Registry} {name : String} {exports : Exports}
    (known : r.plugins.lookup name = some exports) : r.contains name = true := by
  rw [contains, known, Option.isSome_some]

theorem Chooses.unique {r : Registry} {fileName name other : String} {exports exports' : Exports}
    (chooses : r.Chooses fileName name exports) (chooses' : r.Chooses fileName other exports') :
    name = other ∧ exports = exports' := by
  have le := chooses'.longest name (contains_of_lookup chooses.registered) chooses.stands
  have ge := chooses.longest other (contains_of_lookup chooses'.registered) chooses'.stands
  have same := chooses.stands.eq_of_length_eq chooses'.stands (Nat.le_antisymm le ge)
  refine ⟨same, Option.some.inj ?_⟩
  rw [← chooses.registered, ← chooses'.registered, same]

theorem mem_plugins_iff {r : Registry} {name : String} {exports : Exports} :
    (name, exports) ∈ r.plugins ↔ r.plugins.lookup name = some exports := by
  constructor
  · exact Table.lookup_of_mem r.distinct
  · intro known
    obtain ⟨before, after, plugins, _⟩ := List.lookup_eq_some_iff.1 known
    simp [plugins]

theorem exists_mem_of_contains {r : Registry} {name : String} (known : r.contains name = true) :
    ∃ exports, (name, exports) ∈ r.plugins := by
  obtain ⟨exports, found⟩ := Option.isSome_iff_exists.1 known
  exact ⟨exports, mem_plugins_iff.2 found⟩

theorem longest_eq_none_iff {plugins : List (String × Exports)} :
    longest plugins = none ↔ plugins = [] := by
  cases plugins with
  | nil => simp [longest]
  | cons p ps =>
      rw [longest]
      split
      · simp
      · split <;> simp

theorem mem_longest {plugins : List (String × Exports)} {p : String × Exports}
    (h : longest plugins = some p) : p ∈ plugins := by
  induction plugins with
  | nil => cases h
  | cons first plugins ih =>
      rw [longest] at h
      split at h
      · cases h
        exact List.mem_cons_self
      · next q later =>
          split at h
          · cases h
            exact List.mem_cons_self
          · cases h
            exact List.mem_cons_of_mem first (ih later)

theorem size_le_longest {plugins : List (String × Exports)} {p q : String × Exports}
    (h : longest plugins = some p) (hq : q ∈ plugins) : q.1.utf8ByteSize ≤ p.1.utf8ByteSize := by
  induction plugins generalizing p with
  | nil => cases hq
  | cons first plugins ih =>
      rw [longest] at h
      split at h
      · next nothing =>
          cases h
          rw [longest_eq_none_iff.1 nothing, List.mem_singleton] at hq
          rw [hq]
      · next later found =>
          split at h
          · next shorter =>
              cases h
              cases List.mem_cons.1 hq with
              | inl same => rw [same]
              | inr hq => exact Nat.le_of_lt (Nat.lt_of_le_of_lt (ih found hq) shorter)
          · next longer =>
              cases h
              cases List.mem_cons.1 hq with
              | inl same => rw [same]; exact Nat.le_of_not_lt longer
              | inr hq => exact ih found hq

theorem exists_chooses {r : Registry} {fileName : String} {exports : Exports}
    (h : r.lookup fileName = some exports) : ∃ name, r.Chooses fileName name exports := by
  rw [lookup] at h
  split at h
  · next own known =>
      cases h
      exact ⟨fileName, known, Or.inl rfl, fun other _ stands => stands.suffix.length_le⟩
  · next unknown =>
      split at h
      · next staged =>
          obtain ⟨⟨name, _⟩, most, rfl⟩ := Option.map_eq_some_iff.1 h
          obtain ⟨there, ends⟩ := List.mem_filter.1 (mem_longest most)
          have chosen : StandsFor fileName name := Or.inr ⟨staged, ends⟩
          refine ⟨name, mem_plugins_iff.1 there, chosen, ?_⟩
          intro other known stands
          refine chosen.length_le stands ?_
          obtain ⟨exports, there⟩ := exists_mem_of_contains known
          obtain rfl | ⟨_, ends⟩ := stands
          · rw [contains, unknown] at known
            cases known
          · exact size_le_longest most (List.mem_filter.2 ⟨there, ends⟩)
      · cases h

theorem lookup_eq_none_iff {r : Registry} {fileName : String} :
    r.lookup fileName = none ↔ ∀ name, r.contains name = true → ¬ StandsFor fileName name := by
  constructor
  · intro h name known stands
    rw [lookup] at h
    split at h
    · cases h
    · next unknown =>
        obtain rfl | ⟨staged, ends⟩ := stands
        · rw [contains, unknown] at known
          cases known
        · rw [if_pos staged, Option.map_eq_none_iff, longest_eq_none_iff] at h
          obtain ⟨exports, there⟩ := exists_mem_of_contains known
          have compared : (name, exports) ∈ r.plugins.filter fun p => endsInName fileName p.1 :=
            List.mem_filter.2 ⟨there, ends⟩
          rw [h] at compared
          cases compared
  · intro none
    cases h : r.lookup fileName with
    | none => rfl
    | some exports =>
        obtain ⟨name, chooses⟩ := exists_chooses h
        exact absurd chooses.stands (none name (contains_of_lookup chooses.registered))

theorem lookup_eq_some_iff {r : Registry} {fileName : String} {exports : Exports} :
    r.lookup fileName = some exports ↔ ∃ name, r.Chooses fileName name exports := by
  refine ⟨exists_chooses, fun ⟨name, chooses⟩ => ?_⟩
  cases h : r.lookup fileName with
  | none =>
      have known := contains_of_lookup chooses.registered
      exact absurd chooses.stands (lookup_eq_none_iff.1 h name known)
  | some other =>
      obtain ⟨_, chooses'⟩ := exists_chooses h
      rw [(chooses.unique chooses').2]

theorem load_of_file (r : Registry) {tree : FileTree} {path : Path} {fileName : String}
    {content : ByteArray} (file : tree.lookAt path = .ok (.file content))
    (named : path.fileName? = some (.ofString fileName)) :
    r.load tree path =
      match r.lookup fileName with
      | some exports => .ok ⟨path, exports⟩
      | none => .error (.unregistered fileName) := by
  cases found : r.lookup fileName <;> simp [load, file, named, found, PathText.shown_ofString]

theorem load_of_error (r : Registry) {tree : FileTree} {path : Path} {fault : Fault}
    (stops : tree.lookAt path = .error fault) : r.load tree path = .error (.io fault) := by
  rw [load, stops]

end Registry

namespace Staging

/-! Flattened URLs. -/

theorem toList_flatten (url : String) :
    (flatten url).toList = url.toList.map fun c => if isPlain c then c else '_' := by
  rw [flatten, String.toList_ofList]

theorem isStagedName_flatten {url : String} (h : Name.isUrl url = true) :
    Registry.isStagedName (flatten url) = true := by
  have flat (scheme : String) (starts : scheme.toList <+: url.toList) :
      (flatten scheme).toList <+: (flatten url).toList := by
    rw [toList_flatten, toList_flatten]
    exact starts.map _
  have http : flatten "http://" = "http___" := by decide
  have https : flatten "https://" = "https___" := by decide
  simp only [Name.isUrl, Registry.isStagedName, Bool.or_eq_true, List.isPrefixOf_iff_prefix,
    ← http, ← https] at h ⊢
  exact h.imp (flat _) (flat _)

/-- What follows a slash in a URL follows an underscore in the flattened one. -/
theorem endsInName_flatten {url name : String} (h : '/' :: name.toList <:+ url.toList) :
    Registry.endsInName (flatten url) (flatten name) = true := by
  rw [Registry.endsInName_iff, toList_flatten, toList_flatten]
  have flat := h.map fun c => if isPlain c then c else '_'
  rwa [List.map_cons, if_neg (by decide)] at flat

/-- The file of a URL takes the place of a symbolic link in the staging directory. -/
def ReplacesLink (s : Staging) (t : FileTree) (url : String) : Prop :=
  ∃ d target, (t.makeDirectories s.directory).1.directoryAt s.directory = .ok d ∧
    t.node? (place d url) = some (.link target)

/-- The staged file is found under its name, unless the way to it has been cut by itself. -/
theorem lookAt_of_stage {s s' : Staging} {t t' : FileTree} {url : String} {body : ByteArray}
    {path : Path} (h : s.stage t url body = (s', t', .ok path)) :
    path.fileName? = some (.ofString (flatten url)) ∧
      (t'.lookAt path = .ok (.file body) ∨
        s.ReplacesLink t url ∧ t'.lookAt path = .error .notDirectory) := by
  obtain ⟨d, staged⟩ := staged_of_stage h
  obtain ⟨_, rfl, _⟩ := stage_eq_ok h
  have admits := staged.admits ⟨url, body⟩ List.mem_cons_self
  refine ⟨admits.fileName, ?_⟩
  obtain leads | ⟨cut, c, hc, goal, link⟩ := staged.leads_or_cut
  · have stands := (staged.target url).trans (FileTree.nodeAfter_cons_self ⟨url, body⟩)
    rw [FileTree.lookAt, target, FileTree.find_child admits leads stands]
    exact Or.inl rfl
  · cases List.mem_singleton.1 hc
    have stood := (FileTree.makeDirectories_paved t s.directory).grows.link link
    rw [FileTree.lookAt, target, FileTree.find_child_of_error admits cut]
    exact Or.inr ⟨⟨d, goal, staged.leads, stood⟩, rfl⟩

end Staging

/-- The text after the last slash of a URL. -/
def IsLastName (url name : String) : Prop :=
  '/' :: name.toList <:+ url.toList ∧ '/' ∉ name.toList

namespace World

/-- What loading a remote native module alone gives. -/
def loadRemote (w : World) (schedule : Schedule) (r : Reference) (url : String) :
    Except ImportFailure (List Payload) :=
  (w.loadAll schedule [.ofCandidate r ⟨.native, .url url⟩]).2

theorem loadRemote_staged {w : World} {url : String} {body : ByteArray} {path : Path}
    (reply : w.network.reply url = .body body)
    (staged : (w.staging.stage w.tree url body).2.2 = .ok path) (schedule : Schedule)
    (r : Reference) :
    (∃ exports, w.registry.lookup (Staging.flatten url) = some exports ∧
      w.loadRemote schedule r url = .ok [.native ⟨path, exports⟩]) ∨
    (w.registry.lookup (Staging.flatten url) = none ∧
      w.loadRemote schedule r url =
        .error (r.failure (.code path (.unregistered (Staging.flatten url))))) ∨
    (w.staging.ReplacesLink w.tree url ∧
      w.loadRemote schedule r url = .error (r.failure (.code path (.io .notDirectory)))) := by
  obtain ⟨s, t, stage⟩ : ∃ s t, w.staging.stage w.tree url body = (s, t, .ok path) :=
    ⟨_, _, Prod.ext rfl (Prod.ext rfl staged)⟩
  have reaches : LoadTask.Reaches w (LoadTask.ofCandidate r ⟨.native, .url url⟩).phase _ _ :=
    .of_stage reply stage
  have loaded : w.loadRemote schedule r url = _ :=
    congrArg Prod.snd (loadAll_alone reaches schedule)
  obtain ⟨named, file | ⟨link, cut⟩⟩ := Staging.lookAt_of_stage stage
  · rw [w.registry.load_of_file file named] at loaded
    cases found : w.registry.lookup (Staging.flatten url) with
    | some exports =>
        rw [found] at loaded
        exact Or.inl ⟨exports, rfl, loaded⟩
    | none =>
        rw [found] at loaded
        exact Or.inr (Or.inl ⟨rfl, loaded⟩)
  · rw [w.registry.load_of_error cut] at loaded
    exact Or.inr (Or.inr ⟨link, loaded⟩)

/-- A remote module is given the exports of the longest registered name that its flattened URL
stands for. Its own name is one of these if it is registered and flattening leaves it as it is. -/
theorem loadRemote_chooses {w : World} {url name : String} {body : ByteArray} {path : Path}
    (remote : Name.isUrl url = true) (last : IsLastName url name)
    (own : Staging.flatten name = name ∨ w.registry.contains name = false)
    (reply : w.network.reply url = .body body)
    (staged : (w.staging.stage w.tree url body).2.2 = .ok path) (schedule : Schedule)
    (r : Reference) :
    (∃ chosen exports, w.registry.Chooses (Staging.flatten url) chosen exports ∧
      (w.registry.contains name = true →
        chosen = name ∨ name.toList.length < chosen.toList.length) ∧
      w.loadRemote schedule r url = .ok [.native ⟨path, exports⟩]) ∨
    ((∀ other, w.registry.contains other = true →
        ¬ Registry.StandsFor (Staging.flatten url) other) ∧
      w.registry.contains name = false ∧
      w.loadRemote schedule r url =
        .error (r.failure (.code path (.unregistered (Staging.flatten url))))) ∨
    (w.staging.ReplacesLink w.tree url ∧
      w.loadRemote schedule r url = .error (r.failure (.code path (.io .notDirectory)))) := by
  have stands (known : w.registry.contains name = true) :
      Registry.StandsFor (Staging.flatten url) name := by
    have plain : Staging.flatten name = name := own.resolve_right (by simp [known])
    have ends := Staging.endsInName_flatten last.1
    rw [plain] at ends
    exact Or.inr ⟨Staging.isStagedName_flatten remote, ends⟩
  obtain ⟨exports, found, loaded⟩ | ⟨none, loaded⟩ | cut :=
    loadRemote_staged reply staged schedule r
  · obtain ⟨chosen, chooses⟩ := Registry.lookup_eq_some_iff.1 found
    refine Or.inl ⟨chosen, exports, chooses, fun known => ?_, loaded⟩
    cases Nat.eq_or_lt_of_le (chooses.longest name known (stands known)) with
    | inl same => exact Or.inl (chooses.stands.eq_of_length_eq (stands known) same.symm)
    | inr shorter => exact Or.inr shorter
  · have unmatched := Registry.lookup_eq_none_iff.1 none
    refine Or.inr (Or.inl ⟨unmatched, ?_, loaded⟩)
    cases known : w.registry.contains name with
    | false => rfl
    | true => exact absurd (stands known) (unmatched name known)
  · exact Or.inr (Or.inr cut)

/-- Nothing is on the disk, and the network has one file. -/
def serving (url : String) (registry : Registry) : World :=
  ⟨FileTree.empty, ⟨Path.ofString "/stage", []⟩,
    Network.empty.set url (.body "export default 1".toUTF8), registry⟩

def onePlugin : Registry := Registry.empty.register "plugin.js" ⟨"plugin", []⟩

theorem loadRemote_chooses_plugin :
    (serving "https://h/plugin.js" onePlugin).loadRemote ⟨[], []⟩ ⟨"https://h/plugin.js", none, 1⟩
        "https://h/plugin.js" =
      .ok [.native ⟨Path.ofString "/stage/https___h_plugin.js", ⟨"plugin", []⟩⟩] := by
  obtain ⟨chosen, exports, chooses, _, loaded⟩ | ⟨_, absent, _⟩ | ⟨_, cut⟩ :=
    @loadRemote_chooses (serving "https://h/plugin.js" onePlugin) "https://h/plugin.js"
      "plugin.js" "export default 1".toUTF8 (Path.ofString "/stage/https___h_plugin.js") (by decide)
      ⟨by decide, by decide⟩ (Or.inl (by decide)) rfl (by decide +kernel) ⟨[], []⟩
      ⟨"https://h/plugin.js", none, 1⟩
  · have plugins : onePlugin.plugins = [("plugin.js", ⟨"plugin", []⟩)] := rfl
    have known := Registry.mem_plugins_iff.2 chooses.registered
    rw [show (serving "https://h/plugin.js" onePlugin).registry = onePlugin from rfl, plugins,
      List.mem_singleton] at known
    cases known
    exact loaded
  · exact absurd absent (by decide)
  · have loads : ((serving "https://h/plugin.js" onePlugin).loadRemote ⟨[], []⟩
        ⟨"https://h/plugin.js", none, 1⟩ "https://h/plugin.js").isOk = true := by decide +kernel
    rw [cut] at loads
    cases loads

def twoPlugins : Registry := onePlugin.register "my_plugin.js" ⟨"my plugin", []⟩

/-- The staging directory is reached through a link where the file is going to be. -/
def looped : World where
  tree := FileTree.looped "http___h_plugin.js"
  staging := ⟨Path.ofString "/d/http___h_plugin.js/..", []⟩
  network := Network.empty.set "http://h/plugin.js" (.body "export default 1".toUTF8)
  registry := onePlugin

/-- A module that is not registered is given the exports of another, whose name its own ends in. One
that is registered is given the exports of another, whose name ends in its own, or it is staged and
then not found. -/
theorem loadRemote_lookalikes :
    (IsLastName "https://h/my_plugin.js" "my_plugin.js" ∧
      onePlugin.contains "my_plugin.js" = false ∧
      (serving "https://h/my_plugin.js" onePlugin).loadRemote ⟨[], []⟩
          ⟨"https://h/my_plugin.js", none, 1⟩ "https://h/my_plugin.js" =
        .ok [.native ⟨Path.ofString "/stage/https___h_my_plugin.js", ⟨"plugin", []⟩⟩]) ∧
    (IsLastName "https://h/my/plugin.js" "plugin.js" ∧
      twoPlugins.plugins.lookup "plugin.js" = some ⟨"plugin", []⟩ ∧
      (serving "https://h/my/plugin.js" twoPlugins).loadRemote ⟨[], []⟩
          ⟨"https://h/my/plugin.js", none, 1⟩ "https://h/my/plugin.js" =
        .ok [.native ⟨Path.ofString "/stage/https___h_my_plugin.js", ⟨"my plugin", []⟩⟩]) ∧
    (IsLastName "http://h/plugin.js" "plugin.js" ∧
      looped.registry.contains "plugin.js" = true ∧
      looped.loadRemote ⟨[], []⟩ ⟨"http://h/plugin.js", none, 1⟩ "http://h/plugin.js" =
        .error ⟨.code (Path.ofString "/d/http___h_plugin.js/../http___h_plugin.js")
          (.io .notDirectory), none, 1⟩) := by
  refine ⟨⟨⟨?_, ?_⟩, ?_, ?_⟩, ⟨⟨?_, ?_⟩, ?_, ?_⟩, ⟨⟨?_, ?_⟩, ?_, ?_⟩⟩
  all_goals decide +kernel

end World

end ScriptImports
