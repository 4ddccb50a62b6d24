import ScriptImports.Proofs.Certificate
import ScriptImports.Proofs.Registered

/-!
Remote modules from their names to their files. A reference is remote if its name is a URL, and is
then found at that URL without a probe. Whatever else the URL holds, the file that it is staged to is
one ordinary name in the staging directory, and the registry takes it for that of a staged file.
-/
namespace ScriptImports

open ScriptImports.Path

namespace Resolution

variable {s : Settings} {t : FileTree} {r : Reference}

/-- A URL is where it says, for a script as for a native module. -/
theorem resolve_url (url : Name.isUrl r.name = true) :
    resolve s t r =
      .ok ⟨⟨Name.kind s.nativeExtensions s.scriptExtensions r.name, .url r.name⟩, []⟩ := by
  cases kind : Name.kind s.nativeExtensions s.scriptExtensions r.name with
  | script =>
      rw [resolve, kind, scriptLocation?, if_pos url]
  | native =>
      rw [resolve_native kind, if_pos url, Search.candidates_url url, Search.rows]

theorem isUrl_of_resolve {kind : ModuleKind} {url : String} {trace : ProbeLog}
    (h : resolve s t r = .ok ⟨⟨kind, .url url⟩, trace⟩) : Name.isUrl r.name = true := by
  cases remote : Name.isUrl r.name with
  | true => rfl
  | false =>
      cases kind : Name.kind s.nativeExtensions s.scriptExtensions r.name with
      | script =>
          rw [resolve, kind, scriptLocation?, remote] at h
          cases rooted : (Path.ofString r.name).isRooted <;> cases file : r.file <;>
            simp [rooted, file] at h
      | native =>
          rw [resolve_native kind, remote] at h
          cases found : Search.found s t (Search.candidates s r.name r.file) <;> simp [found] at h

end Resolution

theorem Registry.length_of_isStagedName {fileName : String} (staged : isStagedName fileName = true) :
    7 ≤ fileName.toList.length := by
  rw [isStagedName, Bool.or_eq_true, List.isPrefixOf_iff_prefix, List.isPrefixOf_iff_prefix] at staged
  cases staged with
  | inl http => exact http.length_le
  | inr https => exact Nat.le_of_succ_le https.length_le

namespace Staging

/-- The characters that are left in a flattened URL. -/
def IsFlat (c : Char) : Prop :=
  'A' ≤ c ∧ c ≤ 'Z' ∨ 'a' ≤ c ∧ c ≤ 'z' ∨ '0' ≤ c ∧ c ≤ '9' ∨ c = '_' ∨ c = '.'

theorem isPlain_iff {c : Char} : isPlain c = true ↔ IsFlat c := by
  have upper : c.isUpper = true ↔ 'A' ≤ c ∧ c ≤ 'Z' := decide_eq_true_iff
  have letter : c.isAlpha = true ↔ c.isUpper = true ∨ c.isLower = true := Bool.or_eq_true_iff
  simp only [isPlain, Char.isAlphanum, IsFlat, Bool.or_eq_true, letter, upper,
    Name.isLower_iff, Name.isDigit_iff, beq_iff_eq, or_assoc]

theorem isFlat_of_mem_flatten {url : String} : ∀ c ∈ (flatten url).toList, IsFlat c := by
  intro c hc
  rw [toList_flatten] at hc
  obtain ⟨c', _, rfl⟩ := List.mem_map.1 hc
  rw [← isPlain_iff]
  split
  · next plain => exact plain
  · rfl

theorem length_flatten (url : String) : (flatten url).toList.length = url.toList.length := by
  rw [toList_flatten, List.length_map]

/-- Flattening leaves a name alone that holds no other characters. -/
theorem flatten_eq_self {name : String} (flat : ∀ c ∈ name.toList, IsFlat c) :
    flatten name = name := by
  rw [← String.toList_inj, toList_flatten]
  have kept : ∀ c ∈ name.toList, (if isPlain c then c else '_') = id c :=
    fun c hc => if_pos (isPlain_iff.2 (flat c hc))
  rw [List.map_congr_left kept, List.map_id]

theorem isOrdinary_flatten {url : String} (remote : Name.isUrl url = true) :
    IsOrdinary (.ofString (flatten url)) := by
  have long := Registry.length_of_isStagedName (isStagedName_flatten remote)
  have other {s : Segment} (short : s.length < 7) : PathText.ofString (flatten url) ≠ s := by
    rintro rfl
    rw [PathText.ofString, List.length_map] at short
    exact absurd long (Nat.not_le.2 short)
  have plain := mt (PathText.char_mem_ofString _ _).1 (slash_not_mem_flatten url)
  exact ⟨⟨other (by decide), other (by decide), plain⟩, other (by decide)⟩

/-- The file of a URL is `name` in the staging directory, one ordinary segment that is as long as the
URL, that is left alone when it is flattened again, and that the registry takes for a staged file. -/
structure StagesAs (staging : Staging) (url name : String) : Prop where
  target : staging.target url = staging.directory.child name
  isRooted : (staging.target url).isRooted = staging.directory.isRooted
  segments : (staging.target url).segments = staging.directory.segments ++ [.ofString name]
  fileName : (staging.target url).fileName? = some (.ofString name)
  ordinary : IsOrdinary (.ofString name)
  flat : ∀ c ∈ name.toList, IsFlat c
  length : name.toList.length = url.toList.length
  fixed : flatten name = name
  staged : Registry.isStagedName name = true

theorem stagesAs_flatten (staging : Staging) {url : String} (remote : Name.isUrl url = true) :
    staging.StagesAs url (flatten url) := by
  have ordinary := isOrdinary_flatten remote
  exact {
    target := rfl
    isRooted := isRooted_child _ (slash_not_mem_flatten url)
    segments := segments_child _ ordinary.1
    fileName := fileName?_child _ ordinary.1 ordinary.2
    ordinary := ordinary
    flat := isFlat_of_mem_flatten
    length := length_flatten url
    fixed := flatten_eq_self isFlat_of_mem_flatten
    staged := isStagedName_flatten remote }

end Staging

namespace Resolution

/-- A reference is found at a URL exactly if its name is one; it is found at that URL, and nothing is
probed. In every staging directory such a URL has a file of its own name. -/
theorem resolve_remote (s : Settings) (t : FileTree) (r : Reference) :
    ((∃ kind url trace, resolve s t r = .ok ⟨⟨kind, .url url⟩, trace⟩) ↔
      Name.isUrl r.name = true) ∧
    (∀ kind url trace, resolve s t r = .ok ⟨⟨kind, .url url⟩, trace⟩ →
      (Location.url url).text = r.name ∧ trace = []) ∧
    (Name.isUrl r.name = true →
      ∀ staging : Staging, staging.StagesAs r.name (Staging.flatten r.name)) := by
  refine ⟨⟨?_, ?_⟩, ?_, ?_⟩
  · rintro ⟨kind, url, trace, h⟩
    exact isUrl_of_resolve h
  · intro remote
    exact ⟨_, _, _, resolve_url remote⟩
  · intro kind url trace h
    rw [resolve_url (isUrl_of_resolve h)] at h
    cases h
    exact ⟨rfl, rfl⟩
  · exact fun remote staging => staging.stagesAs_flatten remote

/-- A URL that would lead out of the directory if it were read as a path. -/
theorem resolve_remote_upward :
    (∃ kind url trace, resolve (Settings.default fun _ => none) .empty
      ⟨"http://../../é/plugin.mjs?v=../2", none, 1⟩ = .ok ⟨⟨kind, .url url⟩, trace⟩) ∧
    (⟨Path.ofString "../stage/..", []⟩ : Staging).StagesAs "http://../../é/plugin.mjs?v=../2"
      "http___.._..___plugin.mjs_v_.._2" := by
  obtain ⟨remote, _, stages⟩ := resolve_remote (Settings.default fun _ => none) .empty
    ⟨"http://../../é/plugin.mjs?v=../2", none, 1⟩
  exact ⟨remote.2 (by decide), stages (by decide) ⟨Path.ofString "../stage/..", []⟩⟩

end Resolution

end ScriptImports
