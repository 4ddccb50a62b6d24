import ScriptImports.Proofs.Underway

/-!
Staging at one go. A body either comes to its file, and nothing else has changed, or nothing has
changed at all, but for directories on the way to the staging directory. Of stagings one after the
other, the last one that went to a file is the one that is found there; URLs that differ only in
characters which are flattened share a file. The path of a staged file leads to it, unless the file
stands in its own way.
-/
namespace ScriptImports

open FileTree

/-- A staging that nothing comes between does all of its actions, or fails in one of them. -/
theorem Staging.stage_underway {s : Staging} {base t : FileTree}
    {left : List (Temporary × ByteArray)} {moved : List Download}
    (underway : Underway base s.directory [] left moved t) (url : String) (body : ByteArray) :
    (∃ t', s.stage t url body = (s.record url, t', .ok (s.target url)) ∧
      Underway base s.directory [] left (⟨url, body⟩ :: moved) t') ∨
    (∃ t' fault left', s.stage t url body = (s, t', .error fault) ∧
      Underway base s.directory [] left' moved t') := by
  have begun : Underway base s.directory [⟨url, body, .begun⟩] left moved t := underway.enter rfl
  cases makes : t.makeDirectories s.directory with
  | mk t₁ made =>
  cases made with
  | error fault =>
      have fails : StagedWrite.Fails s t ⟨url, body, .begun⟩ t₁ fault := .unmade makes
      obtain ⟨left', after⟩ := fails.underway begun
      exact Or.inr ⟨t₁, fault, left', by simp only [stage, makes], after⟩
  | ok _ =>
  have made := (StagedWrite.Goes.makes makes).underway begun
  cases opens : t₁.makeTemporary s.directory with
  | error fault =>
      have fails : StagedWrite.Fails s t₁ ⟨url, body, .directoryMade⟩ t₁ fault := .unopened opens
      obtain ⟨left', after⟩ := fails.underway made
      exact Or.inr ⟨t₁, fault, left', by simp only [stage, makes, opens], after⟩
  | ok opened =>
  obtain ⟨t₂, temporary⟩ := opened
  have opened := (StagedWrite.Goes.opens opens).underway made
  cases fills : t₂.fill temporary.place body with
  | mk t₃ filled =>
  cases filled with
  | error fault =>
      have fails : StagedWrite.Fails s t₂ ⟨url, body, .opened temporary⟩
          (t₃.unlink temporary.path) fault := .unwritten fills
      obtain ⟨left', after⟩ := fails.underway opened
      exact Or.inr ⟨_, fault, left', by simp only [stage, makes, opens, write_broken fills], after⟩
  | ok _ =>
  have written := (StagedWrite.Goes.writes fills).underway opened
  cases moves : t₃.moveFile temporary.path (s.target url) with
  | error fault =>
      have fails : StagedWrite.Fails s t₃ ⟨url, body, .written temporary⟩
          (t₃.unlink temporary.path) fault := .unmoved moves
      obtain ⟨left', after⟩ := fails.underway written
      refine Or.inr ⟨_, fault, left', ?_, after⟩
      simp only [stage, makes, opens, write_filled fills, install_unmoved moves]
  | ok t₄ =>
      have arrived := ((StagedWrite.Goes.moves moves).underway written).leave rfl
      refine Or.inl ⟨t₄, ?_, arrived⟩
      simp only [stage, makes, opens, write_filled fills, install_moved moves]

/-- A staging that succeeds starts from the directories that it makes. -/
theorem Staging.staged_of_stage {s s' : Staging} {t t' : FileTree} {url : String}
    {body : ByteArray} {path : Path} (h : s.stage t url body = (s', t', .ok path)) :
    ∃ d, Staged (t.makeDirectories s.directory).1 s.directory d [] [⟨url, body⟩] t' := by
  obtain ⟨_, _, made, opened, filled, temporary, makes, opens, fills, moves⟩ := stage_eq_ok h
  obtain ⟨d, leads⟩ := makeDirectories_eq_ok makes
  cases fill_eq_ok fills
  obtain ⟨_, begun⟩ := (Staged.start leads).begins opens
  obtain ⟨_, arrived⟩ := (begun.writes body).arrives (c := ⟨url, body⟩) moves
  rw [makes]
  exact ⟨d, arrived⟩

/-- A link in the directory `/d`, which the path `/d/<name>/..` goes through to come to `/d`. -/
def FileTree.looped (name : String) : FileTree :=
  (FileTree.empty.write (Path.ofString "/d/sub") .directory).write
    ((Path.ofString "/d").child name) (.link (Path.ofString "sub"))

/-- Where a staging succeeds, the body stands at the path that it gives. -/
def Staging.Delivers (s : Staging) (t : FileTree) (url : String) (body : ByteArray) : Prop :=
  ∀ path, (s.stage t url body).2.2 = .ok path →
    ∃ place, (s.stage t url body).2.1.find false path = .ok (.entry place (.file body))

/-- The file that is staged replaces a link that the way to it went through. -/
theorem Staging.stage_not_delivers :
    ¬ Delivers ⟨Path.ofString "/d/http___l/..", []⟩ (looped "http___l") "http://l"
      "one".toUTF8 := by
  intro delivers
  have succeeds : (stage ⟨Path.ofString "/d/http___l/..", []⟩ (looped "http___l") "http://l"
      "one".toUTF8).2.2 = .ok (Path.ofString "/d/http___l/../http___l") := by decide +kernel
  have gone : (stage ⟨Path.ofString "/d/http___l/..", []⟩ (looped "http___l") "http://l"
      "one".toUTF8).2.1.find false (Path.ofString "/d/http___l/../http___l") =
        .error .notDirectory := by decide +kernel
  obtain ⟨place, found⟩ := delivers _ succeeds
  rw [gone] at found
  cases found

/-- After a success the entry in the staging directory is a file with the body, whatever file or link
was there before, and nothing else is changed; the path of the URL leads to that file, unless it has
replaced a link that the way to the staging directory goes through. A failure, in whatever action,
changes nothing. In both cases directories may have been made where the staging path and the paths
above it lead. -/
theorem Staging.stage_atomic (s : Staging) (t : FileTree) (url : String) (body : ByteArray) :
    ∃ made, Paved s.directory.ancestors t made ∧
      match s.stage t url body with
      | (s', t', .ok path) =>
        path = s.target url ∧ s'.directory = s.directory ∧
        (∀ other, s'.get? other = if other = url then some path else s.get? other) ∧
        ∃ d, made.directoryAt s.directory = .ok d ∧ t'.current = t.current ∧
          (∀ q, t'.node? q = if q = place d url then some (.file body) else made.node? q) ∧
          made.node? (place d url) ≠ some .directory ∧
          (t'.readBytes path = .ok body ∨
            (∃ target, t.node? (place d url) = some (.link target)) ∧
              place d url ∈ made.consulted (s.directory.join (Path.ofString ".")) ∧
              t'.readBytes path = .error .notDirectory)
      | (s', t', .error _) =>
        s' = s ∧ t'.current = t.current ∧ ∀ q, t'.node? q = made.node? q := by
  cases stage_underway (Underway.start t s.directory) url body with
  | inl succeeds =>
      obtain ⟨t', stages, underway⟩ := succeeds
      obtain ⟨_, none, _⟩ | ⟨made, d, paved, staged, _⟩ := underway.settled
      · cases none
      rw [stages]
      refine ⟨made, paved, rfl, rfl, get?_record s url, d, staged.leads,
        staged.current.trans paved.grows.current, fun q => ?_, ?_, ?_⟩
      · rw [staged.rest q List.not_mem_nil]
        split
        · next here => rw [here, nodeAfter_cons_self ⟨url, body⟩]
        · next other => rw [nodeAfter_cons_of_ne (c := ⟨url, body⟩) other, nodeAfter_nil]
      · exact staged.replaces ⟨url, body⟩ List.mem_cons_self
      · rcases staged.leads_or_cut with leads | ⟨cut, c, hc, goal, link⟩
        · refine Or.inl (staged.readBytes (c := ⟨url, body⟩) leads ?_)
          rw [List.find?_cons_of_pos (by simp)]
        · rw [List.mem_singleton.1 hc] at link
          refine Or.inr ⟨⟨goal, paved.grows.link link⟩, ?_, ?_⟩
          · obtain ⟨c, hc, consulted⟩ := staged.consulted_of_cut cut
            rwa [List.mem_singleton.1 hc] at consulted
          · have admits := staged.admits ⟨url, body⟩ List.mem_cons_self
            rw [FileTree.readBytes, lookAt, target, find_child_of_error admits cut]
  | inr fails =>
      obtain ⟨t', fault, left, stages, underway⟩ := fails
      rw [stages]
      rcases underway.settled with ⟨_, _, paved⟩ | ⟨made, d, paved, staged, cut⟩
      · exact ⟨t', paved, rfl, paved.grows.current, fun _ => rfl⟩
      · have leads : t'.directoryAt s.directory = .ok d := by
          rcases staged.leads_or_cut with leads | ⟨_, c, hc, _⟩
          · exact leads
          · cases hc
        rw [Staged.left_eq_nil cut leads] at staged
        refine ⟨made, paved, rfl, staged.current.trans paved.grows.current, fun q => ?_⟩
        rw [staged.rest q List.not_mem_nil, nodeAfter_nil]

/-! Stagings one after the other. -/

theorem Staging.mem_insertEntry {url : String} {path : Path} {entries : List (String × Path)}
    {e : String × Path} (he : e ∈ insertEntry url path entries) : e = (url, path) ∨ e ∈ entries := by
  induction entries with
  | nil => exact Or.inl (List.mem_singleton.1 he)
  | cons first entries ih =>
      rw [insertEntry] at he
      split at he
      · exact (List.mem_cons.1 he).imp_right (List.mem_cons_of_mem first)
      · split at he
        · exact List.mem_cons.1 he
        · cases List.mem_cons.1 he with
          | inl same => exact Or.inr (same ▸ List.mem_cons_self)
          | inr he => exact (ih he).imp_right (List.mem_cons_of_mem first)

/-- A staging area with its tree, and the downloads that were staged in it, the last one first. -/
structure StagingHistory where
  staging : Staging
  tree : FileTree
  staged : List Download

namespace StagingHistory

def stage (h : StagingHistory) (c : Download) : StagingHistory :=
  match h.staging.stage h.tree c.url c.body with
  | (staging, tree, .ok _) => ⟨staging, tree, c :: h.staged⟩
  | (staging, tree, .error _) => ⟨staging, tree, h.staged⟩

/-- Stages downloads one after the other, from a staging area without entries. -/
def run (directory : Path) (t : FileTree) (downloads : List Download) : StagingHistory :=
  downloads.foldl stage ⟨⟨directory, []⟩, t, []⟩

/-- The entries are those of the downloads that were staged. -/
structure Tracks (area : Path) (t : FileTree) (h : StagingHistory) : Prop where
  directory : h.staging.directory = area
  underway : ∃ left, Underway t area [] left h.staged h.tree
  entry (e : String × Path) : e ∈ h.staging.entries →
    e.2 = area.child (Staging.flatten e.1) ∧ ∃ c ∈ h.staged, c.url = e.1
  known (c : Download) : c ∈ h.staged →
    h.staging.get? c.url = some (area.child (Staging.flatten c.url))

theorem Tracks.stage {area : Path} {t : FileTree} {h : StagingHistory} (tracks : Tracks area t h)
    (c : Download) : Tracks area t (h.stage c) := by
  obtain ⟨⟨_, entries⟩, tree, staged⟩ := h
  obtain ⟨rfl, ⟨left, underway⟩, entry, known⟩ := tracks
  rw [StagingHistory.stage]
  rcases Staging.stage_underway underway c.url c.body with
    ⟨t', stages, underway'⟩ | ⟨t', fault, left', stages, underway'⟩
  · dsimp only
    rw [stages]
    refine ⟨rfl, ⟨left, underway'⟩, fun e he => ?_, fun c' hc' => ?_⟩
    · rcases Staging.mem_insertEntry he with same | he
      · rw [same]
        dsimp only [Staging.target]
        exact ⟨rfl, c, List.mem_cons_self, rfl⟩
      · obtain ⟨path, c', hc', same⟩ := entry e he
        exact ⟨path, c', List.mem_cons_of_mem c hc', same⟩
    · dsimp only
      rw [Staging.get?_record]
      split
      · next same => rw [same, Staging.target]
      · next other =>
          cases List.mem_cons.1 hc' with
          | inl same => exact absurd (congrArg Download.url same) other
          | inr hc' => exact known c' hc'
  · dsimp only
    rw [stages]
    exact ⟨rfl, ⟨left', underway'⟩, entry, known⟩

theorem run_tracks (area : Path) (t : FileTree) (downloads : List Download) :
    Tracks area t (run area t downloads) := by
  have onward : ∀ h, Tracks area t h → Tracks area t (downloads.foldl stage h) := by
    induction downloads with
    | nil => exact fun _ tracks => tracks
    | cons c downloads ih => exact fun h tracks => ih _ (tracks.stage c)
  exact onward _ ⟨rfl, ⟨[], Underway.start t area⟩, nofun, nofun⟩

/-- Every entry's path leads to the body that was staged last for the URL of the entry. -/
def Faithful (h : StagingHistory) : Prop :=
  ∀ e ∈ h.staging.entries, ∃ c, h.staged.find? (fun c => c.url = e.1) = some c ∧
    h.tree.readBytes e.2 = .ok c.body

theorem not_faithful {h : StagingHistory} {e : String × Path} {c : Download}
    (he : e ∈ h.staging.entries) (last : h.staged.find? (fun c => c.url = e.1) = some c)
    (other : (h.tree.readBytes e.2).toOption ≠ some c.body) : ¬ h.Faithful := by
  intro faithful
  obtain ⟨c', last', read⟩ := faithful e he
  rw [last] at last'
  cases last'
  exact other (by rw [read]; rfl)

/-- Two URLs that flatten to one name. -/
def lookalikes : List Download :=
  [⟨"https://h/a-b", "one".toUTF8⟩, ⟨"https://h/a_b", "two".toUTF8⟩]

/-- The file of one URL is overwritten by another's, and a path is cut by the file that is staged
at its own link. -/
theorem run_not_faithful :
    ¬ (run (Path.ofString "/stage") FileTree.empty lookalikes).Faithful ∧
      ¬ (run (Path.ofString "/d/http___l/..") (looped "http___l")
        [⟨"http://l", "one".toUTF8⟩]).Faithful := by
  constructor
  · apply not_faithful (e := ("https://h/a-b", Path.ofString "/stage/https___h_a_b"))
      (c := ⟨"https://h/a-b", "one".toUTF8⟩)
    · decide +kernel
    · decide +kernel
    · decide +kernel
  · apply not_faithful (e := ("http://l", Path.ofString "/d/http___l/../http___l"))
      (c := ⟨"http://l", "one".toUTF8⟩)
    · decide +kernel
    · decide +kernel
    · decide +kernel

/-- Whatever was staged, every entry names a file of the staging directory that has the body staged
last for the URL or for one that flattens to the same name. The entry's path leads to that file,
unless a file was staged at a link that the way to the directory went through. -/
theorem run_coherent (area : Path) (t : FileTree) (downloads : List Download) :
    let h := run area t downloads
    (∀ c ∈ h.staged, h.staging.get? c.url = some (h.staging.target c.url)) ∧
    ∃ made, Paved area.ancestors t made ∧
      ∀ e ∈ h.staging.entries, e.2 = h.staging.target e.1 ∧
        ∃ d c, made.directoryAt area = .ok d ∧
          h.staged.find? (fun c => Staging.flatten e.1 = Staging.flatten c.url) = some c ∧
          h.tree.node? (Staging.place d e.1) = some (.file c.body) ∧
          (h.tree.readBytes e.2 = .ok c.body ∨
            h.tree.directoryAt area = .error .notDirectory ∧
              ∃ c ∈ h.staged, ∃ target, t.node? (Staging.place d c.url) = some (.link target)) := by
  intro h
  obtain ⟨directory, ⟨left, underway⟩, entry, known⟩ := run_tracks area t downloads
  have target (url : String) : h.staging.target url = area.child (Staging.flatten url) := by
    rw [Staging.target, directory]
  refine ⟨fun c hc => by rw [target]; exact known c hc, ?_⟩
  rcases underway.settled with ⟨_, none, paved⟩ | ⟨made, d, paved, staged, _⟩
  · refine ⟨_, paved, fun e he => ?_⟩
    obtain ⟨_, c, hc, _⟩ := entry e he
    rw [none] at hc
    cases hc
  · refine ⟨made, paved, fun e he => ?_⟩
    obtain ⟨path, c', hc', same⟩ := entry e he
    obtain ⟨c, last, file⟩ := staged.last hc' (congrArg Staging.flatten same.symm)
    refine ⟨by rw [path, target], d, c, staged.leads, last, file, ?_⟩
    rcases staged.leads_or_cut with leads | ⟨cut, c, hc, goal, link⟩
    · exact Or.inl (by rw [path]; exact staged.readBytes leads last)
    · exact Or.inr ⟨cut, c, hc, goal, paved.grows.link link⟩

end StagingHistory

end ScriptImports
