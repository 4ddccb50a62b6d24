import ScriptImports.Proofs.Area

/-!
The tree while stagings are under way, known entry by entry. It is the tree in which the staging
directory was made, but for the files that the stagings have open, each a file of one staging only,
the targets that complete bodies were moved to, and temporary files that were left: a temporary file
is removed by its path, which leads nowhere when the way to the directory has been cut. Every action
of every staging keeps this, also one that fails, and one of a staging that nobody waits for.
-/
namespace ScriptImports

open FileTree

/-- A fetched body with the URL that it came from. -/
structure Download where
  url : String
  body : ByteArray
deriving DecidableEq

namespace Staging

/-- Where the file of a URL stands in the staging directory. -/
def place (directory : Place) (url : String) : Place := directory ++ [.ofString (flatten url)]

theorem place_ne_nil (directory : Place) (url : String) : place directory url ≠ [] := by
  simp [place]

/-- URLs share a file if they flatten to the same name. -/
theorem place_inj {directory : Place} {url other : String} :
    place directory url = place directory other ↔ flatten url = flatten other := by
  simp [place, PathText.ofString_inj]

end Staging

namespace FileTree

/-- What stands at a place when downloads have been moved into a directory of `t`, the last one first
in the list. -/
def nodeAfter (t : FileTree) (directory : Place) (moved : List Download) (q : Place) : Option Node :=
  match moved.find? fun c => q = Staging.place directory c.url with
  | some c => some (.file c.body)
  | none => t.node? q

section

variable {t : FileTree} {d : Place} {moved : List Download} {q : Place}

@[simp] theorem nodeAfter_nil : t.nodeAfter d [] q = t.node? q := rfl

theorem nodeAfter_cons_self (c : Download) :
    t.nodeAfter d (c :: moved) (Staging.place d c.url) = some (.file c.body) := by
  rw [nodeAfter, List.find?_cons_of_pos (by simp)]

theorem nodeAfter_cons_of_ne {c : Download} (other : q ≠ Staging.place d c.url) :
    t.nodeAfter d (c :: moved) q = t.nodeAfter d moved q := by
  rw [nodeAfter, List.find?_cons_of_neg (by simpa using other), nodeAfter]

theorem nodeAfter_eq_file {c : Download}
    (last : (moved.find? fun c => q = Staging.place d c.url) = some c) :
    t.nodeAfter d moved q = some (.file c.body) := by
  rw [nodeAfter, last]

theorem nodeAfter_cases (t : FileTree) (d : Place) (moved : List Download) (q : Place) :
    (t.nodeAfter d moved q = t.node? q ∧ ∀ c ∈ moved, q ≠ Staging.place d c.url) ∨
      ∃ c ∈ moved, q = Staging.place d c.url ∧ t.nodeAfter d moved q = some (.file c.body) := by
  cases last : moved.find? fun c => q = Staging.place d c.url with
  | none =>
      refine Or.inl ⟨by rw [nodeAfter, last], fun c hc here => ?_⟩
      exact absurd (List.find?_eq_none.1 last c hc) (by simp [here])
  | some c =>
      refine Or.inr ⟨c, List.mem_of_find?_eq_some last, ?_, nodeAfter_eq_file last⟩
      simpa using List.find?_some last

end

/-- A temporary file at a place that was free. -/
def IsTemporary (t : FileTree) (area : Path) (d : Place) (f : Temporary) : Prop :=
  (∃ name, f.Named area d name) ∧ t.node? f.place = none

section

variable {t : FileTree} {area : Path} {d : Place} {f : Temporary}

theorem IsTemporary.ne_place (temporary : t.IsTemporary area d f) (url : String) :
    f.place ≠ Staging.place d url := by
  obtain ⟨⟨name, named⟩, _⟩ := temporary
  rw [named.place, Staging.place]
  intro same
  rw [List.append_cancel_left_eq, List.cons.injEq, PathText.ofString_inj] at same
  exact Staging.not_mem_flatten (by decide) (by decide) url (same.1 ▸ named.tilde)

theorem IsTemporary.ne_nil (temporary : t.IsTemporary area d f) : f.place ≠ [] := by
  obtain ⟨⟨name, named⟩, _⟩ := temporary
  simp [named.place]

theorem IsTemporary.nodeAfter (temporary : t.IsTemporary area d f) (moved : List Download) :
    t.nodeAfter d moved f.place = none := by
  rcases t.nodeAfter_cases d moved f.place with ⟨same, _⟩ | ⟨c, _, here, _⟩
  · rw [same, temporary.2]
  · exact absurd here (temporary.ne_place c.url)

end

/-- `t` is `made`, in which `area` leads to the directory `d`, with the temporary files `files` and
the downloads `moved` at their targets. No directory had to give way to them. -/
structure Staged (made : FileTree) (area : Path) (d : Place)
    (files : List (Temporary × ByteArray)) (moved : List Download) (t : FileTree) : Prop where
  leads : made.directoryAt area = .ok d
  current : t.current = made.current
  temporary (f : Temporary × ByteArray) :
    f ∈ files → made.IsTemporary area d f.1 ∧ t.node? f.1.place = some (.file f.2)
  distinct : (files.map fun f => f.1.place).Nodup
  rest (q : Place) : q ∉ files.map (fun f => f.1.place) → t.node? q = made.nodeAfter d moved q
  admits (c : Download) : c ∈ moved → Admits area (Staging.flatten c.url)
  replaces (c : Download) : c ∈ moved → made.node? (Staging.place d c.url) ≠ some .directory

namespace Staged

variable {made t : FileTree} {area : Path} {d : Place} {f : Temporary}
  {files others : List (Temporary × ByteArray)} {moved : List Download}

theorem start (leads : made.directoryAt area = .ok d) : Staged made area d [] [] made :=
  ⟨leads, rfl, nofun, List.nodup_nil, fun _ _ => rfl, nofun, nofun⟩

theorem perm (staged : Staged made area d files moved t) (same : files.Perm others) :
    Staged made area d others moved t := by
  have places := same.map fun f => f.1.place
  refine ⟨staged.leads, staged.current, fun f hf => ?_, ?_, fun q other => ?_, staged.admits,
    staged.replaces⟩
  · exact staged.temporary f (same.mem_iff.2 hf)
  · exact places.nodup_iff.1 staged.distinct
  · exact staged.rest q (mt places.mem_iff.1 other)

theorem target (staged : Staged made area d files moved t) (url : String) :
    t.node? (Staging.place d url) = made.nodeAfter d moved (Staging.place d url) := by
  apply staged.rest
  intro there
  obtain ⟨f, hf, same⟩ := List.mem_map.1 there
  exact (staged.temporary f hf).1.ne_place url same

/-- Only files stand where something else stood, so the way to the directory may have been cut but
leads nowhere else. -/
theorem kept (staged : Staged made area d files moved t) : Kept made area d t := by
  have overlays : Overlays made t := by
    refine ⟨staged.current, fun q => ?_⟩
    by_cases there : q ∈ files.map fun f => f.1.place
    · obtain ⟨f, hf, rfl⟩ := List.mem_map.1 there
      exact Or.inr ⟨_, (staged.temporary f hf).2⟩
    · rw [staged.rest q there]
      rcases made.nodeAfter_cases d moved q with ⟨same, _⟩ | ⟨c, _, _, file⟩
      · exact Or.inl same
      · exact Or.inr ⟨_, file⟩
  refine ⟨staged.current, fun q outside => ?_, ?_⟩
  · rw [staged.rest q]
    · rcases made.nodeAfter_cases d moved q with ⟨same, _⟩ | ⟨c, _, here, _⟩
      · exact same
      · exact absurd here (outside _)
    · intro there
      obtain ⟨f, hf, rfl⟩ := List.mem_map.1 there
      obtain ⟨⟨⟨name, named⟩, _⟩, _⟩ := staged.temporary f hf
      exact outside _ named.place
  · rw [← staged.leads]
    exact overlays.directoryAt area

/-- What was no file stands where it stood, as long as no link has given way to one. -/
theorem carries (staged : Staged made area d files moved t)
    (links : ∀ c ∈ moved, ∀ target, made.node? (Staging.place d c.url) ≠ some (.link target)) :
    Carries made t := by
  have stays {q : Place} {node : Node} (stands : made.node? q = some node)
      (given : ∀ c ∈ moved, made.node? (Staging.place d c.url) ≠ some node) :
      t.node? q = some node := by
    rw [staged.rest q]
    · rcases made.nodeAfter_cases d moved q with ⟨same, _⟩ | ⟨c, hc, rfl, _⟩
      · rw [same, stands]
      · exact absurd stands (given c hc)
    · intro there
      obtain ⟨f, hf, rfl⟩ := List.mem_map.1 there
      rw [(staged.temporary f hf).1.2] at stands
      cases stands
  exact ⟨staged.current, fun q stands => stays stands staged.replaces,
    fun q target stands => stays stands fun c hc => links c hc target⟩

/-- The way to the directory is there, or a link on it has given way to a file. -/
theorem leads_or_cut (staged : Staged made area d files moved t) :
    t.directoryAt area = .ok d ∨ t.directoryAt area = .error .notDirectory ∧
      ∃ c ∈ moved, ∃ target, made.node? (Staging.place d c.url) = some (.link target) := by
  refine staged.kept.leads.imp_right fun cut => ⟨cut, ?_⟩
  apply Classical.byContradiction
  intro links
  have leads : t.directoryAt area = .ok d := by
    apply (staged.carries _).directoryAt staged.leads
    intro c hc target link
    exact links ⟨c, hc, target, link⟩
  exact directoryAt_ne_error leads cut

/-- The way is cut at a target that it goes through. -/
theorem consulted_of_cut (staged : Staged made area d [] moved t)
    (cut : t.directoryAt area = .error .notDirectory) :
    ∃ c ∈ moved, Staging.place d c.url ∈ made.consulted (area.join (Path.ofString ".")) := by
  apply Classical.byContradiction
  intro apart
  have leads : t.directoryAt area = made.directoryAt area := by
    apply directoryAt_congr staged.current
    intro q consulted
    rw [staged.rest q List.not_mem_nil]
    rcases made.nodeAfter_cases d moved q with ⟨same, _⟩ | ⟨c, hc, rfl, _⟩
    · exact same
    · exact absurd ⟨c, hc, consulted⟩ apart
  exact directoryAt_ne_error (leads.trans staged.leads) cut

/-- No file is left as long as the way is there. -/
theorem left_eq_nil {left : List (Temporary × ByteArray)}
    (cut : left ≠ [] → t.directoryAt area = .error .notDirectory)
    (leads : t.directoryAt area = .ok d) : left = [] := by
  apply Classical.byContradiction
  exact fun some => directoryAt_ne_error leads (cut some)

/-- A temporary file is no other's. -/
theorem apart {content : ByteArray}
    (staged : Staged made area d ((f, content) :: files) moved t) :
    f.place ∉ files.map fun f => f.1.place :=
  (List.nodup_cons.1 staged.distinct).1

theorem discards {content : ByteArray}
    (staged : Staged made area d ((f, content) :: files) moved t) :
    Staged made area d files moved (t.erase f.place) := by
  obtain ⟨temporary, _⟩ := staged.temporary _ List.mem_cons_self
  refine ⟨staged.leads, staged.current, fun g hg => ?_, (List.nodup_cons.1 staged.distinct).2,
    fun r other => ?_, staged.admits, staged.replaces⟩
  · have differ : g.1.place ≠ f.place := fun same =>
      staged.apart (same ▸ List.mem_map_of_mem hg)
    rw [node?_erase_of_ne t differ]
    exact staged.temporary g (List.mem_cons_of_mem _ hg)
  · by_cases here : r = f.place
    · rw [here, node?_erase_self t temporary.ne_nil, temporary.nodeAfter]
    · rw [node?_erase_of_ne t here]
      apply staged.rest
      rw [List.map_cons, List.mem_cons, not_or]
      exact ⟨here, other⟩

/-- A temporary file has what was written to it last. -/
theorem puts (away : Staged made area d files moved (t.erase f.place))
    (temporary : made.IsTemporary area d f) (fresh : f.place ∉ files.map fun f => f.1.place)
    (content : ByteArray) :
    Staged made area d ((f, content) :: files) moved (t.put f.place (.file content)) := by
  refine ⟨away.leads, away.current, ?_, List.nodup_cons.2 ⟨fresh, away.distinct⟩,
    fun r other => ?_, away.admits, away.replaces⟩
  · rw [List.forall_mem_cons]
    refine ⟨⟨temporary, node?_put_self t _ temporary.ne_nil⟩, fun g hg => ?_⟩
    have differ : g.1.place ≠ f.place := fun same => fresh (same ▸ List.mem_map_of_mem hg)
    rw [node?_put_of_ne t _ differ, ← node?_erase_of_ne t differ]
    exact away.temporary g hg
  · rw [List.map_cons, List.mem_cons, not_or] at other
    rw [node?_put_of_ne t _ other.1, ← node?_erase_of_ne t other.1]
    exact away.rest r other.2

theorem opens (staged : Staged made area d files moved t) (named : ∃ name, f.Named area d name)
    (free : t.node? f.place = none) :
    Staged made area d ((f, .empty) :: files) moved (t.put f.place (.file .empty)) := by
  have fresh : f.place ∉ files.map fun f => f.1.place := by
    intro there
    obtain ⟨g, hg, same⟩ := List.mem_map.1 there
    rw [← same, (staged.temporary g hg).2] at free
    cases free
  have temporary : made.IsTemporary area d f := by
    refine ⟨named, ?_⟩
    rw [staged.rest _ fresh] at free
    rcases made.nodeAfter_cases d moved f.place with ⟨same, _⟩ | ⟨c, _, _, file⟩
    · rw [← same, free]
    · rw [file] at free
      cases free
  have same (r : Place) : (t.erase f.place).node? r = t.node? r := by
    cases t.node?_erase_cases f.place r with
    | inl same => exact same
    | inr gone => rw [gone.2, gone.1, free]
  have away : Staged made area d files moved (t.erase f.place) := by
    refine ⟨staged.leads, staged.current, fun g hg => ?_, staged.distinct, fun r other => ?_,
      staged.admits, staged.replaces⟩
    · rw [same]
      exact staged.temporary g hg
    · rw [same]
      exact staged.rest r other
  exact away.puts temporary fresh .empty

theorem writes {content : ByteArray}
    (staged : Staged made area d ((f, content) :: files) moved t) (body : ByteArray) :
    Staged made area d ((f, body) :: files) moved (t.put f.place (.file body)) :=
  staged.discards.puts (staged.temporary _ List.mem_cons_self).1 staged.apart body

/-- A temporary file is removed, or its path leads nowhere and it stays. -/
theorem unlinks {content : ByteArray}
    (staged : Staged made area d ((f, content) :: files) moved t) :
    (t.directoryAt area = .ok d ∧ Staged made area d files moved (t.unlink f.path)) ∨
      (t.directoryAt area = .error .notDirectory ∧ t.unlink f.path = t) := by
  obtain ⟨⟨⟨name, named⟩, _⟩, stands⟩ := staged.temporary _ List.mem_cons_self
  dsimp only at named stands
  refine staged.kept.leads.imp (fun leads => ⟨leads, ?_⟩) fun cut => ⟨cut, ?_⟩
  · have discards := staged.discards
    rw [named.place] at stands discards
    rw [named.path, unlink_child named.admits leads stands]
    exact discards
  · rw [named.path, unlink_child_of_error named.admits cut]

/-- A complete file comes to its target, which from then on has the body. -/
theorem moves {c : Download} (staged : Staged made area d ((f, c.body) :: files) moved t)
    (admits : Admits area (Staging.flatten c.url))
    (replaces : t.node? (Staging.place d c.url) ≠ some .directory) :
    Staged made area d files (c :: moved)
      ((t.erase f.place).put (Staging.place d c.url) (.file c.body)) := by
  have discarded := staged.discards
  -- what stands at the target is from `made`, or a body that came before
  have first : made.node? (Staging.place d c.url) ≠ some .directory := by
    rw [staged.target c.url] at replaces
    rcases made.nodeAfter_cases d moved (Staging.place d c.url) with
      ⟨same, _⟩ | ⟨before, hb, here, _⟩
    · rw [← same]
      exact replaces
    · rw [here]
      exact staged.replaces before hb
  refine ⟨staged.leads, staged.current, fun g hg => ?_, discarded.distinct, fun r other => ?_,
    List.forall_mem_cons.2 ⟨admits, staged.admits⟩,
    List.forall_mem_cons.2 ⟨first, staged.replaces⟩⟩
  · obtain ⟨temporary, stands⟩ := discarded.temporary g hg
    rw [node?_put_of_ne _ _ (temporary.ne_place c.url)]
    exact ⟨temporary, stands⟩
  · by_cases here : r = Staging.place d c.url
    · rw [here, node?_put_self _ _ (Staging.place_ne_nil d c.url), nodeAfter_cons_self]
    · rw [node?_put_of_ne _ _ here, nodeAfter_cons_of_ne here]
      exact discarded.rest r other

theorem begins {t' : FileTree} (staged : Staged made area d files moved t)
    (h : t.makeTemporary area = .ok (t', f)) :
    t.directoryAt area = .ok d ∧ Staged made area d ((f, .empty) :: files) moved t' := by
  obtain ⟨directory, name, leads, named, free, rfl⟩ := makeTemporary_eq_ok h
  cases staged.kept.directoryAt_eq leads
  exact ⟨leads, staged.opens ⟨name, named⟩ free⟩

theorem arrives {t' : FileTree} {c : Download}
    (staged : Staged made area d ((f, c.body) :: files) moved t)
    (h : t.moveFile f.path (area.child (Staging.flatten c.url)) = .ok t') :
    t.directoryAt area = .ok d ∧ Staged made area d files (c :: moved) t' := by
  obtain ⟨⟨⟨name, named⟩, _⟩, stands⟩ := staged.temporary _ List.mem_cons_self
  dsimp only at named stands
  rw [named.path] at h
  obtain ⟨admits, directory, node, leads, stood, replaces, rfl⟩ :=
    moveFile_child_eq_ok named.admits (Staging.slash_not_mem_flatten c.url) h
  cases staged.kept.directoryAt_eq leads
  rw [named.place, stood] at stands
  cases stands
  have moves := staged.moves admits replaces
  rw [named.place] at moves
  exact ⟨leads, moves⟩

/-- A target that anything was moved to has the body that came last. -/
theorem last {url : String} {c : Download} (staged : Staged made area d files moved t)
    (hc : c ∈ moved) (same : Staging.flatten url = Staging.flatten c.url) :
    ∃ last, moved.find? (fun c => Staging.flatten url = Staging.flatten c.url) = some last ∧
      t.node? (Staging.place d url) = some (.file last.body) := by
  have some : (moved.find? fun c => Staging.flatten url = Staging.flatten c.url).isSome := by
    rw [List.find?_isSome]
    exact ⟨c, hc, by simp [same]⟩
  obtain ⟨last, found⟩ := Option.isSome_iff_exists.1 some
  refine ⟨last, found, ?_⟩
  rw [staged.target]
  apply nodeAfter_eq_file
  simpa only [Staging.place_inj] using found

theorem readBytes {url : String} {c : Download} (staged : Staged made area d files moved t)
    (leads : t.directoryAt area = .ok d)
    (last : moved.find? (fun c => Staging.flatten url = Staging.flatten c.url) = some c) :
    t.readBytes (area.child (Staging.flatten url)) = .ok c.body := by
  have same : Staging.flatten url = Staging.flatten c.url := by simpa using List.find?_some last
  have admits : Admits area (Staging.flatten url) :=
    same ▸ staged.admits c (List.mem_of_find?_eq_some last)
  apply readBytes_child admits leads
  rw [← Staging.place, staged.target]
  apply nodeAfter_eq_file
  simpa only [Staging.place_inj] using last

end Staged

end FileTree

namespace StagedWrite

/-- The file that a staging has open, with what it holds. -/
def temporary? (w : StagedWrite) : Option (Temporary × ByteArray) :=
  match w.phase with
  | .opened temporary => some (temporary, .empty)
  | .written temporary => some (temporary, w.body)
  | .begun | .directoryMade | .moved => none

theorem files_opened (url : String) (body : ByteArray) (f : Temporary) (writes : List StagedWrite) :
    (⟨url, body, .opened f⟩ :: writes).filterMap temporary? =
      (f, .empty) :: writes.filterMap temporary? := rfl

theorem files_written (url : String) (body : ByteArray) (f : Temporary) (writes : List StagedWrite) :
    (⟨url, body, .written f⟩ :: writes).filterMap temporary? =
      (f, body) :: writes.filterMap temporary? := rfl

def download (w : StagedWrite) : Download := ⟨w.url, w.body⟩

/-- The downloads at their targets once a staging has come so far. -/
def addTo (w : StagedWrite) (moved : List Download) : List Download :=
  match w.phase with
  | .moved => w.download :: moved
  | .begun | .directoryMade | .opened _ | .written _ => moved

theorem mem_addTo {w : StagedWrite} {moved : List Download} {c : Download} :
    c ∈ w.addTo moved ↔ c ∈ moved ∨ w.phase = .moved ∧ c = w.download := by
  rw [addTo]
  split
  · next phase => simp [phase, or_comm]
  all_goals next phase => simp [phase]

end StagedWrite

/-- Stagings that started from `base` are under way, and the temporary files `left` are no longer any
staging's. Before the staging directory is there, none of them can have done anything but try to make
it, and files are left only when the way to it has been cut. -/
inductive Underway (base : FileTree) (area : Path) (writes : List StagedWrite)
    (left : List (Temporary × ByteArray)) (moved : List Download) (t : FileTree) : Prop
  | nowhere {fault : Fault} : Paved area.ancestors base t → t.directoryAt area = .error fault →
    (∀ w ∈ writes, w.phase = .begun) → left = [] → moved = [] →
      Underway base area writes left moved t
  | within {made : FileTree} {d : Place} : Paved area.ancestors base made →
    Staged made area d (writes.filterMap StagedWrite.temporary? ++ left) moved t →
      (left ≠ [] → t.directoryAt area = .error .notDirectory) →
        Underway base area writes left moved t

namespace Underway

variable {base t t' : FileTree} {area : Path} {w w' : StagedWrite} {writes others : List StagedWrite}
  {left : List (Temporary × ByteArray)} {moved : List Download}

theorem files_of_begun (begun : ∀ w ∈ writes, w.phase = .begun) :
    writes.filterMap StagedWrite.temporary? = [] := by
  rw [List.filterMap_eq_nil_iff]
  intro w hw
  rw [StagedWrite.temporary?, begun w hw]

theorem of_paved (paved : Paved area.ancestors base t) (begun : ∀ w ∈ writes, w.phase = .begun) :
    Underway base area writes [] [] t := by
  cases leads : t.directoryAt area with
  | error fault => exact .nowhere paved leads begun rfl rfl
  | ok d =>
      refine .within paved (d := d) ?_ nofun
      rw [files_of_begun begun]
      exact Staged.start leads

theorem start (base : FileTree) (area : Path) : Underway base area [] [] [] base :=
  of_paved (.refl _ base) nofun

theorem perm (underway : Underway base area writes left moved t) (same : writes.Perm others) :
    Underway base area others left moved t := by
  cases underway with
  | nowhere paved stops begun none bare =>
      exact .nowhere paved stops (fun w hw => begun w (same.mem_iff.2 hw)) none bare
  | within paved staged cut =>
      exact .within paved (staged.perm ((same.filterMap _).append_right left)) cut

/-- A staging that has no file open can come and go. -/
theorem enter (underway : Underway base area writes left moved t) (begun : w.phase = .begun) :
    Underway base area (w :: writes) left moved t := by
  cases underway with
  | nowhere paved stops all none bare =>
      refine .nowhere paved stops (fun v hv => ?_) none bare
      cases List.mem_cons.1 hv with
      | inl same => rw [same, begun]
      | inr hv => exact all v hv
  | within paved staged cut =>
      have closed : w.temporary? = none := by rw [StagedWrite.temporary?, begun]
      exact .within paved (by rwa [List.filterMap_cons_none closed]) cut

theorem leave (underway : Underway base area (w :: writes) left moved t)
    (closed : w.temporary? = none) : Underway base area writes left moved t := by
  cases underway with
  | nowhere paved stops all none bare =>
      exact .nowhere paved stops (fun v hv => all v (List.mem_cons_of_mem w hv)) none bare
  | within paved staged cut =>
      rw [List.filterMap_cons_none closed] at staged
      exact .within paved staged cut

/-- When no staging is under way any more, files are at their targets or left. -/
theorem settled (underway : Underway base area [] left moved t) :
    (left = [] ∧ moved = [] ∧ Paved area.ancestors base t) ∨
      ∃ made d, Paved area.ancestors base made ∧ Staged made area d left moved t ∧
        (left ≠ [] → t.directoryAt area = .error .notDirectory) := by
  cases underway with
  | nowhere paved _ _ none bare => exact Or.inl ⟨none, bare, paved⟩
  | within paved staged cut => exact Or.inr ⟨_, _, paved, staged, cut⟩

/-- Past its first action a staging relies on the directory. -/
theorem within_of_phase (underway : Underway base area (w :: writes) left moved t)
    (phase : w.phase ≠ .begun) :
    ∃ made d, Paved area.ancestors base made ∧
      Staged made area d ((w :: writes).filterMap StagedWrite.temporary? ++ left) moved t ∧
      (left ≠ [] → t.directoryAt area = .error .notDirectory) := by
  cases underway with
  | nowhere _ _ begun _ _ => exact absurd (begun w List.mem_cons_self) phase
  | within paved staged cut => exact ⟨_, _, paved, staged, cut⟩

/-- The directory is there, or it is made while nothing relies on it. -/
theorem makeDirectories (underway : Underway base area writes left moved t) :
    Underway base area writes left moved (t.makeDirectories area).1 := by
  cases underway with
  | nowhere paved stops begun none bare =>
      rw [none, bare]
      exact .of_paved (paved.trans (makeDirectories_paved t area)) begun
  | within paved staged cut =>
      rw [staged.kept.makeDirectories]
      exact .within paved staged cut

/-- The temporary file of a staging that ends is removed, or it is left. -/
theorem discards {made : FileTree} {d : Place} {f : Temporary} {content : ByteArray}
    (paved : Paved area.ancestors base made)
    (staged : Staged made area d
      ((f, content) :: (writes.filterMap StagedWrite.temporary? ++ left)) moved t)
    (cut : left ≠ [] → t.directoryAt area = .error .notDirectory) :
    ∃ left', Underway base area writes left' moved (t.unlink f.path) := by
  rcases staged.unlinks with ⟨leads, staged'⟩ | ⟨stops, same⟩
  · exact ⟨left, .within paved staged' fun some => absurd (cut some) (directoryAt_ne_error leads)⟩
  · rw [same]
    exact ⟨(f, content) :: left,
      .within paved (staged.perm List.perm_middle.symm) fun _ => stops⟩

/-- An action of one of several, of which the others know nothing. -/
theorem set {α : Type} {l : List α} {i : Nat} {a b : α} {f : α → Option StagedWrite}
    (underway : Underway base area (l.filterMap f) left moved t) (there : l[i]? = some a) :
    ∃ others, Underway base area ((f a).toList ++ others) left moved t ∧
      ∀ {left more t'}, Underway base area ((f b).toList ++ others) left more t' →
        Underway base area ((l.set i b).filterMap f) left more t' := by
  obtain ⟨inside, rfl⟩ := List.getElem?_eq_some_iff.1 there
  have apart (c : α) : ((l.set i c).filterMap f).Perm
      ((f c).toList ++ ((l.take i).filterMap f ++ (l.drop (i + 1)).filterMap f)) := by
    have middle : (l.set i c).filterMap f =
        (l.take i).filterMap f ++ ((f c).toList ++ (l.drop (i + 1)).filterMap f) := by
      rw [List.set_eq_take_append_cons_drop, if_pos inside, List.filterMap_append]
      cases h : f c with
      | none => rw [List.filterMap_cons_none h]; rfl
      | some w => rw [List.filterMap_cons_some h]; rfl
    rw [middle]
    exact List.perm_append_comm_assoc ..
  have before := apart l[i]
  rw [List.set_getElem_self] at before
  exact ⟨_, underway.perm before, fun after => after.perm (apart b).symm⟩

end Underway

section

variable {s : Staging} {base t t' : FileTree} {w w' : StagedWrite} {writes : List StagedWrite}
  {left : List (Temporary × ByteArray)} {moved : List Download}

/-- An action that does not fail. -/
theorem StagedWrite.Goes.underway (goes : w.Goes s t t' w')
    (underway : Underway base s.directory (w :: writes) left moved t) :
    Underway base s.directory (w' :: writes) left (w'.addTo moved) t' := by
  cases goes with
  | makes makes =>
      obtain ⟨d, leads⟩ := makeDirectories_eq_ok makes
      have made := underway.makeDirectories
      rw [makes] at made
      cases made with
      | nowhere _ stops _ _ _ => exact absurd stops (directoryAt_ne_error leads)
      | within paved staged cut => exact .within paved staged cut
  | opens opens =>
      obtain ⟨root, d, paved, staged, cut⟩ := underway.within_of_phase nofun
      obtain ⟨leads, staged'⟩ := staged.begins opens
      exact .within paved staged' fun some => absurd (cut some) (directoryAt_ne_error leads)
  | writes filled =>
      obtain ⟨root, d, paved, staged, cut⟩ := underway.within_of_phase nofun
      cases fill_eq_ok filled
      rw [files_opened] at staged
      refine .within paved (d := d) ?_ fun some => ?_
      · rw [files_written]
        exact staged.writes _
      · exact directoryAt_put_of_cut (cut some) _ _
  | @moves _ url body temporary moves =>
      obtain ⟨root, d, paved, staged, cut⟩ := underway.within_of_phase nofun
      rw [files_written] at staged
      obtain ⟨leads, staged'⟩ := staged.arrives (c := ⟨url, body⟩) moves
      exact .within paved staged' fun some => absurd (cut some) (directoryAt_ne_error leads)

theorem StagedWrite.Goes.download (goes : w.Goes s t t' w') : w'.download = w.download := by
  rw [StagedWrite.download, goes.same.1, goes.same.2, StagedWrite.download]

theorem StagedWrite.Goes.addTo (goes : w.Goes s t t' w') (moved : List Download) :
    w'.addTo moved = moved ∨ w'.addTo moved = w.download :: moved := by
  rw [StagedWrite.addTo]
  cases w'.phase with
  | begun | directoryMade | opened _ | written _ => exact Or.inl rfl
  | moved => exact Or.inr (congrArg (· :: moved) goes.download)

/-- An action that fails takes the temporary file away with it, if the file can still be found. -/
theorem StagedWrite.Fails.underway {fault : Fault} (fails : w.Fails s t t' fault)
    (underway : Underway base s.directory (w :: writes) left moved t) :
    ∃ left', Underway base s.directory writes left' moved t' := by
  cases fails with
  | unmade unmade =>
      have made := (underway.leave rfl).makeDirectories
      rw [unmade] at made
      exact ⟨left, made⟩
  | unopened _ => exact ⟨left, underway.leave rfl⟩
  | unwritten broken =>
      obtain ⟨root, d, paved, staged, cut⟩ := underway.within_of_phase nofun
      obtain ⟨written, rfl⟩ := fill_eq_error broken
      rw [files_opened] at staged
      exact Underway.discards paved (staged.writes written)
        fun some => directoryAt_put_of_cut (cut some) _ _
  | unmoved _ =>
      obtain ⟨root, d, paved, staged, cut⟩ := underway.within_of_phase nofun
      rw [files_written] at staged
      exact Underway.discards paved staged cut

/-- What a staging does that nobody waits for is what any staging does. -/
theorem StagedWrite.goOn_underway (underway : Underway base s.directory (w :: writes) left moved t) :
    ∃ left' moved', (moved' = moved ∨ moved' = w.download :: moved) ∧
      Underway base s.directory ((w.goOn s t).2.toList ++ writes) left' moved' (w.goOn s t).1 := by
  obtain ⟨begun, acts⟩ | ⟨t', w', acts, goes⟩ | ⟨t', fault, acts, fails⟩ | ⟨ended, acts⟩ :=
    goOn_cases s t w
  · have closed : w.temporary? = none := by rw [temporary?, begun]
    rw [acts]
    exact ⟨left, moved, Or.inl rfl, (underway.leave closed).makeDirectories⟩
  · rw [acts]
    exact ⟨left, w'.addTo moved, goes.addTo moved, goes.underway underway⟩
  · obtain ⟨left', underway'⟩ := fails.underway underway
    rw [acts]
    exact ⟨left', moved, Or.inl rfl, underway'⟩
  · have closed : w.temporary? = none := by rw [temporary?, ended]
    rw [acts]
    exact ⟨left, moved, Or.inl rfl, underway.leave closed⟩

end

end ScriptImports
