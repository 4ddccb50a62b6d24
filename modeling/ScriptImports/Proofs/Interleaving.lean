import ScriptImports.Proofs.Actions
import ScriptImports.Proofs.Underway

/-!
Stagings in one area at the same time. Their actions may come in any order: a target never holds
anything but a complete body, and when all of them have succeeded nothing is left beside the targets.
What each target holds then is the body that was moved there last.
-/
namespace ScriptImports

open FileTree

/-- One of several calls that stage a body: how far it has come, and its result when it has ended. -/
structure StagingCall where
  write : StagedWrite
  result : Option (Except Fault Path)

namespace StagingCall

def start (c : Download) : StagingCall := ⟨⟨c.url, c.body, .begun⟩, none⟩

def download (call : StagingCall) : Download := call.write.download

/-- The staging of a call that has not ended. -/
def write? (call : StagingCall) : Option StagedWrite :=
  match call.result with
  | none => some call.write
  | some _ => none

def Succeeded (call : StagingCall) : Prop := ∃ path, call.result = some (.ok path)

def Failed (call : StagingCall) : Prop := ∃ fault, call.result = some (.error fault)

theorem Succeeded.not_failed {call : StagingCall} (succeeded : call.Succeeded) : ¬ call.Failed := by
  obtain ⟨path, result⟩ := succeeded
  rintro ⟨fault, failed⟩
  rw [result] at failed
  cases failed

theorem Succeeded.ended {call : StagingCall} (succeeded : call.Succeeded) : call.write? = none := by
  obtain ⟨path, result⟩ := succeeded
  rw [write?, result]

/-- A call that has moved its file is known for it, and only such a call succeeds. -/
structure Counted (moved : List Download) (call : StagingCall) : Prop where
  arrived : call.write.phase = .moved → call.download ∈ moved
  succeeded : call.Succeeded → call.write.phase = .moved

theorem Counted.mono {moved more : List Download} {call : StagingCall}
    (counted : call.Counted moved) (sub : ∀ c ∈ moved, c ∈ more) : call.Counted more :=
  ⟨fun phase => sub _ (counted.arrived phase), counted.succeeded⟩

end StagingCall

/-- Calls in one staging area, and the downloads that they have moved to their targets, the last one
first. -/
structure StagingCalls where
  staging : Staging
  tree : FileTree
  calls : List StagingCall
  moved : List Download

namespace StagingCalls

def start (s : Staging) (t : FileTree) (downloads : List Download) : StagingCalls :=
  ⟨s, t, downloads.map .start, []⟩

/-- One action of the call at a place, if there is one that has not ended. -/
def turn (s : StagingCalls) (i : Nat) : StagingCalls :=
  match s.calls[i]? with
  | some ⟨write, none⟩ =>
    match write.step s.staging s.tree with
    | (staging, tree, .next write) =>
      ⟨staging, tree, s.calls.set i ⟨write, none⟩, write.addTo s.moved⟩
    | (staging, tree, .ended result) =>
      ⟨staging, tree, s.calls.set i ⟨write, some result⟩, s.moved⟩
  | some ⟨_, some _⟩ | none => s

def run (s : StagingCalls) (schedule : List Nat) : StagingCalls := schedule.foldl turn s

/-- What is true at every moment of calls that were started together. Only a call that fails can
leave its temporary file. -/
structure Holds (area : Path) (base : FileTree) (downloads : List Download) (s : StagingCalls) :
    Prop where
  directory : s.staging.directory = area
  underway : ∃ left, Underway base area (s.calls.filterMap StagingCall.write?) left s.moved s.tree ∧
    (left = [] ∨ ∃ call ∈ s.calls, call.Failed)
  same : s.calls.map StagingCall.download = downloads
  moved (c : Download) : c ∈ s.moved → c ∈ downloads
  counted (call : StagingCall) : call ∈ s.calls → call.Counted s.moved

variable {area : Path} {base : FileTree} {downloads : List Download} {s : StagingCalls}

theorem Holds.start (s : Staging) (t : FileTree) (downloads : List Download) :
    Holds s.directory t downloads (start s t downloads) := by
  refine ⟨rfl, ⟨[], .of_paved (.refl _ t) fun w hw => ?_, Or.inl rfl⟩, ?_, nofun,
    fun call hc => ?_⟩
  · obtain ⟨call, hc, own⟩ := List.mem_filterMap.1 hw
    obtain ⟨c, _, rfl⟩ := List.mem_map.1 hc
    cases own
    rfl
  · dsimp only [StagingCalls.start]
    rw [List.map_map]
    exact List.map_id downloads
  · obtain ⟨c, _, rfl⟩ := List.mem_map.1 hc
    exact ⟨nofun, nofun⟩

/-- After an action of one call the others stand as they stood. -/
theorem Holds.act {tree tree' : FileTree} {moved more : List Download}
    {staging staging' : Staging} {calls : List StagingCall} {i : Nat} {call call' : StagingCall}
    (holds : Holds area base downloads ⟨staging, tree, calls, moved⟩)
    (there : calls[i]? = some call) (going : call.result = none)
    (directory : staging'.directory = staging.directory)
    (acts : ∀ others left, Underway base area (call.write?.toList ++ others) left moved tree →
      ∃ left', Underway base area (call'.write?.toList ++ others) left' more tree' ∧
        (left' = left ∨ call'.Failed))
    (same : call'.download = call.download)
    (kept : ∀ c ∈ moved, c ∈ more) (new : ∀ c ∈ more, c ∈ moved ∨ c = call.download)
    (counted : call.Counted moved → call'.Counted more) :
    Holds area base downloads ⟨staging', tree', calls.set i call', more⟩ := by
  have own : call ∈ calls := List.mem_of_getElem? there
  refine ⟨directory.trans holds.directory, ?_, ?_, fun c hc => ?_, fun other hc => ?_⟩
  · obtain ⟨left, underway, remains⟩ := holds.underway
    obtain ⟨others, before, after⟩ := underway.set there
    obtain ⟨left', acts, kept⟩ := acts others left before
    have set : call' ∈ calls.set i call' :=
      List.mem_set (List.getElem?_eq_some_iff.1 there).1 call'
    refine ⟨left', after acts, ?_⟩
    rcases kept with rfl | failed
    · refine remains.imp_right fun ⟨other, hc, fault, failed⟩ => ?_
      obtain ⟨j, at_j⟩ := List.getElem?_of_mem hc
      have apart : i ≠ j := by
        rintro rfl
        rw [there] at at_j
        cases at_j
        rw [going] at failed
        cases failed
      have stays : (calls.set i call')[j]? = some other := by
        rw [List.getElem?_set_ne apart, at_j]
      exact ⟨other, List.mem_of_getElem? stays, fault, failed⟩
    · exact Or.inr ⟨call', set, failed⟩
  · rw [← holds.same]
    obtain ⟨inside, rfl⟩ := List.getElem?_eq_some_iff.1 there
    dsimp only
    rw [List.map_set, same, ← List.getElem_map StagingCall.download, List.set_getElem_self]
    rwa [List.length_map]
  · cases new c hc with
    | inl before => exact holds.moved c before
    | inr its =>
        rw [its, ← holds.same]
        exact List.mem_map.2 ⟨call, own, rfl⟩
  · cases List.mem_or_eq_of_mem_set hc with
    | inl hc => exact (holds.counted other hc).mono kept
    | inr its =>
        rw [its]
        exact counted (holds.counted call own)

theorem Holds.turn (holds : Holds area base downloads s) (i : Nat) :
    Holds area base downloads (s.turn i) := by
  obtain ⟨staging, tree, calls, moved⟩ := s
  have directory : staging.directory = area := holds.directory
  rw [StagingCalls.turn]
  dsimp only
  split
  · next write there =>
    obtain ⟨t', write', steps, goes⟩ | ⟨phase, steps⟩ | ⟨t', fault, steps, fails⟩ :=
      StagedWrite.step_cases staging tree write
    · have same : write'.download = write.download := goes.download
      rw [steps]
      refine holds.act there rfl rfl (fun others left underway => ⟨left, ?_, Or.inl rfl⟩) same
        (fun c hc => StagedWrite.mem_addTo.2 (Or.inl hc)) (fun c hc => ?_)
        fun _ => ⟨fun phase => ?_, ?_⟩
      · subst directory
        exact goes.underway underway
      · exact (StagedWrite.mem_addTo.1 hc).imp_right fun its => its.2.trans same
      · exact StagedWrite.mem_addTo.2 (Or.inr ⟨phase, rfl⟩)
      · rintro ⟨_, result⟩
        cases result
    · rw [steps]
      refine holds.act there rfl rfl (fun others left underway => ⟨left, ?_, Or.inl rfl⟩) rfl
        (fun _ hc => hc) (fun _ => .inl) fun counted => ⟨counted.arrived, fun _ => phase⟩
      exact underway.leave (by rw [StagedWrite.temporary?, phase])
    · rw [steps]
      refine holds.act there rfl rfl (fun others left underway => ?_) rfl
        (fun _ hc => hc) (fun _ => .inl) fun counted => ⟨counted.arrived, ?_⟩
      · subst directory
        obtain ⟨left', after⟩ := fails.underway underway
        exact ⟨left', after, Or.inr ⟨fault, rfl⟩⟩
      · rintro ⟨_, result⟩
        cases result
  · exact holds
  · exact holds

theorem Holds.run (holds : Holds area base downloads s) (schedule : List Nat) :
    Holds area base downloads (s.run schedule) := by
  induction schedule generalizing s with
  | nil => exact holds
  | cons i schedule ih => exact ih (holds.turn i)

/-- Every target has what stands there in `t`, or the complete body of a call for it. -/
def Untorn (t : FileTree) (d : Place) (downloads : List Download) (t' : FileTree) : Prop :=
  ∀ c ∈ downloads, t'.node? (Staging.place d c.url) = t.node? (Staging.place d c.url) ∨
    ∃ c' ∈ downloads, Staging.flatten c'.url = Staging.flatten c.url ∧
      t'.node? (Staging.place d c.url) = some (.file c'.body)

theorem Holds.untorn {made : FileTree} {d : Place} {files : List (Temporary × ByteArray)}
    (holds : Holds area base downloads s)
    (staged : Staged made area d files s.moved s.tree) : Untorn made d downloads s.tree := by
  intro c _
  rw [staged.target]
  rcases made.nodeAfter_cases d s.moved (Staging.place d c.url) with
    ⟨before, _⟩ | ⟨c', hc', here, body⟩
  · exact Or.inl before
  · exact Or.inr ⟨c', holds.moved c' hc', (Staging.place_inj.1 here).symm, body⟩

theorem Holds.arrived (holds : Holds area base downloads s) {call : StagingCall}
    (hc : call ∈ s.calls) (succeeded : call.Succeeded) : call.download ∈ s.moved :=
  (holds.counted call hc).arrived ((holds.counted call hc).succeeded succeeded)

theorem writes_of_succeeded (all : ∀ call ∈ s.calls, call.Succeeded) :
    s.calls.filterMap StagingCall.write? = [] := by
  rw [List.filterMap_eq_nil_iff]
  exact fun call hc => (all call hc).ended

/-- The way to the staging directory may lead through a target: making it leaves a directory there,
which nothing can be moved to. -/
theorem run_not_untorn :
    let t := FileTree.empty.write (Path.ofString "/d") .directory
    let area := Path.ofString "/d/http___a/.."
    let downloads : List Download := [⟨"http://a", "one".toUTF8⟩]
    let after := (start ⟨area, []⟩ t downloads).run [0]
    ∃ d, t.directoryAt (Path.ofString "/d") = .ok d ∧ after.tree.directoryAt area = .ok d ∧
      ¬ Untorn t d downloads after.tree := by
  intro t area downloads after
  refine ⟨[.ofString "d"], ?_, ?_, fun untorn => ?_⟩
  · rfl
  · rfl
  · have stands : after.tree.node? (Staging.place [.ofString "d"] "http://a") = some .directory := by
      decide +kernel
    rcases untorn _ List.mem_cons_self with same | ⟨c, _, _, body⟩
    · rw [stands] at same
      revert same
      decide +kernel
    · rw [stands] at body
      cases body

/-- At every moment each target has the complete body of one of the calls for it, or what was there
before any of them, where directories on the way to the staging directory count as there before.
When all calls have succeeded, each target has the body that was moved there last, and nothing but
the targets has changed. -/
theorem run_untorn (s : Staging) (t : FileTree) (downloads : List Download) (schedule : List Nat) :
    let after := (start s t downloads).run schedule
    ∃ made, Paved s.directory.ancestors t made ∧
      match made.directoryAt s.directory with
      | .error _ => after.tree = made ∧ ∀ call ∈ after.calls, ¬ call.Succeeded
      | .ok d =>
        Untorn made d downloads after.tree ∧
        ((∀ call ∈ after.calls, call.Succeeded) →
          (∀ c ∈ downloads, ∃ last,
            after.moved.find? (fun c' => Staging.flatten c.url = Staging.flatten c'.url) =
              some last ∧
            after.tree.node? (Staging.place d c.url) = some (.file last.body)) ∧
          ∀ q, (∀ c ∈ downloads, q ≠ Staging.place d c.url) →
            after.tree.node? q = made.node? q) := by
  intro after
  have holds : Holds s.directory t downloads after := (Holds.start s t downloads).run schedule
  obtain ⟨left, underway, remains⟩ := holds.underway
  cases underway with
  | nowhere paved stops _ _ none =>
      refine ⟨after.tree, paved, ?_⟩
      rw [stops]
      refine ⟨rfl, fun call hc succeeded => ?_⟩
      have there := holds.arrived hc succeeded
      rw [none] at there
      cases there
  | @within made d paved staged _ =>
      refine ⟨made, paved, ?_⟩
      rw [staged.leads]
      refine ⟨holds.untorn staged, fun all => ⟨fun c hc => ?_, fun q other => ?_⟩⟩
      · obtain ⟨call, hcall, rfl⟩ := List.mem_map.1 (holds.same.symm ▸ hc)
        exact staged.last (holds.arrived hcall (all call hcall)) rfl
      · have none : left = [] := by
          refine remains.resolve_right ?_
          rintro ⟨call, hc, failed⟩
          exact (all call hc).not_failed failed
        rw [writes_of_succeeded all, none] at staged
        rw [staged.rest q List.not_mem_nil]
        rcases made.nodeAfter_cases d after.moved q with ⟨before, _⟩ | ⟨c, hc, here, _⟩
        · exact before
        · exact absurd here (other c (holds.moved c hc))

/-- The first call is the last to be moved. -/
example :
    ((start ⟨Path.ofString "/staging", []⟩ FileTree.empty
        [⟨"http://a", "one".toUTF8⟩, ⟨"http://a", "two".toUTF8⟩]).run
      [0, 1, 0, 1, 0, 1, 1, 0, 0, 1]).tree.readBytes (Path.ofString "/staging/http___a") =
      .ok "one".toUTF8 := by
  rfl

end StagingCalls

end ScriptImports
