import ScriptImports.Proofs.PlainSearch

/-!
The operations on a session as inquiries: programs that ask for one path after the other and go on
with what they are told. An inquiry can be run while the tree changes between any two questions, and
on a tree that stays as it is its run is the operation itself.
-/
namespace ScriptImports

theorem ProbeSession.log_check (session : ProbeSession) (t : FileTree) (p : Path) (label : String) :
    (session.check t p label).1.log =
      session.log ++ [⟨label, p.toString, (session.check t p label).2⟩] := rfl

/-- A tree that changes while a session asks, which is seen at the probes of the session, counted
from 0, and at the reading of a descriptor that follows a probe. -/
structure ChangingTree where
  atProbe : Nat → FileTree
  atReading : Nat → FileTree

namespace ChangingTree

def still (t : FileTree) : ChangingTree := ⟨fun _ => t, fun _ => t⟩

/-- From one probe on and up to another the tree is `t`. -/
def StaysAs (tree : ChangingTree) (t : FileTree) (first last : Nat) : Prop :=
  ∀ n, first ≤ n → n < last → tree.atProbe n = t ∧ tree.atReading n = t

theorem StaysAs.mono {tree : ChangingTree} {t : FileTree} {first first' last : Nat}
    (stays : tree.StaysAs t first last) (later : first ≤ first') : tree.StaysAs t first' last :=
  fun n from' before => stays n (Nat.le_trans later from') before

end ChangingTree

/-- A program that asks whether paths are files. With an answer comes what can be read there as a
descriptor. -/
inductive Inquiry (α : Type) where
  | done (result : α)
  | ask (p : Path) (label : String) (next : Bool → Except DescriptorFault String → Inquiry α)

namespace Inquiry

variable {α : Type}

/-- The run of an inquiry on a session, whose log tells how many probes there were before. -/
def run (tree : ChangingTree) : Inquiry α → ProbeSession → ProbeSession × α
  | .done result, session => (session, result)
  | .ask p label next, session =>
    let asked := session.check (tree.atProbe session.log.length) p label
    (next asked.2 (Descriptor.read (tree.atReading session.log.length) p)).run tree asked.1

def probes (tree : ChangingTree) : Inquiry α → ProbeSession → List Probe
  | .done _, _ => []
  | .ask p label next, session =>
    let asked := session.check (tree.atProbe session.log.length) p label
    ⟨label, p, asked.2⟩ ::
      (next asked.2 (Descriptor.read (tree.atReading session.log.length) p)).probes tree asked.1

/-! The operations. -/

def check (p : Path) (label : String) : Inquiry Bool := .ask p label fun found _ => .done found

def describe (candidate : Path) (label : String)
    (next : Except DescriptorFault (Option Path) → Inquiry α) : Inquiry α :=
  .ask (candidate.child Descriptor.fileName) (label ++ "/" ++ Descriptor.fileName) fun found read =>
    next (if found then read.map fun main => some (candidate.child main).normalize else .ok none)

/-- The verification of a candidate, and what comes after it. -/
def verify (extensions : List String) (candidate : Path) (label : String)
    (next : Except DescriptorFault (Option Path) → Inquiry α) : Inquiry α :=
  if Name.hasExtension candidate.toString.toList extensions false then
    .ask candidate label fun found _ =>
      if found then next (.ok (some candidate)) else describe candidate label next
  else describe candidate label next

def firstVerified (s : Settings) (next : Option Path → Inquiry α) : List SearchStep → Inquiry α
  | [] => next none
  | step :: steps =>
    verify s.nativeExtensions step.path step.label fun
      | .ok (some found) => next (some found)
      | .ok none => firstVerified s next steps
      | .error _ => firstVerified s next steps

def search (s : Settings) (name : String) (origin : Option Path) : Inquiry (Option Location) :=
  if Name.isUrl name then .done (some (.url name))
  else
    firstVerified s (fun found => .done (found.map Location.path))
      (Search.candidates s name origin)

/-! What a run does to the log. -/

variable {tree : ChangingTree} {session : ProbeSession}

theorem log_run (q : Inquiry α) (session : ProbeSession) :
    (q.run tree session).1.log = session.log ++ (q.probes tree session).map Probe.row := by
  induction q generalizing session with
  | done result => exact (List.append_nil _).symm
  | ask p label next ih =>
      rw [run, probes, ih, ProbeSession.log_check, List.append_assoc, List.singleton_append,
        List.map_cons]
      rfl

theorem prefix_log_run (q : Inquiry α) (session : ProbeSession) :
    session.log <+: (q.run tree session).1.log := by
  rw [log_run]
  exact List.prefix_append _ _

/-- While the tree stays as it is nothing else can be seen. -/
theorem run_of_staysAs {q : Inquiry α} {t : FileTree}
    (stays : tree.StaysAs t session.log.length (q.run (.still t) session).1.log.length) :
    q.run tree session = q.run (.still t) session := by
  induction q generalizing session with
  | done result => rfl
  | ask p label next ih =>
      have more : session.log.length < (session.check t p label).1.log.length := by
        simp [ProbeSession.log_check]
      have rest := (@prefix_log_run α (.still t) (next (session.check t p label).2 (Descriptor.read t p))
        (session.check t p label).1).length_le
      obtain ⟨probe, reading⟩ :=
        stays session.log.length (Nat.le_refl _) (Nat.lt_of_lt_of_le more rest)
      rw [run, probe, reading]
      exact ih _ _ (stays.mono (Nat.le_of_lt more))

/-! On a tree that stays as it is the runs are the operations. -/

variable {t : FileTree}

theorem run_ask (p : Path) (label : String)
    (next : Bool → Except DescriptorFault String → Inquiry α) :
    (ask p label next).run (.still t) session =
      (next (session.check t p label).2 (Descriptor.read t p)).run (.still t)
        (session.check t p label).1 := rfl

theorem run_check (p : Path) (label : String) :
    (check p label).run (.still t) session = session.check t p label := rfl

theorem run_verify (extensions : List String) (candidate : Path) (label : String)
    (next : Except DescriptorFault (Option Path) → Inquiry α) :
    (verify extensions candidate label next).run (.still t) session =
      (next (Descriptor.verify extensions session t candidate label).2).run (.still t)
        (Descriptor.verify extensions session t candidate label).1 := by
  rw [verify, Descriptor.verify_eq]
  cases Name.hasExtension candidate.toString.toList extensions false with
  | false => rfl
  | true =>
      rw [if_pos rfl, if_pos rfl, run_ask]
      generalize session.check t candidate label = direct
      obtain ⟨middle, found⟩ := direct
      cases found <;> rfl

theorem run_firstVerified (s : Settings) (next : Option Path → Inquiry α)
    (steps : List SearchStep) :
    (firstVerified s next steps).run (.still t) session =
      (next (Search.firstVerified s session t steps).2).run (.still t)
        (Search.firstVerified s session t steps).1 := by
  induction steps generalizing session with
  | nil => rfl
  | cons step steps ih =>
      rw [firstVerified, run_verify, Search.firstVerified, Search.verify]
      generalize Descriptor.verify s.nativeExtensions session t step.path step.label = verified
      obtain ⟨later, found⟩ := verified
      cases found with
      | error fault => exact ih
      | ok found =>
          cases found with
          | none => exact ih
          | some p => rfl

theorem run_search (s : Settings) (name : String) (origin : Option Path) :
    (search s name origin).run (.still t) session =
      ScriptImports.search s session t name origin := by
  rw [search, ScriptImports.search]
  split
  · rfl
  · exact run_firstVerified s _ _

end Inquiry

end ScriptImports
