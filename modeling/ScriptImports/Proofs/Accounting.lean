import ScriptImports.Proofs.Inquiry
import ScriptImports.Proofs.Spellings
import ScriptImports.Proofs.Tables
import ScriptImports.Proofs.Utf8Paths

/-!
The books of a session, over any operations and while the tree changes under it. A probe adds one row
to the log, and one hit or one known answer to the cache. Each row shows the answer that is known for
its path, which is what the tree said when the path was asked for first. The cache knows the paths
themselves and the log what is printed of them, so that the books are kept over the probes.
-/
namespace ScriptImports

namespace Probe

/-- The first probe of a path shows what the tree said at that time. -/
def OpensWith (tree : ChangingTree) (probes : List Probe) : Prop :=
  ∀ n x, probes[n]? = some x → (∀ earlier ∈ probes.take n, earlier.path.key ≠ x.path.key) →
    x.found = (tree.atProbe n).isFile x.path

theorem OpensWith.concat {tree : ChangingTree} {probes : List Probe} {x : Probe}
    (opens : OpensWith tree probes)
    (last : (∀ earlier ∈ probes, earlier.path.key ≠ x.path.key) →
      x.found = (tree.atProbe probes.length).isFile x.path) : OpensWith tree (probes ++ [x]) := by
  intro n later at_ others
  rcases Nat.lt_trichotomy n probes.length with before | rfl | after
  · rw [List.getElem?_append_left before] at at_
    rw [List.take_append_of_le_length (Nat.le_of_lt before)] at others
    exact opens n later at_ others
  · rw [List.getElem?_concat_length] at at_
    rw [List.take_left] at others
    cases at_
    exact last others
  · rw [List.getElem?_eq_none (by rw [List.length_append]; exact after)] at at_
    cases at_

end Probe

namespace ProbeSession

/-- What holds at any time of a session and the probes that it has made. -/
structure Accounts (tree : ChangingTree) (session : ProbeSession) (probes : List Probe) : Prop where
  log : session.log = probes.map Probe.row
  rows : probes.length = session.cache.hits + session.cache.answers.length
  once : (session.cache.answers.map Prod.fst).Nodup
  asked : ∀ key ∈ session.cache.answers.map Prod.fst, ∃ x ∈ probes, x.path.key = key
  told : ∀ x ∈ probes, session.cache.answers.lookup x.path.key = some x.found
  opens : Probe.OpensWith tree probes

theorem accounts_empty (tree : ChangingTree) : empty.Accounts tree [] where
  log := rfl
  rows := rfl
  once := List.nodup_nil
  asked := nofun
  told := nofun
  opens := nofun

variable {tree : ChangingTree} {session : ProbeSession} {earlier : List Probe}

/-- A probe shows what is known, which counts as a hit, or what the tree says, which is known from
then on. -/
theorem check_cases (session : ProbeSession) (t : FileTree) (p : Path) (label : String) :
    (∃ found, session.cache.answers.lookup p.key = some found ∧
      session.check t p label =
        (⟨{ session.cache with hits := session.cache.hits + 1 },
          session.log ++ [⟨label, p.toString, found⟩]⟩, found)) ∨
    session.cache.answers.lookup p.key = none ∧
      session.check t p label =
        (⟨{ session.cache with answers := (p.key, t.isFile p) :: session.cache.answers },
          session.log ++ [⟨label, p.toString, t.isFile p⟩]⟩, t.isFile p) := by
  rcases session.cache.isFile_cases t p with ⟨found, known, same⟩ | ⟨fresh, same⟩
  · exact Or.inl ⟨found, known, by rw [check, same]⟩
  · exact Or.inr ⟨fresh, by rw [check, same]⟩

/-- There is a probe of the path already, and nothing more is known. -/
theorem Accounts.hit (accounts : session.Accounts tree earlier) {p : Path} {found : Bool}
    (label : String) (known : session.cache.answers.lookup p.key = some found) :
    Accounts tree ⟨{ session.cache with hits := session.cache.hits + 1 },
      session.log ++ [⟨label, p.toString, found⟩]⟩ (earlier ++ [⟨label, p, found⟩]) where
  log := by rw [accounts.log, List.map_append, List.map_singleton, Probe.row]
  rows := by
    have rows := accounts.rows
    simp only [List.length_append, List.length_singleton]
    omega
  once := accounts.once
  asked key hkey := by
    obtain ⟨x, hx, same⟩ := accounts.asked key hkey
    exact ⟨x, List.mem_append_left _ hx, same⟩
  told x hx := by
    cases List.mem_append.1 hx with
    | inl old => exact accounts.told x old
    | inr new =>
        rw [List.mem_singleton.1 new]
        exact known
  opens := by
    obtain ⟨x, hx, same⟩ := accounts.asked p.key (Table.mem_keys_of_lookup known)
    exact accounts.opens.concat fun others => absurd same (others x hx)

/-- The tree's answer is known from here on, for this path only. -/
theorem Accounts.miss (accounts : session.Accounts tree earlier) {p : Path} (label : String)
    (fresh : session.cache.answers.lookup p.key = none) :
    let found := (tree.atProbe session.log.length).isFile p
    Accounts tree ⟨{ session.cache with answers := (p.key, found) :: session.cache.answers },
      session.log ++ [⟨label, p.toString, found⟩]⟩ (earlier ++ [⟨label, p, found⟩]) where
  log := by rw [accounts.log, List.map_append, List.map_singleton, Probe.row]
  rows := by
    have rows := accounts.rows
    simp only [List.length_append, List.length_cons, List.length_nil]
    omega
  once := List.nodup_cons.2 ⟨Table.lookup_eq_none_iff.1 fresh, accounts.once⟩
  asked key hkey := by
    cases List.mem_cons.1 hkey with
    | inl here => exact ⟨_, List.mem_append_right _ List.mem_cons_self, here.symm⟩
    | inr old =>
        obtain ⟨x, hx, same⟩ := accounts.asked key old
        exact ⟨x, List.mem_append_left _ hx, same⟩
  told x hx := by
    cases List.mem_append.1 hx with
    | inl old =>
        have known := accounts.told x old
        have other : x.path.key ≠ p.key := by
          intro here
          rw [here, fresh] at known
          cases known
        rw [List.lookup_cons, beq_eq_false_iff_ne.2 other]
        exact known
    | inr new =>
        rw [List.mem_singleton.1 new]
        exact List.lookup_cons_self
  opens := accounts.opens.concat fun _ => by rw [accounts.log, List.length_map]

theorem Accounts.check (accounts : session.Accounts tree earlier) (p : Path) (label : String) :
    let asked := session.check (tree.atProbe session.log.length) p label
    asked.1.Accounts tree (earlier ++ [⟨label, p, asked.2⟩]) := by
  rcases session.check_cases (tree.atProbe session.log.length) p label with
    ⟨found, known, same⟩ | ⟨fresh, same⟩
  · rw [same]
    exact accounts.hit label known
  · rw [same]
    exact accounts.miss label fresh

theorem Accounts.run {α : Type} (accounts : session.Accounts tree earlier) (q : Inquiry α) :
    (q.run tree session).1.Accounts tree (earlier ++ q.probes tree session) := by
  induction q generalizing session earlier with
  | done result => rwa [Inquiry.probes, List.append_nil]
  | ask p label next ih =>
      rw [Inquiry.run, Inquiry.probes, ← List.singleton_append, ← List.append_assoc]
      exact ih _ _ (accounts.check p label)

/-! Operations, and sessions of any length. -/

inductive Operation where
  | check (p : Path) (label : String)
  | verify (extensions : List String) (candidate : Path) (label : String)
  | search (s : Settings) (name : String) (origin : Option Path)

namespace Operation

/-- An operation on a tree that stays as it is. -/
def on (t : FileTree) (session : ProbeSession) : Operation → ProbeSession
  | .check p label => (session.check t p label).1
  | .verify extensions candidate label =>
    (Descriptor.verify extensions session t candidate label).1
  | .search s name origin => (ScriptImports.search s session t name origin).1

/-- An operation on a tree that may change from one question to the next. -/
def run (tree : ChangingTree) (session : ProbeSession) : Operation → ProbeSession
  | .check p label => ((Inquiry.check p label).run tree session).1
  | .verify extensions candidate label =>
    ((Inquiry.verify extensions candidate label .done).run tree session).1
  | .search s name origin => ((Inquiry.search s name origin).run tree session).1

def probes (tree : ChangingTree) (session : ProbeSession) : Operation → List Probe
  | .check p label => (Inquiry.check p label).probes tree session
  | .verify extensions candidate label =>
    (Inquiry.verify extensions candidate label .done).probes tree session
  | .search s name origin => (Inquiry.search s name origin).probes tree session

theorem run_still (t : FileTree) (session : ProbeSession) (op : Operation) :
    op.run (.still t) session = op.on t session := by
  cases op with
  | check p label => rw [run, on, Inquiry.run_check]
  | verify extensions candidate label =>
      rw [run, on, Inquiry.run_verify, Inquiry.run]
  | search s name origin => rw [run, on, Inquiry.run_search]

theorem run_of_staysAs {t : FileTree} (op : Operation)
    (stays : tree.StaysAs t session.log.length (op.on t session).log.length) :
    op.run tree session = op.on t session := by
  rw [← run_still] at stays ⊢
  cases op with
  | check | verify | search => exact congrArg Prod.fst (Inquiry.run_of_staysAs stays)

theorem log_run (op : Operation) : session.log <+: (op.run tree session).log := by
  cases op with
  | check | verify | search => exact Inquiry.prefix_log_run _ session

theorem accounts_run (accounts : session.Accounts tree earlier) (op : Operation) :
    (op.run tree session).Accounts tree (earlier ++ op.probes tree session) := by
  cases op with
  | check | verify | search => exact accounts.run _

end Operation

/-- A session after operations on a tree that changes. -/
def after (tree : ChangingTree) (ops : List Operation) : ProbeSession :=
  ops.foldl (fun session op => op.run tree session) empty

theorem after_concat (tree : ChangingTree) (ops : List Operation) (op : Operation) :
    after tree (ops ++ [op]) = op.run tree (after tree ops) := by
  rw [after, after, List.foldl_append, List.foldl_cons, List.foldl_nil]

/-- The probes of operations, the first of which starts from a session. -/
def probes (tree : ChangingTree) (session : ProbeSession) : List Operation → List Probe
  | [] => []
  | op :: ops => op.probes tree session ++ probes tree (op.run tree session) ops

theorem accounts_after (tree : ChangingTree) (ops : List Operation) :
    (after tree ops).Accounts tree (probes tree empty ops) := by
  have kept : ∀ (ops : List Operation) (session : ProbeSession) (earlier : List Probe),
      session.Accounts tree earlier →
        (ops.foldl (fun session op => op.run tree session) session).Accounts tree
          (earlier ++ probes tree session ops) := by
    intro ops
    induction ops with
    | nil =>
        intro session earlier accounts
        rwa [probes, List.append_nil]
    | cons op ops ih =>
        intro session earlier accounts
        rw [List.foldl_cons, probes, ← List.append_assoc]
        exact ih _ _ (Operation.accounts_run accounts op)
  exact kept ops empty [] (accounts_empty tree)

/-- A file that is written after the first probe. -/
def lateFile : ChangingTree :=
  let tree := fun n => if n = 0 then FileTree.empty else ProbeCache.oneFile
  ⟨tree, tree⟩

theorem lateFile_staysAs (last : Nat) : lateFile.StaysAs ProbeCache.oneFile 1 last := by
  intro n from' _
  have written : n ≠ 0 := Nat.ne_of_gt from'
  simp only [lateFile, if_neg written, and_self]

/-- Two paths that are printed alike have two answers. -/
example :
    let path (b : UInt8) (high : 0x80 ≤ b) : Path :=
      ⟨[.stray ⟨[b], by simp, by simpa using high⟩]⟩
    let session := after (.still FileTree.empty)
      [.check (path 0xfe (by decide)) "first", .check (path 0xff (by decide)) "second"]
    session.cache.answers.length = 2 ∧
      session.log = [⟨"first", "\uFFFD", false⟩, ⟨"second", "\uFFFD", false⟩] := by
  decide +kernel

end ProbeSession

end ScriptImports
