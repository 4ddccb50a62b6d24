import ScriptImports.Network
import ScriptImports.Registry
import ScriptImports.Staging

/-!
Loading one resolved import, as a task that goes on one action at a time. A script is read or
fetched; a native module is loaded from its file, after it has been fetched and staged if it is
remote.
-/
namespace ScriptImports

/-- All that loading can see and change. -/
structure World where
  tree : FileTree
  staging : Staging
  network : Network
  registry : Registry

inductive Payload where
  | script (text : String)
  | native (factory : Factory)
deriving DecidableEq

def Payload.kind : Payload → ModuleKind
  | .script _ => .script
  | .native _ => .native

inductive LoadPhase where
  | checkScript (path : Path)
  | readScript (path : Path)
  | fetchScript (url : String)
  | fetchModule (url : String)
  | stageModule (write : StagedWrite)
  | loadModule (path : Path)
  | finished
deriving DecidableEq

inductive Outcome (α : Type) where
  | value (a : α)
  | failure (f : ImportFailure)
  | crash (detail : String)
deriving DecidableEq

structure LoadTask where
  owner : Reference
  phase : LoadPhase
deriving DecidableEq

namespace LoadTask

def firstPhase (c : Candidate) : LoadPhase :=
  match c.kind, c.location with
  | .script, .path p => .checkScript p
  | .script, .url u => .fetchScript u
  | .native, .path p => .loadModule p
  | .native, .url u => .fetchModule u

def ofCandidate (owner : Reference) (c : Candidate) : LoadTask := ⟨owner, firstPhase c⟩

inductive Progress where
  | next (phase : LoadPhase)
  | ended (outcome : Outcome Payload)

def fail (t : LoadTask) (cause : FailureCause) : Progress :=
  .ended (.failure (t.owner.failure cause))

def onReply (t : LoadTask) (url : String) (reply : Reply) (onBody : ByteArray → Progress) :
    Progress :=
  match reply with
  | .body bytes => onBody bytes
  | .refused status reason => t.fail (.fetch url status reason)
  | .crash detail => .ended (.crash detail)

/-- Does the next action of a task. A finished task has none. -/
def step (w : World) (t : LoadTask) : World × Progress :=
  match t.phase with
  | .checkScript p =>
    if w.tree.isFile p then (w, .next (.readScript p))
    else (w, t.fail (.read p "file does not exist"))
  | .readScript p =>
    match w.tree.readText p with
    | .ok text => (w, .ended (.value (.script text)))
    | .error fault => (w, t.fail (.read p fault.message))
  | .fetchScript u =>
    let (network, reply) := w.network.fetch u
    ({ w with network := network }, t.onReply u reply fun body =>
      match w.network.text body with
      | .ok text => .ended (.value (.script text))
      | .error reason => t.fail (.fetch u none reason))
  | .fetchModule u =>
    let (network, reply) := w.network.fetch u
    ({ w with network := network }, t.onReply u reply fun body =>
      .next (.stageModule ⟨u, body, .begun⟩))
  | .stageModule write =>
    match write.step w.staging w.tree with
    | (staging, tree, .next write) =>
      ({ w with staging := staging, tree := tree }, .next (.stageModule write))
    | (staging, tree, .ended (.ok path)) =>
      ({ w with staging := staging, tree := tree }, .next (.loadModule path))
    | (staging, tree, .ended (.error fault)) =>
      ({ w with staging := staging, tree := tree },
        t.fail (.staging write.url (w.staging.target write.url) fault))
  | .loadModule p =>
    match w.registry.load w.tree p with
    | .ok factory => (w, .ended (.value (.native factory)))
    | .error fault => (w, t.fail (.code p fault))
  | .finished => (w, .next .finished)

/-- The longest way of a task: fetch, the five actions of staging, and the load. -/
def maxSteps : Nat := 7

/-- One more action of a task that nobody waits for. Only a staging goes on by itself. -/
def goOn (w : World) (t : LoadTask) : World × LoadTask :=
  match t.phase with
  | .stageModule write =>
    match write.goOn w.staging w.tree with
    | (tree, some write) => ({ w with tree := tree }, { t with phase := .stageModule write })
    | (tree, none) => ({ w with tree := tree }, { t with phase := .finished })
  | _ => (w, { t with phase := .finished })

end LoadTask

end ScriptImports
