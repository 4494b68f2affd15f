import Capuchin.Evaluate.Basic
import Capuchin.Parse.Feed
import Capuchin.Session.Log

namespace Capuchin

/-- Sources are run one after the other against one global scope; one that fails keeps the bindings
it has made. -/
structure Session where
  heap : Heap
  /-- The scope that sources are run in. -/
  scope : ScopeId

/-- Why a source has no value. -/
inductive Failure where
  | rejected (rejection : Rejection)
  | fault (fault : Fault)

def Failure.message : Failure → String
  | .rejected reason => reason.message
  | .fault reason => reason.message

/-- What became of a source: its value, which may be an error, or the reason why there is none;
the log up to there; and the session after it. -/
structure Outcome where
  result : Except Failure Value
  log : Transcript
  session : Session

namespace Session

/-- A heap with a new global scope. -/
def opened (heap : Heap) : Session :=
  { heap := heap.create none, scope := heap.next }

def fresh : Session :=
  opened {}

def get? (session : Session) (name : String) : Option Value :=
  session.heap.find? session.scope name

def set (session : Session) (name : String) (value : Value) : Session :=
  { session with heap := session.heap.write session.scope name value }

/-- Evaluate a node in the session's scope, adding to a log. -/
def evaluate (session : Session) (watch : Monitor Transcript) (limit : Nat) (node : Node)
    (log : Transcript) : Outcome :=
  match (node.eval watch limit session.scope).run { heap := session.heap, notes := log } with
  | .ok value world => ⟨.ok value, world.notes, { session with heap := world.heap }⟩
  | .error fault world => ⟨.error (.fault fault), world.notes, { session with heap := world.heap }⟩

/-- Run a source without a log. -/
def run (session : Session) (limit : Nat) (source : String) : Outcome :=
  match Node.parse limit source with
  | .error rejection => ⟨.error (.rejected rejection), #[], session⟩
  | .ok program => session.evaluate .silent limit program #[]

/-- Run a source and log its tokens, its tree and the calls made. -/
def runLogged (session : Session) (limit : Nat) (source : String) : Outcome :=
  let log := #[Log.tokens source]
  match Node.parse limit source with
  | .error rejection => ⟨.error (.rejected rejection), log, session⟩
  | .ok program =>
    match Log.tree limit program with
    | .error fault => ⟨.error (.fault fault), log, session⟩
    | .ok entry => session.evaluate Log.calls limit program (log.push entry)

end Session

end Capuchin
