import Capuchin.Proofs.Evaluate.Mirror
import Capuchin.Session.Basic

namespace Capuchin

namespace Session

def go (session : Session) (logged : Bool) (limit : Nat) (source : String) : Outcome :=
  if logged then session.runLogged limit source else session.run limit source

/-- Either a source fails before anything is evaluated, or its program is; the session has no part
in that, and the log does not tell scopes apart. -/
theorem go_cases (logged : Bool) (limit : Nat) (source : String) :
    (∃ failure log, ∀ session : Session,
      session.go logged limit source = ⟨.error failure, log, session⟩) ∨
    ∃ (tree : Node) (watch : Monitor Transcript) (log : Transcript),
      Node.parse limit source = .ok tree ∧ (∀ number, watch.Blind number) ∧
      ∀ session : Session, session.go logged limit source = session.evaluate watch limit tree log := by
  unfold go run runLogged
  cases parsed : Node.parse limit source with
  | error rejection =>
    cases logged
    · exact .inl ⟨.rejected rejection, _, fun _ => rfl⟩
    · exact .inl ⟨.rejected rejection, _, fun _ => rfl⟩
  | ok tree =>
    cases logged with
    | false => exact .inr ⟨tree, _, _, rfl, Monitor.silent_blind, fun _ => rfl⟩
    | true =>
      simp only [if_true]
      cases Log.tree limit tree with
      | error fault => exact .inl ⟨.fault fault, _, fun _ => rfl⟩
      | ok entry => exact .inr ⟨tree, _, _, rfl, Log.calls_blind, fun _ => rfl⟩

theorem evaluate_eq {session : Session} {watch : Monitor Transcript} {log marks : Transcript}
    (ended : (node.eval watch limit session.scope).ending ⟨session.heap, log⟩ =
      (result, ⟨later, marks⟩)) :
    session.evaluate watch limit node log =
      ⟨result.mapError .fault, marks, { session with heap := later }⟩ := by
  unfold evaluate
  rw [EStateM.run]
  unfold Run.ending at ended
  generalize node.eval watch limit session.scope ⟨session.heap, log⟩ = outcome at ended ⊢
  cases outcome <;> cases ended <;> rfl

/-- Sessions that come of one session by running sources, each under a limit of its own. -/
inductive Later (start : Session) : Session → Prop where
  | start : Later start start
  | go (reached : Later start session) (logged : Bool) (limit : Nat) (source : String) :
      Later start (session.go logged limit source).session

variable {law : Law} {session start : Session}

theorem fresh_unbound {id : ScopeId} (bound : fresh.heap.Binds id name value) : False := by
  obtain ⟨_, found, _⟩ := bound.of_create
  simp at found

theorem fresh_kept (links : law.links fresh.heap) : law.Kept fresh.heap :=
  ⟨links, fun _ _ _ bound => (fresh_unbound bound).elim⟩

theorem go_kept (kept : law.Kept session.heap)
    (admits : ∀ tree, Node.parse limit source = .ok tree →
      law.admits session.heap session.scope tree) :
    (session.go logged limit source).session.scope = session.scope ∧
      session.heap.Grows (session.go logged limit source).session.heap ∧
      law.Kept (session.go logged limit source).session.heap ∧
      ∀ value, (session.go logged limit source).result = .ok value →
        law.Yields (session.go logged limit source).session.heap value := by
  rcases go_cases logged limit source with ⟨failure, log, failed⟩ | ⟨tree, watch, log, parsed, _, run⟩
  · rw [failed session]
    exact ⟨rfl, .refl _, kept, nofun⟩
  · obtain ⟨result, later, marks, ended, grown, keptLater, _, yields⟩ :=
      kept.eval_ending (.none law watch) tree (admits tree parsed) trivial limit
    rw [run session, evaluate_eq ended]
    refine ⟨rfl, grown, keptLater, fun value done => ?_⟩
    cases result with
    | error fault => cases done
    | ok own =>
      cases done
      exact yields value rfl

/-- Any number of sources keep a law that admits all programs in the session's scope. -/
theorem Later.kept (later : start.Later session) (kept : law.Kept start.heap)
    (admits : ∀ heap limit source tree, start.heap.Grows heap →
      Node.parse limit source = .ok tree → law.admits heap start.scope tree) :
    session.scope = start.scope ∧ start.heap.Grows session.heap ∧ law.Kept session.heap := by
  induction later with
  | start => exact ⟨rfl, .refl _, kept⟩
  | go _ logged limit source ih =>
    obtain ⟨scope, grown, keptLater⟩ := ih
    obtain ⟨same, more, keptLast, _⟩ := go_kept keptLater fun tree parsed => by
      rw [scope]
      exact admits _ limit source tree grown parsed
    exact ⟨same.trans scope, grown.trans more, keptLast⟩

end Session

end Capuchin
