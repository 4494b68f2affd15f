import Capuchin.Proofs.Evaluate.FirstError
import Capuchin.Proofs.Session.Later

namespace Capuchin

def Value.IsError (value : Value) : Prop :=
  ∃ kind message, value = .error kind message

/-- Neither an error nor one inside, at any depth. -/
def Value.ErrorFree (value : Value) : Prop :=
  value.Throughout fun part => ¬part.IsError

/-- No scope binds a name to an error or to a value with one inside. -/
def Heap.ErrorFree (heap : Heap) : Prop :=
  ∀ id name value, heap.Binds id name value → value.ErrorFree

/-- An error is in the event only as what an evaluation ends with. -/
def Event.ErrorFree : Event → Prop
  | .enter _ _ | .create _ _ => True
  | .leave value => value.IsError ∨ value.ErrorFree
  | .write _ _ value => value.ErrorFree
  | .call callee args => callee.ErrorFree ∧ ∀ arg ∈ args, arg.ErrorFree

/-- No error is stored, whatever is evaluated. -/
def Law.errorFree : Law where
  admits _ _ _ := True
  holds _ value := ¬value.IsError
  links _ := True
  admits_grows _ _ := trivial
  holds_grows held _ := held
  admits_part _ _ := trivial
  admits_body _ := trivial
  holds_fn _ := nofun
  holds_str _ := nofun
  holds_concat _ _ := nofun
  holds_empty := nofun
  holds_insert _ _ := nofun
  holds_other shape := by
    rintro ⟨_, _, rfl⟩
    simp [Value.shape] at shape
  links_create _ _ := trivial
  links_write _ := trivial

theorem Heap.ErrorFree.kept {heap : Heap} (free : heap.ErrorFree) : Law.errorFree.Kept heap :=
  ⟨trivial, free⟩

/-- If no stored value is or contains an error, then none does after an evaluation, however that
ends, and its value is an error or contains none; in the course of it no such value is bound or
passed to a function. So it is with every session that comes of such a heap. -/
theorem errors_never_stored (heap : Heap) (free : heap.ErrorFree) :
    (∀ (σ : Type) (watch : Monitor σ) limit (node : Node) scope notes,
      ((node.eval watch limit scope).heapAfter ⟨heap, notes⟩).ErrorFree ∧
      ∀ value, ((node.eval watch limit scope).ending ⟨heap, notes⟩).1 = .ok value →
        value.IsError ∨ value.ErrorFree) ∧
    (∀ limit (node : Node) scope, ∀ event ∈ node.events limit scope heap, event.ErrorFree) ∧
    ∀ scope session, Session.Later ⟨heap, scope⟩ session →
      session.heap.ErrorFree ∧
      ∀ logged limit source value, (session.go logged limit source).result = .ok value →
        value.IsError ∨ value.ErrorFree := by
  refine ⟨?_, ?_, ?_⟩
  · intro σ watch limit node scope notes
    have admitted : Law.errorFree.admits heap scope node := trivial
    obtain ⟨result, later, marks, ended, _, kept, _, yields⟩ :=
      free.kept.eval_ending (.none _ watch) node admitted trivial limit
    unfold Run.heapAfter
    rw [ended]
    exact ⟨kept.bound, yields⟩
  · intro limit node scope event member
    have admitted : Law.errorFree.admits heap scope node := trivial
    have noted : (Audit.record Law.errorFree).good heap [] := by simp [Audit.record]
    obtain ⟨result, later, marks, ended, _, _, good, _⟩ :=
      free.kept.eval_ending (.record _) node admitted noted limit
    unfold Node.events at member
    rw [ended] at member
    have tells := good event member
    cases event <;> exact tells
  · intro scope session later
    obtain ⟨_, _, kept⟩ := later.kept free.kept fun _ _ _ _ _ _ => trivial
    refine ⟨kept.bound, fun logged limit source value done => ?_⟩
    exact (Session.go_kept kept fun _ _ => trivial).2.2.2 value done

/-- A `let` of an error stores nothing: `b` stays unbound, and the array bound to `a` holds no
error. -/
theorem errors_never_stored_let :
    Heap.ErrorFree ⟨#[⟨[("a", .array [.int 1])], none⟩]⟩ ∧
    ((Node.letStmt "b" (.array [.int 2, .unary .minus (.bool true)])).eval Monitor.silent 9
        0).ending ⟨⟨#[⟨[("a", .array [.int 1])], none⟩]⟩, ()⟩ =
      (.ok (.error .unknownOperator "Unknown operator: -true"),
        ⟨⟨#[⟨[("a", .array [.int 1])], none⟩]⟩, ()⟩) ∧
    Heap.ErrorFree (((Node.letStmt "b" (.array [.int 2, .unary .minus (.bool true)])).eval
      Monitor.silent 9 0).heapAfter ⟨⟨#[⟨[("a", .array [.int 1])], none⟩]⟩, ()⟩) := by
  have free : Heap.ErrorFree ⟨#[⟨[("a", .array [.int 1])], none⟩]⟩ := by
    rintro id name value ⟨scope, found, got⟩
    obtain ⟨rfl, rfl⟩ : id = 0 ∧ scope = ⟨[("a", .array [.int 1])], none⟩ := by
      cases id <;> simp_all
    have member := Table.mem_of_get? got
    obtain ⟨rfl, rfl⟩ : name = "a" ∧ value = .array [.int 1] := by simpa using member
    exact .intro nofun (List.forall_mem_singleton.mpr (.leaf nofun rfl))
  exact ⟨free, rfl, ((errors_never_stored _ free).1 Unit .silent 9 _ 0 ()).1⟩

end Capuchin
