import Capuchin.Proofs.Limit.Cut
import Capuchin.Value.Complaint

namespace Capuchin

namespace Node

theorem braced_cut {text wider : Node → Except Fault String}
    (cut : ∀ node, Cut .overflow (text node) (wider node)) (node : Node) :
    Cut .overflow (braced text node) (braced wider node) := by
  unfold braced
  split
  · exact .refl _
  · exact .refl _
  · exact (cut _).bind fun _ => .refl _
  · exact (cut _).bind fun _ => .refl _
  · exact .refl _

theorem render_cut {limit more : Nat} (order : limit ≤ more) (node : Node) :
    Cut .overflow (render limit node) (render more node) := by
  induction limit generalizing more node with
  | zero => exact .inl rfl
  | succ limit ih =>
    obtain ⟨more, rfl⟩ : ∃ other, more = other + 1 := ⟨more - 1, by omega⟩
    have part (node : Node) := ih (Nat.le_of_succ_le_succ order) node
    have parts (nodes : List Node) := Cut.mapM nodes fun node _ => part node
    have body (node : Node) := braced_cut part node
    simp only [render]
    cases node with
    | absent => exact .refl _
    | program statements => exact (parts statements).bind fun _ => .refl _
    | block statements => exact (parts statements).bind fun _ => .refl _
    | letStmt name value => exact (part value).bind fun _ => .refl _
    | returnStmt value => exact (part value).bind fun _ => .refl _
    | exprStmt expression => exact (part expression).bind fun _ => .refl _
    | ident name => exact .refl _
    | int value => exact .refl _
    | str text => exact .refl _
    | bool value => exact .refl _
    | array elements => exact (parts elements).bind fun _ => .refl _
    | hash pairs =>
      refine (Cut.mapM pairs fun pair _ => ?_).bind fun _ => .refl _
      exact (part pair.1).bind fun _ => (part pair.2).bind fun _ => .refl _
    | fn params node => exact (body node).bind fun _ => .refl _
    | unary op right => exact (part right).bind fun _ => .refl _
    | binary left op right =>
      exact (part left).bind fun _ => (part right).bind fun _ => .refl _
    | index left position =>
      exact (part left).bind fun _ => (part position).bind fun _ => .refl _
    | call callee args => exact (part callee).bind fun _ => (parts args).bind fun _ => .refl _
    | ifThen condition consequence =>
      exact (part condition).bind fun _ => (body consequence).bind fun _ => .refl _
    | ifElse condition consequence alternative =>
      exact (part condition).bind fun _ =>
        (body consequence).bind fun _ => (body alternative).bind fun _ => .refl _

end Node

section Displaying

variable {limit more : Nat} (order : limit ≤ more)

include order

theorem Value.inspect_cut (value : Value) :
    Cut .overflow (value.inspect limit) (value.inspect more) := by
  induction limit generalizing more value with
  | zero => exact .inl rfl
  | succ limit ih =>
    obtain ⟨more, rfl⟩ : ∃ other, more = other + 1 := ⟨more - 1, by omega⟩
    have lower := Nat.le_of_succ_le_succ order
    have part (value : Value) := ih lower value
    simp only [inspect]
    cases value with
    | int value => exact .refl _
    | bool value => exact .refl _
    | str text => exact .refl _
    | null => exact .refl _
    | array elements => exact (Cut.mapM elements fun value _ => part value).bind fun _ => .refl _
    | hash entries =>
      refine (Cut.mapM entries fun entry _ => ?_).bind fun _ => .refl _
      exact (part entry.1.toValue).bind fun _ => (part entry.2).bind fun _ => .refl _
    | fn params body scope => exact (Node.render_cut lower body).bind fun _ => .refl _
    | builtin builtin => exact .refl _
    | returned value => exact part value
    | error kind message => exact .refl _

theorem Complaint.operation_cut (left : Value) (symbol : String) (right : Value) :
    Cut .overflow (operation limit left symbol right) (operation more left symbol right) :=
  (left.inspect_cut order).bind fun _ => (right.inspect_cut order).bind fun _ => .refl _

theorem Complaint.message_cut (complaint : Complaint) :
    Cut .overflow (complaint.message limit) (complaint.message more) := by
  cases complaint with
  | typeMismatch left op right => exact (operation_cut order ..).bind fun _ => .refl _
  | unknownUnary op right => exact (right.inspect_cut order).bind fun _ => .refl _
  | unknownBinary left op right => exact (operation_cut order ..).bind fun _ => .refl _
  | unbound name => exact .refl _
  | notFunction value => exact (value.inspect_cut order).bind fun _ => .refl _
  | wrongCount expected got => exact .refl _
  | unsupportedArgument builtin argument => exact (argument.inspect_cut order).bind fun _ => .refl _
  | unsupportedIndex left => exact (left.inspect_cut order).bind fun _ => .refl _
  | invalidKey key => exact (key.inspect_cut order).bind fun _ => .refl _
  | divisionByZero left right => exact (operation_cut order ..).bind fun _ => .refl _

theorem Complaint.settle_cut (result : Except Complaint Value) :
    Cut .overflow (settle limit result) (settle more result) := by
  cases result with
  | ok value => exact .refl _
  | error complaint => exact (complaint.message_cut order).bind fun _ => .refl _

end Displaying

end Capuchin
