import Capuchin.Proofs.Grammar.Exact
import Capuchin.Proofs.Limit.Writing
import Capuchin.Proofs.RoundTrip.Pieces

namespace Capuchin

open Grammar

/-- The node can be written in its role, as a text that spells it. -/
def Role.Writes : Role → Node → Prop
  | .program, node => ∃ text, Reaches (Node.render · node) text ∧
      ∃ nodes, node = .program nodes ∧ Encloses text.toList (.statements nodes)
  | .statement, node => ∃ text, Reaches (Node.render · node) text ∧ States text.toList node
  | .block, node => ∃ text, Reaches (fun limit => Node.braced (Node.render limit) node) text ∧
      Encloses text.toList (.block node)
  | .expression, node => ∃ text, Reaches (Node.render · node) text ∧ Expresses text.toList node

private theorem writes_all {holds : List Char → Node → Prop} (nodes : List Node)
    (each : ∀ node ∈ nodes, ∃ text, Reaches (Node.render · node) text ∧ holds text.toList node) :
    ∃ texts, Reaches (fun limit => nodes.mapM (Node.render limit)) texts ∧
      List.Forall₂ holds (texts.map String.toList) nodes := by
  obtain ⟨texts, reached, spelled⟩ :=
    Reaches.mapM nodes each
  exact ⟨texts, reached, List.forall₂_map_left_iff.mpr spelled⟩

private theorem writes_pairs (pairs : List (Node × Node))
    (keys : ∀ pair ∈ pairs, Role.expression.Writes pair.1)
    (values : ∀ pair ∈ pairs, Role.expression.Writes pair.2) :
    ∃ texts, Reaches (fun limit => pairs.mapM fun (key, value) =>
        return (← Node.render limit key) ++ ": " ++ (← Node.render limit value)) texts ∧
      List.Forall₂ Pairs (texts.map String.toList) pairs := by
  have each : ∀ pair ∈ pairs, ∃ text, Reaches (fun limit => do
      return (← Node.render limit pair.1) ++ ": " ++ (← Node.render limit pair.2)) text ∧
        Pairs text.toList pair := by
    intro pair member
    obtain ⟨keyText, keyReached, key⟩ := keys pair member
    obtain ⟨valueText, valueReached, value⟩ := values pair member
    refine ⟨_, keyReached.bind (valueReached.bind .ok), keyText.toList, valueText.toList, ?_⟩
    exact ⟨by simp, key.whole, value.whole⟩
  obtain ⟨texts, reached, spelled⟩ := Reaches.mapM pairs each
  exact ⟨texts, reached, List.forall₂_map_left_iff.mpr spelled⟩

/-- A well-formed node can be written, and its text spells it again. -/
theorem WellFormed.writes (formed : WellFormed role node) : role.Writes node := by
  induction formed with
  | @program statements _ each =>
    obtain ⟨texts, reached, stated⟩ := writes_all statements each
    refine ⟨"\n".intercalate texts, .step (reached.bind .ok), statements, rfl, ?_⟩
    simpa using Encloses.statements stated
  | letStmt named _ value =>
    obtain ⟨text, reached, expressed⟩ := value
    refine ⟨_, .step (reached.bind .ok), ?_⟩
    simpa using States.letStmt named expressed
  | returnStmt _ value =>
    obtain ⟨text, reached, expressed⟩ := value
    refine ⟨_, .step (reached.bind .ok), ?_⟩
    simpa using States.returnStmt expressed
  | exprStmt _ expression =>
    obtain ⟨text, reached, expressed⟩ := expression
    refine ⟨_, .step (reached.bind .ok), ?_⟩
    simpa using States.exprStmt expressed
  | @block statements _ each =>
    obtain ⟨texts, reached, stated⟩ := writes_all statements each
    cases statements with
    | nil => exact ⟨_, .ok, .emptyBlock⟩
    | cons first rest =>
      have inside : Reaches (Node.render · (.block (first :: rest))) ("\n".intercalate texts) :=
        .step (reached.bind .ok)
      refine ⟨_, inside.bind .ok, ?_⟩
      simpa using Encloses.block (Encloses.statements stated)
  | ident named => exact ⟨_, .step .ok, .ident named⟩
  | int unsigned =>
    obtain ⟨n, rfl⟩ := Int.eq_ofNat_of_zero_le unsigned
    exact ⟨_, .step .ok, .int n⟩
  | str plain =>
    refine ⟨_, .step .ok, ?_⟩
    simpa using Expresses.str plain
  | bool => exact ⟨_, .step .ok, .bool _⟩
  | @array elements _ each =>
    obtain ⟨texts, reached, expressed⟩ := writes_all elements each
    refine ⟨_, .step (reached.bind .ok), ?_⟩
    simpa using Expresses.array (Prints.list (expressed.imp fun _ _ => Expresses.whole))
  | @hash pairs _ _ keys values =>
    obtain ⟨texts, reached, paired⟩ := writes_pairs pairs keys values
    refine ⟨_, .step (reached.bind .ok), ?_⟩
    simpa using Expresses.hash (Prints.entries paired)
  | fn named _ body =>
    obtain ⟨text, reached, enclosed⟩ := body
    refine ⟨_, .step (reached.bind .ok), ?_⟩
    simpa using Expresses.fn (Prints.params named) enclosed
  | unary written _ right =>
    obtain ⟨text, reached, expressed⟩ := right
    refine ⟨_, .step (reached.bind .ok), ?_⟩
    simpa using Expresses.unary written expressed
  | binary _ written _ left right =>
    obtain ⟨leftText, leftReached, leftExpressed⟩ := left
    obtain ⟨rightText, rightReached, rightExpressed⟩ := right
    refine ⟨_, .step (leftReached.bind (rightReached.bind .ok)), ?_⟩
    simpa using Expresses.binary leftExpressed written rightExpressed
  | index _ _ left position =>
    obtain ⟨leftText, leftReached, leftExpressed⟩ := left
    obtain ⟨text, reached, expressed⟩ := position
    refine ⟨_, .step (leftReached.bind (reached.bind .ok)), ?_⟩
    simpa using Expresses.index leftExpressed expressed
  | @call _ args _ _ callee each =>
    obtain ⟨text, reached, expressed⟩ := callee
    obtain ⟨texts, reachedArgs, expressedArgs⟩ := writes_all args each
    refine ⟨_, .step (reached.bind (reachedArgs.bind .ok)), ?_⟩
    simpa using Expresses.call expressed
      (Prints.list (expressedArgs.imp fun _ _ => Expresses.whole))
  | ifThen _ _ condition consequence =>
    obtain ⟨text, reached, expressed⟩ := condition
    obtain ⟨body, reachedBody, enclosed⟩ := consequence
    refine ⟨_, .step (reached.bind (reachedBody.bind .ok)), ?_⟩
    simpa using Expresses.ifThen expressed enclosed
  | ifElse _ _ _ condition consequence alternative =>
    obtain ⟨text, reached, expressed⟩ := condition
    obtain ⟨body, reachedBody, enclosed⟩ := consequence
    obtain ⟨other, reachedOther, enclosedOther⟩ := alternative
    refine ⟨_, .step (reached.bind (reachedBody.bind (reachedOther.bind .ok))), ?_⟩
    simpa using Expresses.ifElse expressed enclosed enclosedOther

theorem parse_wellFormed (read : Node.parse limit source = .ok tree) :
    WellFormed .program tree := by
  obtain ⟨tokens, scanned, lexical, _⟩ := Token.scan_split source.toList
  rw [Node.parse, Token.ofSource, scanned] at read
  have only : .eof ∉ tokens := fun member => lexical .eof member
  exact (program_of_ofTokens only read).wellFormed lexical

theorem parse_prints (printed : Prints text.toList (.statements nodes)) (limit : Nat) :
    Cut .overflow (Node.parse limit text) (.ok (.program nodes)) ∧
      (text.length + 1 < limit → Node.parse limit text = .ok (.program nodes)) := by
  obtain ⟨tokens, scans, spelled⟩ := printed
  have scanned : Token.ofSource text = tokens ++ [.eof] := by
    have whole := scans [] (by simp [Token.Delimited])
    rwa [List.append_nil, Token.scan_eq []] at whole
  have derived : Program tokens (.program nodes) := ⟨nodes, rfl, spelled⟩
  have cut : Cut .overflow (Node.parse limit text) (.ok (.program nodes)) := by
    rw [Node.parse, scanned]
    exact derived.ofTokens_cut limit []
  refine ⟨cut, fun room => cut.eq ?_⟩
  -- Every token takes a character of the text at least, and the end is one more.
  obtain ⟨others, split, _, bound⟩ := Token.scan_split text.toList
  rw [Node.parse, Token.ofSource, split]
  refine Parse.ofTokens_ne_overflow _ ?_
  rw [List.length_append, List.length_singleton]
  rw [String.length_toList] at bound
  omega

/-- A well-formed program has one text, which it is written as under every limit high enough and
which parses to it again. -/
theorem WellFormed.printed (formed : WellFormed .program tree) :
    ∃ text, Reaches (Node.render · tree) text ∧
      (∀ limit, Cut .overflow (Node.render limit tree) (.ok text)) ∧
      (∀ limit, Cut .overflow (Node.parse limit text) (.ok tree)) ∧
      ∀ limit, text.length + 1 < limit → Node.parse limit text = .ok tree := by
  obtain ⟨text, reached, nodes, rfl, enclosed⟩ := formed.writes
  have cut := reached.cut fun limit more order => Node.render_cut order _
  have parsed := parse_prints enclosed.prints
  exact ⟨text, reached, cut, fun limit => (parsed limit).1, fun limit => (parsed limit).2⟩

/-- Whatever parses is well-formed. A well-formed program has a text that it is written as and that
parses to it, each unless its limit is too low. So the text of a program that was parsed parses
to that program again, and no two such programs have the same text. -/
theorem parse_render_inverse :
    (∀ limit source tree, Node.parse limit source = .ok tree → WellFormed .program tree) ∧
    (∀ tree, WellFormed .program tree → ∃ text,
      (∃ need, ∀ limit, need ≤ limit → Node.render limit tree = .ok text) ∧
      (∀ limit, Node.render limit tree = .error .overflow ∨ Node.render limit tree = .ok text) ∧
      (∀ limit, Node.parse limit text = .error .overflow ∨ Node.parse limit text = .ok tree) ∧
      ∀ limit, text.length + 1 < limit → Node.parse limit text = .ok tree) ∧
    (∀ limit source tree, Node.parse limit source = .ok tree →
      ∀ depth text, Node.render depth tree = .ok text →
        (∀ limit, Node.parse limit text ≠ .error .overflow → ∃ again,
          Node.parse limit text = .ok again ∧ again = tree ∧ Node.render depth again = .ok text) ∧
        ∀ limit, text.length + 1 < limit → Node.parse limit text ≠ .error .overflow) ∧
    ∀ limit source one, Node.parse limit source = .ok one →
      ∀ other change two, Node.parse other change = .ok two →
        ∀ depth height text, Node.render depth one = .ok text → Node.render height two = .ok text →
          one = two := by
  refine ⟨?_, ?_, ?_, ?_⟩
  · intro limit source tree read
    exact parse_wellFormed read
  · intro tree formed
    exact formed.printed
  · intro limit source tree read depth text written
    obtain ⟨own, _, rendered, parsed, roomy⟩ := (parse_wellFormed read).printed
    cases (rendered depth).eq_ok written
    refine ⟨fun limit finished => ?_, fun limit room => ?_⟩
    · exact ⟨tree, (parsed limit).eq finished, rfl, written⟩
    · simp [roomy limit room]
  · intro limit source one readOne other change two readTwo depth height text writtenOne writtenTwo
    obtain ⟨first, _, renderedOne, _, roomyOne⟩ := (parse_wellFormed readOne).printed
    obtain ⟨second, _, renderedTwo, _, roomyTwo⟩ := (parse_wellFormed readTwo).printed
    cases (renderedOne depth).eq_ok writtenOne
    cases (renderedTwo height).eq_ok writtenTwo
    have back := roomyOne (text.length + 2) (by omega)
    rw [roomyTwo (text.length + 2) (by omega)] at back
    exact (Except.ok.inj back).symm

/-- An index of a call behind an exclamation mark, a hash before a semicolon, and a block without
statements. -/
theorem parse_of_crowded_text :
    WellFormed .program (.program [.exprStmt (.ifElse
      (.unary .bang (.index (.call (.ident "f") [.str "a"]) (.ident "x")))
      (.block [.returnStmt (.hash [])]) (.block []))]) ∧
    Node.parse 50 "if ((!(f(\"a\")[x]))) \x7b return \x7b\x7d; \x7d else \x7b \x7d;" =
      .ok (.program [.exprStmt (.ifElse
        (.unary .bang (.index (.call (.ident "f") [.str "a"]) (.ident "x")))
        (.block [.returnStmt (.hash [])]) (.block []))]) := by
  have f : IsName "f" :=
    ⟨by decide, List.all_eq_true.mp (by decide), fun keyword => by cases keyword <;> decide⟩
  have x : IsName "x" :=
    ⟨by decide, List.all_eq_true.mp (by decide), fun keyword => by cases keyword <;> decide⟩
  have formed : WellFormed .program (.program [.exprStmt (.ifElse
      (.unary .bang (.index (.call (.ident "f") [.str "a"]) (.ident "x")))
      (.block [.returnStmt (.hash [])]) (.block []))]) := by
    have call : WellFormed .expression (.call (.ident "f") [.str "a"]) :=
      .call (.ident f) (List.forall_mem_singleton.mpr (.str (by decide)))
    have block : WellFormed .block (.block [.returnStmt (.hash [])]) :=
      .block (List.forall_mem_singleton.mpr (.returnStmt (.hash (by simp) (by simp))))
    exact .program (List.forall_mem_singleton.mpr
      (.exprStmt (.ifElse (.unary (by simp) (.index call (.ident x))) block (.block (by simp)))))
  obtain ⟨text, _, written, _, parsed⟩ := parse_render_inverse.2.1 _ formed
  have same := (written 9).resolve_left (by decide)
  cases same
  exact ⟨formed, parsed 50 (by decide)⟩

end Capuchin
