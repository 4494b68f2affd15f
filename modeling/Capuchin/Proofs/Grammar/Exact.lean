import Capuchin.Proofs.Grammar.Complete
import Capuchin.Proofs.Grammar.Sound
import Capuchin.Proofs.Limit.Reading

namespace Capuchin.Grammar

open Parse

theorem Program.ofTokens_cut (derived : Program tokens tree) (limit : Nat) (rest : List Token) :
    Cut .overflow (Node.ofTokens limit (tokens ++ .eof :: rest)) (.ok tree) := by
  refine (derived.read rest).cut (fun limit more order => ?_) limit
  exact Parse.ofTokens_cut order _

theorem Program.unique (first : Program tokens one) (second : Program tokens two) : one = two := by
  obtain ⟨need, readFirst⟩ := first.read []
  obtain ⟨other, readSecond⟩ := second.read []
  have left := readFirst (need + other) (by omega)
  have right := readSecond (need + other) (by omega)
  exact Except.ok.inj (left.symm.trans right)

/-- Tokens up to the first end mark are read as a program exactly if they derive it, whenever the
limit does not cut the reading off; no limit above the number of tokens does, and no tokens
derive two programs. -/
theorem ofTokens_eq_ok_iff_program (tokens rest : List Token) (only : .eof ∉ tokens) :
    (∀ limit, Node.ofTokens limit (tokens ++ .eof :: rest) ≠ .error .overflow →
      ∀ tree, Node.ofTokens limit (tokens ++ .eof :: rest) = .ok tree ↔ Program tokens tree) ∧
    (∀ limit, (tokens ++ .eof :: rest).length < limit →
      Node.ofTokens limit (tokens ++ .eof :: rest) ≠ .error .overflow) ∧
    ∀ one two, Program tokens one → Program tokens two → one = two := by
  refine ⟨?_, ?_, ?_⟩
  · intro limit finished tree
    constructor
    · exact program_of_ofTokens only
    · intro derived
      exact (derived.ofTokens_cut limit rest).eq finished
  · intro limit room
    exact ofTokens_ne_overflow _ room
  · intro one two first second
    exact first.unique second

/-- Adjacent statements without semicolons, a mixed chain of operators, calls and indexes, and a
comma at the end of a hash. -/
theorem program_of_mixed_chain :
    Token.eof ∉ [.ident "a", .mark .minus, .ident "b", .mark .lparen, .ident "c", .mark .rparen,
      .mark .lbracket, .int "0", .mark .rbracket, .mark .asterisk, .mark .bang, .ident "d",
      .keyword .returnWord, .mark .lbrace, .ident "k", .mark .colon, .str "v", .mark .comma,
      .mark .rbrace] ∧
    Program [.ident "a", .mark .minus, .ident "b", .mark .lparen, .ident "c", .mark .rparen,
      .mark .lbracket, .int "0", .mark .rbracket, .mark .asterisk, .mark .bang, .ident "d",
      .keyword .returnWord, .mark .lbrace, .ident "k", .mark .colon, .str "v", .mark .comma,
      .mark .rbrace]
      (.program [
        .exprStmt (.binary (.ident "a") .minus
          (.binary (.index (.call (.ident "b") [.ident "c"]) (.int (Decimal.read "0"))) .times
            (.unary .bang (.ident "d")))),
        .returnStmt (.hash [(.ident "k", .str "v")])]) := by
  have both := ofTokens_eq_ok_iff_program
    [.ident "a", .mark .minus, .ident "b", .mark .lparen, .ident "c", .mark .rparen,
      .mark .lbracket, .int "0", .mark .rbracket, .mark .asterisk, .mark .bang, .ident "d",
      .keyword .returnWord, .mark .lbrace, .ident "k", .mark .colon, .str "v", .mark .comma,
      .mark .rbrace] [] (by decide)
  exact ⟨by decide, (both.1 30 (both.2.1 30 (by decide)) _).mp rfl⟩

end Capuchin.Grammar
