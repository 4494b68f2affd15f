import Capuchin.Proofs.Grammar.Respelling
import Capuchin.Proofs.Token.Scan
import Capuchin.Text.Newline

namespace Capuchin

def unified (text : String) : String :=
  String.ofList (unifyNewlines text.toList)

section Characters

variable {c : Char} {keep : Char → Bool}

theorem unifyNewlines_cons (other : c ≠ '\r') (rest : List Char) :
    unifyNewlines (c :: rest) = c :: unifyNewlines rest := by
  rw [unifyNewlines]
  all_goals simp_all

theorem unifyNewlines_return {rest : List Char} (alone : rest.head? ≠ some '\n') :
    unifyNewlines ('\r' :: rest) = '\n' :: unifyNewlines rest := by
  rw [unifyNewlines]
  rintro others rfl
  exact alone rfl

theorem unifyNewlines_eq_self {text : List Char} (plain : '\r' ∉ text) :
    unifyNewlines text = text := by
  induction text with
  | nil => rfl
  | cons c text ih =>
    obtain ⟨other, rest⟩ := not_or.mp (mt List.mem_cons.mpr plain)
    rw [unifyNewlines_cons (Ne.symm other), ih rest]

/-- Where both line ends are kept or both are not, a text is left at the same place. -/
theorem dropWhile_unifyNewlines (same : keep '\r' = keep '\n') (text : List Char) :
    (unifyNewlines text).dropWhile keep = unifyNewlines (text.dropWhile keep) := by
  fun_induction unifyNewlines text with
  | case1 rest ih => cases kept : keep '\n' <;> simp_all [unifyNewlines]
  | case2 rest alone ih => cases kept : keep '\n' <;> simp_all [unifyNewlines]
  | case3 c rest _ other ih => cases kept : keep c <;> simp_all [unifyNewlines_cons other]
  | case4 => rfl

theorem takeWhile_unifyNewlines (same : keep '\r' = keep '\n') (text : List Char) :
    (unifyNewlines text).takeWhile keep = unifyNewlines (text.takeWhile keep) := by
  fun_induction unifyNewlines text with
  | case1 rest ih => cases kept : keep '\n' <;> simp_all [unifyNewlines]
  | case2 rest alone ih =>
    have still : (rest.takeWhile keep).head? ≠ some '\n' := by
      cases rest with
      | nil => simp
      | cons next rest =>
        cases kept : keep next <;> simp_all
    cases kept : keep '\n'
    · simp_all [unifyNewlines]
    · simp_all [unifyNewlines_return still]
  | case3 c rest _ other ih =>
    cases kept : keep c
    · simp_all [unifyNewlines]
    · simp_all [unifyNewlines_cons other]
  | case4 => rfl

theorem takeWhile_unifyNewlines_eq (noReturn : keep '\r' = false) (noFeed : keep '\n' = false)
    (text : List Char) : (unifyNewlines text).takeWhile keep = text.takeWhile keep := by
  rw [takeWhile_unifyNewlines (noReturn.trans noFeed.symm), unifyNewlines_eq_self]
  intro member
  have kept := List.all_eq_true.mp List.all_takeWhile _ member
  rw [noReturn] at kept
  cases kept

end Characters

namespace Token

/-- What is left of a text with its line ends unified, after a token that is respelled. -/
def unify : Token × List Char → Token × List Char
  | (token, rest) => (token.respell unified, unifyNewlines rest)

theorem respell_ofWord (spell : String → String) (word : String) :
    (ofWord word).respell spell = ofWord word := by
  unfold ofWord
  split <;> rfl

theorem extended_unifyNewlines (short long : Mark) (rest : List Char) :
    Mark.extended short long (unifyNewlines rest) = unify (Mark.extended short long rest) := by
  by_cases equals : rest.head? = some '='
  · obtain ⟨others, rfl⟩ := List.head?_eq_some_iff.mp equals
    rw [unifyNewlines_cons (by decide)]
    rfl
  · have apart : (unifyNewlines rest).head? ≠ some '=' := by
      fun_cases unifyNewlines rest <;> simp_all
    rw [extended_short short long apart, extended_short short long equals]
    rfl

/-- The step lemma: a token ends where it ended before, and is respelled if it is a string. -/
theorem lexeme_unifyNewlines (first : Char) (rest : List Char) :
    lexeme first (unifyNewlines rest) = unify (lexeme first rest) := by
  unfold lexeme
  split
  · exact extended_unifyNewlines ..
  split
  · exact extended_unifyNewlines ..
  split
  · -- What is left begins with the closing quote, or there is nothing left.
    have closing := dropWhile_apart (· ≠ '"') rest
    rw [takeWhile_unifyNewlines rfl, dropWhile_unifyNewlines rfl]
    cases left : rest.dropWhile (· ≠ '"') with
    | nil => simp [unify, respell, unified, unifyNewlines]
    | cons quote others =>
      rw [left] at closing
      obtain rfl : quote = '"' := by simpa using closing quote rfl
      rw [unifyNewlines_cons (by decide)]
      simp [unify, respell, unified]
  split
  · rw [takeWhile_unifyNewlines_eq rfl rfl, dropWhile_unifyNewlines rfl]
    exact Prod.ext (respell_ofWord _ _).symm rfl
  split
  · rw [takeWhile_unifyNewlines_eq rfl rfl, dropWhile_unifyNewlines rfl]
    rfl
  split <;> rfl

/-- The run lemma: so does every token of a text. -/
theorem scan_unifyNewlines (text : List Char) :
    scan (unifyNewlines text) = (scan text).map (respell unified) := by
  induction text using scan.induct with
  | case1 text blanks =>
    rw [scan_eq, dropWhile_unifyNewlines rfl, scan_eq text, blanks]
    rfl
  | case2 text first rest blanks shorter ih =>
    have visible := dropWhile_apart isBlank text first (by rw [blanks]; rfl)
    have other : first ≠ '\r' := by
      rintro rfl
      cases visible
    rw [scan_eq, dropWhile_unifyNewlines rfl, scan_eq text, blanks, unifyNewlines_cons other]
    simp only [lexeme_unifyNewlines, List.map_cons]
    exact congrArg (_ :: ·) ih

end Token

/-- A text with unified line ends has the tokens of the text itself, but for the line ends inside
strings; so it has the same tree but for these, or is rejected for the same reason. -/
theorem newlines_respell_strings_only (source : String) :
    Token.ofSource (unified source) = (Token.ofSource source).map (Token.respell unified) ∧
    ∀ limit, Node.parse limit (unified source) =
      (Node.parse limit source).map (Node.respell unified) := by
  have tokens : Token.ofSource (unified source) =
      (Token.ofSource source).map (Token.respell unified) := by
    rw [Token.ofSource, unified, String.toList_ofList]
    exact Token.scan_unifyNewlines source.toList
  refine ⟨tokens, fun limit => ?_⟩
  rw [Node.parse, tokens]
  exact Parse.ofTokens_respell unified _

example : Token.ofSource (unified "a\r\n=\r\"b\r\nc\r\"") =
    [.ident "a", .mark .assign, .str "b\nc\n", .eof] := by
  cbv

end Capuchin
