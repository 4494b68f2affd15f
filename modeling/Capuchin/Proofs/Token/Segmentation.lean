import Capuchin.Proofs.Token.Scan
import Mathlib

namespace Capuchin

namespace Token

/-- Characters with which words, numbers, strings and marks begin. -/
def Begins (c : Char) : Prop :=
  isLetter c = true ∨ c.isDigit = true ∨ c = '"' ∨ ∃ mark : Mark, mark.text.toList.head? = some c

/-- How a token is written where `rest` follows. -/
inductive Written : Token → List Char → List Char → Prop where
  | ident (named : IsName name) (ends : ∀ c ∈ rest.head?, isLetter c = false) :
      Written (.ident name) name.toList rest
  | keyword (keyword : Keyword) (ends : ∀ c ∈ rest.head?, isLetter c = false) :
      Written (.keyword keyword) keyword.text.toList rest
  | int (nonempty : digits.toList ≠ []) (each : ∀ c ∈ digits.toList, c.isDigit = true)
      (ends : ∀ c ∈ rest.head?, c.isDigit = false) : Written (.int digits) digits.toList rest
  | str (plain : '"' ∉ text.toList) : Written (.str text) ('"' :: (text.toList ++ ['"'])) rest
  /-- Only the end of the text can stand for the closing quote. -/
  | unclosed (plain : '"' ∉ text.toList) : Written (.str text) ('"' :: text.toList) []
  | mark (mark : Mark) (alone : mark = .assign ∨ mark = .bang → rest.head? ≠ some '=') :
      Written (.mark mark) mark.text.toList rest
  | illegal (visible : isBlank c = false) (other : ¬ Begins c) : Written (.illegal c) [c] rest

end Token

/-- A token in a text, as it is written there, with the blanks before it. -/
@[ext]
structure Piece where
  gap : List Char
  text : List Char
  token : Token

def Piece.whole (piece : Piece) : List Char :=
  piece.gap ++ piece.text

/-- The source is these pieces and the blanks `last`: between tokens there are only blanks, and
every token is written as it has to be before what follows it. -/
structure Segmentation (source : List Char) (pieces : List Piece) (last : List Char) : Prop where
  whole : source = pieces.flatMap Piece.whole ++ last
  blank : ∀ gap ∈ last :: pieces.map Piece.gap, ∀ c ∈ gap, isBlank c = true
  written : ∀ before piece after, pieces = before ++ piece :: after →
    piece.token.Written piece.text (after.flatMap Piece.whole ++ last)

namespace Token

variable {text rest : List Char} {token : Token} {c : Char}

theorem ofWord_keyword (keyword : Keyword) : ofWord keyword.text = .keyword keyword := by
  cases keyword <;> rfl

theorem exists_mark_iff : (∃ mark : Mark, mark.text.toList.head? = some c) ↔
    c = '=' ∨ c = '!' ∨ ∃ sole, Mark.single? c = some sole := by
  constructor
  · rintro ⟨mark, head⟩
    cases mark <;> simp [Mark.text] at head <;> subst head <;> simp [Mark.single?]
  · rintro (rfl | rfl | ⟨sole, found⟩)
    · exact ⟨.assign, rfl⟩
    · exact ⟨.bang, rfl⟩
    · exact ⟨sole, by rw [(single?_text found).1]; rfl⟩

theorem lexeme_illegal (other : ¬ Begins c) (rest : List Char) :
    lexeme c rest = (.illegal c, rest) := by
  simp only [Begins, exists_mark_iff, not_or, not_exists, Bool.not_eq_true] at other
  obtain ⟨letter, digit, quote, equals, bang, single⟩ := other
  have none : Mark.single? c = none := Option.eq_none_iff_forall_ne_some.mpr single
  simp only [lexeme, letter, digit, quote, equals, bang, none, Bool.false_eq_true, if_false]

theorem Written.takes (written : token.Written text rest) : Takes text token rest := by
  cases written with
  | ident named ends =>
    have word := Takes.word named.2.1 named.1 ends
    rwa [String.ofList_toList, ofWord_name named] at word
  | keyword keyword ends =>
    have letters : ∀ c ∈ keyword.text.toList, isLetter c = true :=
      List.all_eq_true.mp (by cases keyword <;> decide)
    have word := Takes.word letters (by cases keyword <;> decide) ends
    rwa [String.ofList_toList, ofWord_keyword] at word
  | int nonempty each ends =>
    have number := Takes.number each nonempty ends
    rwa [String.ofList_toList] at number
  | str plain =>
    have string := Takes.str plain rest
    rwa [String.ofList_toList] at string
  | unclosed plain =>
    have string := Takes.unclosed plain
    rwa [String.ofList_toList] at string
  | mark mark alone =>
    cases mark with
    | assign => exact .assign (alone (.inl rfl))
    | bang => exact .bang (alone (.inr rfl))
    | eq => exact .eq rest
    | notEq => exact .notEq rest
    | _ => exact .mark rfl rest
  | @illegal c _ visible other => exact ⟨c, [], rfl, visible, lexeme_illegal other rest⟩

/-- The token that is read is written at the beginning of the text, before what is left. -/
def Splits (text : List Char) : Token × List Char → Prop
  | (token, rest) => ∃ taken, text = taken ++ rest ∧ token.Written taken rest

theorem extended_splits {short long : Mark} (one : short.text.toList = [c])
    (two : long.text.toList = [c, '=']) (long_ne : long ≠ .assign ∧ long ≠ .bang)
    (rest : List Char) : Splits (c :: rest) (Mark.extended short long rest) := by
  unfold Mark.extended
  split
  · refine ⟨[c, '='], rfl, ?_⟩
    rw [← two]
    exact .mark long fun either => (either.elim long_ne.1 long_ne.2).elim
  · rename_i apart
    refine ⟨[c], rfl, ?_⟩
    rw [← one]
    refine .mark short fun _ head => ?_
    obtain ⟨others, rfl⟩ := List.head?_eq_some_iff.mp head
    exact apart others rfl

theorem word_splits (letter : isLetter c = true) (rest : List Char) : Splits (c :: rest)
    (.ofWord (String.ofList (c :: rest.takeWhile isLetter)), rest.dropWhile isLetter) := by
  refine ⟨c :: rest.takeWhile isLetter, ?_, ?_⟩
  · rw [List.cons_append, List.takeWhile_append_dropWhile]
  · have ends := dropWhile_apart isLetter rest
    have lexical : (ofWord (String.ofList (c :: rest.takeWhile isLetter))).Lexical := by
      refine ofWord_lexical (List.cons_ne_nil _ _) fun other member => ?_
      rcases List.mem_cons.mp member with rfl | later
      · exact letter
      · exact List.all_eq_true.mp List.all_takeWhile other later
    revert lexical
    unfold ofWord
    split
    · rename_i reserved found
      intro _
      have same : reserved.text = String.ofList (c :: rest.takeWhile isLetter) :=
        beq_iff_eq.mp (List.find?_some (p := fun word : Keyword => word.text == _) found)
      have word := Written.keyword reserved ends
      rwa [same, String.toList_ofList] at word
    · intro named
      have word := Written.ident named ends
      rwa [String.toList_ofList] at word

theorem number_splits (digit : c.isDigit = true) (rest : List Char) : Splits (c :: rest)
    (.int (String.ofList (c :: rest.takeWhile Char.isDigit)), rest.dropWhile Char.isDigit) := by
  refine ⟨c :: rest.takeWhile Char.isDigit, ?_, ?_⟩
  · rw [List.cons_append, List.takeWhile_append_dropWhile]
  · have each : ∀ other ∈ c :: rest.takeWhile Char.isDigit, other.isDigit = true :=
      List.forall_mem_cons.mpr ⟨digit, List.all_eq_true.mp List.all_takeWhile⟩
    have number : Written (.int (String.ofList (c :: rest.takeWhile Char.isDigit)))
        (String.ofList (c :: rest.takeWhile Char.isDigit)).toList (rest.dropWhile Char.isDigit) :=
      .int (by simp) (by simpa using each) (dropWhile_apart Char.isDigit rest)
    rwa [String.toList_ofList] at number

theorem quote_splits (rest : List Char) : Splits ('"' :: rest)
    (.str (String.ofList (rest.takeWhile (· ≠ '"'))), (rest.dropWhile (· ≠ '"')).drop 1) := by
  have plain : '"' ∉ (String.ofList (rest.takeWhile (· ≠ '"'))).toList := by
    rw [String.toList_ofList]
    intro member
    simpa using List.all_eq_true.mp List.all_takeWhile _ member
  have whole := List.takeWhile_append_dropWhile (p := (· ≠ '"')) (l := rest)
  have quote := dropWhile_apart (· ≠ '"') rest
  cases left : rest.dropWhile (· ≠ '"') with
  | nil =>
    rw [left, List.append_nil] at whole
    refine ⟨'"' :: rest.takeWhile (· ≠ '"'), by rw [whole]; simp, ?_⟩
    have string := Written.unclosed plain
    rwa [String.toList_ofList] at string
  | cons last others =>
    rw [left] at whole quote
    obtain rfl : last = '"' := by simpa using quote last rfl
    refine ⟨'"' :: (rest.takeWhile (· ≠ '"') ++ ['"']), ?_, ?_⟩
    · rw [List.cons_append, List.append_assoc]
      exact congrArg _ whole.symm
    · have string : Written _ _ others := .str plain
      rwa [String.toList_ofList] at string

theorem lexeme_splits (visible : isBlank c = false) (rest : List Char) :
    Splits (c :: rest) (lexeme c rest) := by
  unfold lexeme
  split
  · rename_i equals
    subst equals
    exact extended_splits rfl rfl (by decide) rest
  split
  · rename_i bang
    subst bang
    exact extended_splits rfl rfl (by decide) rest
  split
  · rename_i quote
    subst quote
    exact quote_splits rest
  split
  · rename_i letter
    exact word_splits letter rest
  split
  · rename_i digit
    exact number_splits digit rest
  split
  · rename_i sole found
    obtain ⟨one, apart⟩ := single?_text found
    refine ⟨[c], rfl, ?_⟩
    rw [← one]
    refine .mark sole fun either => absurd ?_ apart
    rcases either with rfl | rfl <;> simp
  · rename_i equals bang quote letter digit _ none
    refine ⟨[c], rfl, .illegal visible ?_⟩
    simp [Begins, exists_mark_iff, equals, bang, quote, letter, digit, none]

/-- Two tokens that are taken from one text are the same, and so is how they are written. -/
theorem Takes.unique {other : List Char} {second : Token} {left : List Char}
    (one : Takes text token rest) (two : Takes other second left)
    (same : text ++ rest = other ++ left) : text = other ∧ token = second ∧ rest = left := by
  obtain ⟨first, more, rfl, _, taken⟩ := one
  obtain ⟨first', more', rfl, _, taken'⟩ := two
  obtain ⟨rfl, tails⟩ : first = first' ∧ more ++ rest = more' ++ left := List.cons.inj same
  rw [tails, taken'] at taken
  cases taken
  exact ⟨List.append_cancel_right same, rfl, rfl⟩

/-- Before a token there are no more blanks than the text begins with. -/
theorem Takes.takeWhile_isBlank {gap : List Char} (takes : Takes text token rest)
    (blank : ∀ c ∈ gap, isBlank c = true) :
    (gap ++ (text ++ rest)).takeWhile isBlank = gap := by
  obtain ⟨first, more, rfl, visible, _⟩ := takes
  exact takeWhile_delimited isBlank blank (by simpa using visible)

theorem scan_blanks {gap : List Char} (blank : ∀ c ∈ gap, isBlank c = true) (rest : List Char) :
    scan (gap ++ rest) = scan rest := by
  rw [scan_eq, scan_eq rest, List.dropWhile_append_of_pos blank]

end Token

namespace Segmentation

variable {source last final : List Char} {piece : Piece} {pieces others : List Piece}

theorem nil_iff : Segmentation source [] last ↔ source = last ∧ ∀ c ∈ last, isBlank c = true := by
  constructor
  · intro segmented
    exact ⟨segmented.whole, segmented.blank last (by simp)⟩
  · rintro ⟨rfl, blank⟩
    exact ⟨rfl, by simpa using blank, by simp⟩

/-- A text is segmented token by token, from its beginning. -/
theorem cons_iff : Segmentation source (piece :: pieces) last ↔
    (∀ c ∈ piece.gap, isBlank c = true) ∧ ∃ rest, source = piece.gap ++ (piece.text ++ rest) ∧
      piece.token.Written piece.text rest ∧ Segmentation rest pieces last := by
  constructor
  · rintro ⟨whole, blank, written⟩
    refine ⟨blank piece.gap (by simp), pieces.flatMap Piece.whole ++ last, ?_,
      written [] piece pieces rfl, rfl, ?_, ?_⟩
    · rw [whole, List.flatMap_cons, Piece.whole, List.append_assoc, List.append_assoc]
    · simp only [List.map_cons, List.forall_mem_cons] at blank
      exact List.forall_mem_cons.mpr ⟨blank.1, blank.2.2⟩
    · rintro before next after rfl
      exact written (piece :: before) next after rfl
  · rintro ⟨gap, rest, rfl, first, ⟨rfl, blank, written⟩⟩
    refine ⟨?_, ?_, ?_⟩
    · rw [List.flatMap_cons, Piece.whole, List.append_assoc, List.append_assoc]
    · simp only [List.map_cons, List.forall_mem_cons] at blank ⊢
      exact ⟨blank.1, gap, blank.2⟩
    · intro before next after split
      rcases List.cons_eq_append_iff.mp split with ⟨rfl, here⟩ | ⟨before, rfl, later⟩
      · obtain ⟨rfl, rfl⟩ := List.cons.inj here
        exact first
      · exact written before next after later

/-- A text is scanned as it is segmented. -/
theorem scan (segmented : Segmentation source pieces last) :
    Token.scan source = pieces.map Piece.token ++ [.eof] := by
  induction pieces generalizing source with
  | nil =>
    obtain ⟨rfl, blank⟩ := nil_iff.mp segmented
    rw [← source.append_nil, Token.scan_blanks blank, Token.scan_eq]
    rfl
  | cons piece pieces ih =>
    obtain ⟨gap, rest, rfl, written, later⟩ := cons_iff.mp segmented
    rw [Token.scan_blanks gap, written.takes.scan, ih later]
    rfl

theorem unique (one : Segmentation source pieces last) (two : Segmentation source others final) :
    others = pieces ∧ final = last := by
  -- Both ways to segment a text have the tokens it is scanned to, so they end together.
  have count : pieces.length = others.length := by
    simpa using congrArg List.length (one.scan.symm.trans two.scan)
  induction pieces generalizing source others with
  | nil =>
    obtain rfl : others = [] := List.length_eq_zero_iff.mp count.symm
    exact ⟨rfl, (nil_iff.mp two).1.symm.trans (nil_iff.mp one).1⟩
  | cons piece pieces ih =>
    obtain ⟨other, others, rfl⟩ := List.exists_cons_of_length_eq_add_one count.symm
    obtain ⟨gap, rest, whole, written, later⟩ := cons_iff.mp one
    obtain ⟨gap', rest', whole', written', later'⟩ := cons_iff.mp two
    have gaps : piece.gap = other.gap := by
      rw [← written.takes.takeWhile_isBlank gap, ← whole, whole',
        written'.takes.takeWhile_isBlank gap']
    rw [whole, gaps] at whole'
    obtain ⟨texts, tokens, rfl⟩ :=
      written.takes.unique written'.takes (List.append_cancel_left whole')
    obtain ⟨rfl, rfl⟩ := ih later later' (Nat.succ.inj count)
    exact ⟨congrArg (· :: _) (Piece.ext gaps texts tokens).symm, rfl⟩

end Segmentation

theorem exists_segmentation (source : List Char) :
    ∃ pieces last, Segmentation source pieces last := by
  induction source using Token.scan.induct with
  | case1 source blanks =>
    refine ⟨[], source.takeWhile isBlank, Segmentation.nil_iff.mpr ⟨?_, ?_⟩⟩
    · simpa [blanks] using (List.takeWhile_append_dropWhile (p := isBlank) (l := source)).symm
    · exact List.all_eq_true.mp List.all_takeWhile
  | case2 source first rest blanks shorter ih =>
    obtain ⟨pieces, last, later⟩ := ih
    have visible : isBlank first = false :=
      Token.dropWhile_apart isBlank source first (by rw [blanks]; rfl)
    obtain ⟨taken, split, written⟩ := Token.lexeme_splits visible rest
    refine ⟨⟨source.takeWhile isBlank, taken, (Token.lexeme first rest).1⟩ :: pieces, last, ?_⟩
    refine Segmentation.cons_iff.mpr ⟨?_, _, ?_, written, later⟩
    · exact List.all_eq_true.mp List.all_takeWhile
    · rw [← split, ← blanks, List.takeWhile_append_dropWhile]

/-- A source is scanned to the tokens of the one way there is to segment it, and then the end. -/
theorem ofSource_segmentation (source : String) : ∃ pieces last,
    Segmentation source.toList pieces last ∧
      Token.ofSource source = pieces.map Piece.token ++ [.eof] ∧
      Token.eof ∉ pieces.map Piece.token ∧
      ∀ others final, Segmentation source.toList others final → others = pieces ∧ final = last := by
  obtain ⟨pieces, last, segmented⟩ := exists_segmentation source.toList
  exact ⟨pieces, last, segmented, segmented.scan, Token.eof_notMem_of_scan segmented.scan,
    fun _ _ other => segmented.unique other⟩

example : Token.ofSource "a==!\x00 \"b " =
    [.ident "a", .mark .eq, .mark .bang, .illegal '\x00', .str "b ", .eof] := by
  cbv

end Capuchin
