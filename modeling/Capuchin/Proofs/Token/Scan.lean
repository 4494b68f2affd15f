import Capuchin.Token.Scan

namespace Capuchin

namespace Token

theorem scan_eq (text : List Char) : scan text =
    match text.dropWhile isBlank with
    | [] => [.eof]
    | first :: rest => (lexeme first rest).1 :: scan (lexeme first rest).2 := by
  rw [scan.eq_def]
  split <;> rename_i blanks <;> simp only [blanks]

theorem scan_blank (blank : isBlank c = true) (rest : List Char) : scan (c :: rest) = scan rest := by
  rw [scan_eq, scan_eq rest, List.dropWhile_cons_of_pos blank]

theorem scan_lexeme (visible : isBlank c = false) (rest : List Char) :
    scan (c :: rest) = (lexeme c rest).1 :: scan (lexeme c rest).2 := by
  rw [scan_eq, List.dropWhile_cons_of_neg (by simp [visible])]

end Token

/-- Names that a source text can write. -/
def IsName (name : String) : Prop :=
  name.toList ≠ [] ∧ (∀ c ∈ name.toList, isLetter c = true) ∧
    ∀ keyword : Keyword, name ≠ keyword.text

namespace Token

/-- What scanning promises of a token's text. -/
def Lexical : Token → Prop
  | ident name => IsName name
  | str text => '"' ∉ text.toList
  | eof => False
  | _ => True

theorem ofWord_lexical {word : List Char} (nonempty : word ≠ [])
    (letters : ∀ c ∈ word, isLetter c = true) : (ofWord (String.ofList word)).Lexical := by
  unfold ofWord
  split
  · trivial
  · rename_i free
    refine ⟨by simpa using nonempty, by simpa using letters, ?_⟩
    intro keyword same
    have different := List.find?_eq_none.mp free keyword keyword.mem_all
    simp [same] at different

theorem ofWord_name (named : IsName name) : ofWord name = .ident name := by
  have free : Keyword.all.find? (·.text == name) = none := by
    apply List.find?_eq_none.mpr
    intro keyword _ same
    exact named.2.2 keyword (beq_iff_eq.mp same).symm
  rw [ofWord, free]

theorem lexeme_lexical (first : Char) (rest : List Char) : (lexeme first rest).1.Lexical := by
  have extended (short long : Mark) : (Mark.extended short long rest).1.Lexical := by
    unfold Mark.extended
    split <;> trivial
  unfold lexeme
  split
  · exact extended ..
  split
  · exact extended ..
  split
  · intro member
    rw [String.toList_ofList] at member
    simpa using List.all_eq_true.mp List.all_takeWhile _ member
  split
  · rename_i letter
    apply ofWord_lexical (by simp)
    intro c member
    rcases List.mem_cons.mp member with rfl | later
    · exact letter
    · exact List.all_eq_true.mp List.all_takeWhile c later
  split
  · trivial
  split <;> trivial

/-- A text has tokens whose texts are as promised, no more than it has characters, and then the
end. -/
theorem scan_split (text : List Char) :
    ∃ tokens, scan text = tokens ++ [Token.eof] ∧ (∀ token ∈ tokens, token.Lexical) ∧
      tokens.length ≤ text.length := by
  induction text using scan.induct with
  | case1 text blanks =>
    refine ⟨[], ?_, by simp, by simp⟩
    rw [scan_eq, blanks]
    rfl
  | case2 text first rest blanks shorter ih =>
    obtain ⟨tokens, scanned, lexical, bound⟩ := ih
    refine ⟨(lexeme first rest).1 :: tokens, ?_, ?_, ?_⟩
    · rw [scan_eq, blanks, List.cons_append, ← scanned]
    · intro token member
      rcases List.mem_cons.mp member with rfl | later
      · exact lexeme_lexical first rest
      · exact lexical token later
    · simp only [List.length_cons]
      omega

/-- The end is the last token and no other. -/
theorem eof_notMem_of_scan {tokens : List Token} (ends : scan text = tokens ++ [Token.eof]) :
    Token.eof ∉ tokens := by
  obtain ⟨all, scanned, lexical, _⟩ := scan_split text
  rw [ends] at scanned
  obtain ⟨rfl, _⟩ := List.append_inj' scanned rfl
  exact fun member => lexical .eof member

section Boundaries

variable {text more rest : List Char} {tokens others : List Token} {c : Char}

/-- A text that goes on with no word, number, `=` or `!` before it. -/
def Delimited (rest : List Char) : Prop :=
  ∀ c ∈ rest.head?, isLetter c = false ∧ c.isDigit = false ∧ c ≠ '='

/-- The text has these tokens wherever a delimited text follows it. -/
def Scans (text : List Char) (tokens : List Token) : Prop :=
  ∀ rest, Delimited rest → scan (text ++ rest) = tokens ++ scan rest

/-- The text has these tokens whatever follows it. -/
def Seals (text : List Char) (tokens : List Token) : Prop :=
  ∀ rest, scan (text ++ rest) = tokens ++ scan rest

theorem Seals.nil : Seals [] [] :=
  fun _ => rfl

theorem Seals.scans (sealed : Seals text tokens) : Scans text tokens :=
  fun rest _ => sealed rest

theorem Seals.append (first : Seals text tokens) (second : Seals more others) :
    Seals (text ++ more) (tokens ++ others) := by
  intro rest
  rw [List.append_assoc, first, second, List.append_assoc]

theorem Seals.append_scans (first : Seals text tokens) (second : Scans more others) :
    Scans (text ++ more) (tokens ++ others) := by
  intro rest delimited
  rw [List.append_assoc, first, second rest delimited, List.append_assoc]

/-- A text that begins with a delimiter may follow. -/
theorem Scans.append_seals (first : Scans text tokens) (second : Seals (c :: more) others)
    (delimited : Delimited [c]) : Seals (text ++ c :: more) (tokens ++ others) := by
  intro rest
  rw [List.append_assoc, first _ (by simpa [Delimited] using delimited), second, List.append_assoc]

theorem Seals.blank (blank : isBlank c = true) : Seals [c] [] :=
  fun rest => scan_blank blank rest

/-- Where `rest` follows, a scanner takes just this text, and takes it as this token. -/
def Takes (text : List Char) (token : Token) (rest : List Char) : Prop :=
  ∃ first others, text = first :: others ∧ isBlank first = false ∧
    lexeme first (others ++ rest) = (token, rest)

theorem Takes.scan {token : Token} (takes : Takes text token rest) :
    scan (text ++ rest) = token :: scan rest := by
  obtain ⟨first, others, rfl, visible, taken⟩ := takes
  rw [List.cons_append, scan_lexeme visible, taken]

theorem Takes.mark {sole : Mark} (found : Mark.single? c = some sole) (rest : List Char) :
    Takes [c] (.mark sole) rest := by
  have cut : isBlank c = false ∧ lexeme c rest = (.mark sole, rest) := by
    unfold Mark.single? at found
    split at found <;> cases found <;> exact ⟨rfl, rfl⟩
  exact ⟨c, [], rfl, cut⟩

theorem Takes.eq (rest : List Char) : Takes ['=', '='] (.mark .eq) rest :=
  ⟨'=', ['='], rfl, rfl, rfl⟩

theorem Takes.notEq (rest : List Char) : Takes ['!', '='] (.mark .notEq) rest :=
  ⟨'!', ['='], rfl, rfl, rfl⟩

/-- A sign alone is not taken together with what follows, unless that is an equals sign. -/
theorem extended_short (short long : Mark) (apart : rest.head? ≠ some '=') :
    Mark.extended short long rest = (.mark short, rest) := by
  unfold Mark.extended
  split
  · simp at apart
  · rfl

theorem Takes.bang (apart : rest.head? ≠ some '=') : Takes ['!'] (.mark .bang) rest := by
  refine ⟨'!', [], rfl, rfl, ?_⟩
  simp only [lexeme, Char.reduceEq, if_false, if_true, List.nil_append, extended_short _ _ apart]

theorem Takes.assign (apart : rest.head? ≠ some '=') : Takes ['='] (.mark .assign) rest := by
  refine ⟨'=', [], rfl, rfl, ?_⟩
  simp only [lexeme, if_true, List.nil_append, extended_short _ _ apart]

theorem takeWhile_delimited (keep : Char → Bool) (whole : ∀ c ∈ text, keep c = true)
    (apart : ∀ c ∈ rest.head?, keep c = false) : (text ++ rest).takeWhile keep = text := by
  rw [List.takeWhile_append_of_pos whole]
  cases rest with
  | nil => simp
  | cons c rest => simp [apart c rfl]

theorem dropWhile_delimited (keep : Char → Bool) (whole : ∀ c ∈ text, keep c = true)
    (apart : ∀ c ∈ rest.head?, keep c = false) : (text ++ rest).dropWhile keep = rest := by
  rw [List.dropWhile_append_of_pos whole]
  cases rest with
  | nil => simp
  | cons c rest => simp [apart c rfl]

theorem dropWhile_apart (keep : Char → Bool) (text : List Char) :
    ∀ c ∈ (text.dropWhile keep).head?, keep c = false := by
  intro c head
  have stopped := List.head?_dropWhile_not keep text
  rw [Option.mem_def.mp head] at stopped
  simpa using stopped

/-- Characters of a class without blanks, signs and quotes begin no other token. -/
private theorem begins_class {keep : Char → Bool} (kept : keep c = true)
    (others : [' ', '\t', '\n', '\r', '=', '!', '"'].any keep = false) :
    isBlank c = false ∧ c ≠ '=' ∧ c ≠ '!' ∧ c ≠ '"' := by
  have outside (other : Char) (member : other ∈ [' ', '\t', '\n', '\r', '=', '!', '"']) :
      c ≠ other := by
    rintro rfl
    exact absurd kept (List.any_eq_false.mp others c member)
  simp only [isBlank, Bool.or_eq_false_iff, decide_eq_false_iff_not]
  exact ⟨⟨⟨⟨outside _ (by simp), outside _ (by simp)⟩, outside _ (by simp)⟩, outside _ (by simp)⟩,
    outside _ (by simp), outside _ (by simp), outside _ (by simp)⟩

theorem Takes.word (letters : ∀ c ∈ text, isLetter c = true) (nonempty : text ≠ [])
    (apart : ∀ c ∈ rest.head?, isLetter c = false) :
    Takes text (.ofWord (String.ofList text)) rest := by
  cases text with
  | nil => exact absurd rfl nonempty
  | cons first text =>
    have letter := letters first (by simp)
    have others : ∀ c ∈ text, isLetter c = true := fun c member => letters c (by simp [member])
    have visible := begins_class letter (by decide)
    refine ⟨first, text, rfl, visible.1, ?_⟩
    simp only [lexeme, visible, letter, if_true, if_false, takeWhile_delimited _ others apart,
      dropWhile_delimited _ others apart]

theorem isLetter_of_isDigit (digit : c.isDigit = true) : isLetter c = false := by
  simp only [isLetter, Bool.or_eq_false_iff, decide_eq_false_iff_not]
  refine ⟨?_, by rintro rfl; cases digit⟩
  delta Char.isAlpha Char.isUpper Char.isLower
  delta Char.isDigit at digit
  simp only [ge_iff_le, Bool.and_eq_true, decide_eq_true_eq, Bool.or_eq_false_iff,
    Bool.and_eq_false_iff, decide_eq_false_iff_not, UInt32.le_iff_toNat_le] at digit ⊢
  have bound := digit.2
  simp at bound ⊢
  omega

theorem Takes.number (digits : ∀ c ∈ text, c.isDigit = true) (nonempty : text ≠ [])
    (apart : ∀ c ∈ rest.head?, c.isDigit = false) :
    Takes text (.int (String.ofList text)) rest := by
  cases text with
  | nil => exact absurd rfl nonempty
  | cons first text =>
    have digit := digits first (by simp)
    have others : ∀ c ∈ text, c.isDigit = true := fun c member => digits c (by simp [member])
    have visible := begins_class digit (by decide)
    refine ⟨first, text, rfl, visible.1, ?_⟩
    simp only [lexeme, visible, isLetter_of_isDigit digit, digit, Bool.false_eq_true, if_true,
      if_false, takeWhile_delimited _ others apart, dropWhile_delimited _ others apart]

/-- A string reaches to the next quote or else to the end of the text. -/
theorem lexeme_quote (plain : '"' ∉ text) (closed : ∀ c ∈ rest.head?, c = '"') :
    lexeme '"' (text ++ rest) = (.str (String.ofList text), rest.drop 1) := by
  have kept : ∀ c ∈ text, decide (c ≠ '"') = true := by
    intro c member
    simp only [ne_eq, decide_eq_true_eq]
    rintro rfl
    exact plain member
  have apart : ∀ c ∈ rest.head?, decide (c ≠ '"') = false := by simpa using closed
  simp only [lexeme, Char.reduceEq, if_true, if_false, takeWhile_delimited _ kept apart,
    dropWhile_delimited _ kept apart]

theorem Takes.str (plain : '"' ∉ text) (rest : List Char) :
    Takes ('"' :: (text ++ ['"'])) (.str (String.ofList text)) rest := by
  refine ⟨'"', text ++ ['"'], rfl, rfl, ?_⟩
  rw [List.append_assoc, List.singleton_append, lexeme_quote plain (by simp)]
  rfl

theorem Takes.unclosed (plain : '"' ∉ text) :
    Takes ('"' :: text) (.str (String.ofList text)) [] :=
  ⟨'"', text, rfl, rfl, lexeme_quote plain (by simp)⟩

theorem Seals.mark {sole : Mark} (found : Mark.single? c = some sole) : Seals [c] [.mark sole] :=
  fun rest => (Takes.mark found rest).scan

theorem Seals.eq : Seals ['=', '='] [.mark .eq] :=
  fun rest => (Takes.eq rest).scan

theorem Seals.notEq : Seals ['!', '='] [.mark .notEq] :=
  fun rest => (Takes.notEq rest).scan

theorem Seals.str (plain : '"' ∉ text) :
    Seals ('"' :: (text ++ ['"'])) [.str (String.ofList text)] :=
  fun rest => (Takes.str plain rest).scan

theorem scan_bang (apart : rest.head? ≠ some '=') :
    scan ('!' :: rest) = .mark .bang :: scan rest :=
  (Takes.bang apart).scan

theorem Scans.assign : Scans ['='] [.mark .assign] :=
  fun _ delimited => (Takes.assign fun same => (delimited '=' (by simp [same])).2.2 rfl).scan

theorem Scans.word (letters : ∀ c ∈ text, isLetter c = true) (nonempty : text ≠ []) :
    Scans text [.ofWord (String.ofList text)] :=
  fun _ delimited => (Takes.word letters nonempty fun c member => (delimited c member).1).scan

theorem Scans.number (digits : ∀ c ∈ text, c.isDigit = true) (nonempty : text ≠ []) :
    Scans text [.int (String.ofList text)] :=
  fun _ delimited => (Takes.number digits nonempty fun c member => (delimited c member).2.1).scan

end Boundaries

section Ends

variable {text rest : List Char} {tokens : List Token} {first c : Char} {keep : Char → Bool}

theorem takeWhile_short (left : text.dropWhile keep ≠ []) (more : List Char) :
    (text ++ more).takeWhile keep = text.takeWhile keep := by
  have whole := congrArg List.length (List.takeWhile_append_dropWhile (p := keep) (l := text))
  have some := List.length_pos_iff.mpr left
  rw [List.length_append] at whole
  rw [List.takeWhile_append, if_neg (by omega)]

theorem dropWhile_short (left : text.dropWhile keep ≠ []) (more : List Char) :
    (text ++ more).dropWhile keep = text.dropWhile keep ++ more := by
  rw [List.dropWhile_append, if_neg (by simpa using left)]

theorem extended_append {short long : Mark} (left : (Mark.extended short long rest).2 ≠ [])
    (more : List Char) : Mark.extended short long (rest ++ more) =
      ((Mark.extended short long rest).1, (Mark.extended short long rest).2 ++ more) := by
  cases rest with
  | nil => exact absurd rfl left
  | cons c rest =>
    by_cases equals : c = '='
    · subst equals
      rfl
    · have apart (others : List Char) : (c :: others).head? ≠ some '=' := by simpa using equals
      rw [extended_short short long (apart rest), List.cons_append,
        extended_short short long (apart _)]

/-- A token that does not reach to the end of a text is the same whatever follows the text. -/
theorem lexeme_append (left : (lexeme first rest).2 ≠ []) (more : List Char) :
    lexeme first (rest ++ more) = ((lexeme first rest).1, (lexeme first rest).2 ++ more) := by
  revert left
  unfold lexeme
  split
  · exact fun left => extended_append left more
  split
  · exact fun left => extended_append left more
  split
  · intro left
    have closed : rest.dropWhile (· ≠ '"') ≠ [] := by
      intro empty
      rw [empty] at left
      exact left rfl
    rw [takeWhile_short closed, dropWhile_short closed,
      List.drop_append_of_le_length (List.length_pos_iff.mpr closed)]
  split
  · intro left
    rw [takeWhile_short left, dropWhile_short left]
  split
  · intro left
    rw [takeWhile_short left, dropWhile_short left]
  split <;> exact fun _ => rfl

/-- A mark of one character is that character. -/
theorem single?_text {sole : Mark} (found : Mark.single? c = some sole) :
    sole.text.toList = [c] ∧ sole ∉ [.assign, .eq, .bang, .notEq] := by
  unfold Mark.single? at found
  split at found <;> cases found <;> decide

/-- A mark of one character is written by that character only. -/
theorem lexeme_single {mark : Mark} (sole : Mark.single? c = some mark)
    (found : (lexeme first rest).1 = .mark mark) : first = c := by
  obtain ⟨written, apart⟩ := single?_text sole
  have extended {short long : Mark} (given : mark ∉ [short, long]) :
      (Mark.extended short long rest).1 ≠ .mark mark := by
    unfold Mark.extended
    split <;> simp_all [eq_comm]
  simp only [List.mem_cons, List.not_mem_nil, or_false, not_or] at apart extended
  unfold lexeme at found
  split at found
  · exact absurd found (extended ⟨apart.1, apart.2.1⟩)
  split at found
  · exact absurd found (extended apart.2.2)
  split at found
  · cases found
  split at found
  · unfold ofWord at found
    split at found <;> cases found
  split at found
  · cases found
  split at found
  · rename_i single
    cases found
    rw [(single?_text single).1] at written
    exact (List.cons.inj written).1
  · cases found

/-- A text without tokens can stand before any text. -/
theorem seals_blanks (blank : scan text = [.eof]) : Seals text [] := by
  have blanks : text.dropWhile isBlank = [] := by
    rw [scan_eq] at blank
    cases found : text.dropWhile isBlank with
    | nil => rfl
    | cons first rest =>
      rw [found] at blank
      have lexical := lexeme_lexical first rest
      rw [(List.cons.inj blank).1] at lexical
      cases lexical
  intro more
  rw [scan_eq, scan_eq more, List.dropWhile_append, if_pos (by simp [blanks]), List.nil_append]

/-- A text whose last token is a mark of one character has its tokens whatever follows it. -/
theorem seals_of_mark {mark : Mark} (sole : Mark.single? c = some mark)
    (ends : scan text = tokens ++ [Token.mark mark, .eof]) :
    Seals text (tokens ++ [Token.mark mark]) := by
  induction text using scan.induct generalizing tokens with
  | case1 text blanks =>
    rw [scan_eq, blanks] at ends
    simpa using congrArg List.length ends
  | case2 text first rest blanks shorter ih =>
    intro more
    have visible : text.dropWhile isBlank ≠ [] := by simp [blanks]
    rw [scan_eq, blanks] at ends
    rw [scan_eq, dropWhile_short visible, blanks, List.cons_append]
    cases tokens with
    | nil =>
      obtain ⟨found, others⟩ := List.cons.inj ends
      obtain rfl := lexeme_single sole found
      have taken (rest : List Char) : lexeme first rest = (.mark mark, rest) := by
        obtain ⟨_, _, same, _, taken⟩ := Takes.mark sole rest
        cases same
        exact taken
      simp only [taken] at others ⊢
      exact congrArg _ (seals_blanks others more)
    | cons token tokens =>
      obtain ⟨found, others⟩ := List.cons.inj ends
      have left : (lexeme first rest).2 ≠ [] := by
        intro empty
        rw [empty, scan_eq] at others
        simpa using congrArg List.length others
      simp only [lexeme_append left, found, ih others more, List.cons_append]

end Ends

end Token

end Capuchin
