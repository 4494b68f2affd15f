import Capuchin.Token.Basic

namespace Capuchin

/-- Space, tab, line feed and carriage return. -/
def isBlank (c : Char) : Bool :=
  c = ' ' || c = '\t' || c = '\n' || c = '\r'

/-- Characters of words: ASCII letters and the underscore. -/
def isLetter (c : Char) : Bool :=
  c.isAlpha || c = '_'

/-- Marks of one character that no second character can extend. -/
def Mark.single? : Char → Option Mark
  | '+' => some .plus
  | '-' => some .minus
  | '*' => some .asterisk
  | '/' => some .slash
  | '<' => some .lt
  | '>' => some .gt
  | ',' => some .comma
  | ':' => some .colon
  | ';' => some .semicolon
  | '(' => some .lparen
  | ')' => some .rparen
  | '\x7b' => some .lbrace
  | '\x7d' => some .rbrace
  | '[' => some .lbracket
  | ']' => some .rbracket
  | _ => none

/-- The mark `long` if an equals sign follows, which it takes along, and `short` otherwise. -/
def Mark.extended (short long : Mark) : List Char → Token × List Char
  | '=' :: rest => (.mark long, rest)
  | rest => (.mark short, rest)

/-- The token that begins with the nonblank `first`, and the text after it. -/
def Token.lexeme (first : Char) (rest : List Char) : Token × List Char :=
  if first = '=' then Mark.extended .assign .eq rest
  else if first = '!' then Mark.extended .bang .notEq rest
  else if first = '"' then
    (.str (String.ofList (rest.takeWhile (· ≠ '"'))), (rest.dropWhile (· ≠ '"')).drop 1)
  else if isLetter first then
    (.ofWord (String.ofList (first :: rest.takeWhile isLetter)), rest.dropWhile isLetter)
  else if first.isDigit then
    (.int (String.ofList (first :: rest.takeWhile Char.isDigit)), rest.dropWhile Char.isDigit)
  else match Mark.single? first with
    | some sole => (.mark sole, rest)
    | none => (.illegal first, rest)

private theorem dropWhile_length (keep : Char → Bool) (text : List Char) :
    (text.dropWhile keep).length ≤ text.length :=
  (List.dropWhile_sublist keep).length_le

private theorem extended_length (short long : Mark) (text : List Char) :
    (Mark.extended short long text).2.length ≤ text.length := by
  unfold Mark.extended
  split <;> simp

/-- A token takes at least its first character. -/
theorem Token.lexeme_length (first : Char) (rest : List Char) :
    (lexeme first rest).2.length ≤ rest.length := by
  unfold lexeme
  split
  · exact extended_length ..
  split
  · exact extended_length ..
  split
  · have := dropWhile_length (· ≠ '"') rest
    simp only [List.length_drop]
    omega
  split
  · exact dropWhile_length ..
  split
  · exact dropWhile_length ..
  split <;> simp

/-- The next token of a text and the text after it; at the end this is `eof`, again and again. -/
def Token.next (text : List Char) : Token × List Char :=
  match text.dropWhile isBlank with
  | [] => (.eof, [])
  | first :: rest => lexeme first rest

/-- All tokens of a text, closed by one `eof`. -/
def Token.scan (text : List Char) : List Token :=
  match blanks : text.dropWhile isBlank with
  | [] => [.eof]
  | first :: rest =>
    have : (lexeme first rest).2.length < text.length := by
      have taken := lexeme_length first rest
      have dropped := dropWhile_length isBlank text
      simp only [blanks, List.length_cons] at dropped
      omega
    (lexeme first rest).1 :: scan (lexeme first rest).2
termination_by text.length

/-- All tokens of a source text. -/
def Token.ofSource (source : String) : List Token :=
  scan source.toList

/-- Ways to read on in a text: one token, all that is left, or at most so many. -/
inductive Reading where
  | next
  | all
  | upTo (count : Nat)

/-- At most `count` tokens, none of them after an `eof`, and the text after them. -/
def Token.take : Nat → List Char → List Token × List Char
  | 0, text => ([], text)
  | count + 1, text =>
    match next text with
    | (.eof, rest) => ([.eof], rest)
    | (token, rest) =>
      let (tokens, rest) := take count rest
      (token :: tokens, rest)

/-- The tokens one reading delivers, and the text it leaves to the next. -/
def Reading.perform : Reading → List Char → List Token × List Char
  | next, text =>
    let (token, rest) := Token.next text
    ([token], rest)
  | all, text => (Token.scan text, [])
  | upTo count, text => Token.take count text

/-- What several readings of one text deliver, one after the other. -/
def Reading.performAll : List Reading → List Char → List (List Token)
  | [], _ => []
  | reading :: readings, text =>
    let (tokens, rest) := reading.perform text
    tokens :: performAll readings rest

end Capuchin
