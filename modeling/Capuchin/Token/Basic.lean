namespace Capuchin

/-- Operators and punctuation. -/
inductive Mark where
  | assign | plus | minus | bang | asterisk | slash | lt | gt | eq | notEq
  | comma | colon | semicolon
  | lparen | rparen | lbrace | rbrace | lbracket | rbracket
  deriving DecidableEq

/-- Words that cannot be identifiers. -/
inductive Keyword where
  | fnWord | letWord | trueWord | falseWord | ifWord | elseWord | returnWord
  deriving DecidableEq

/-- A token without its text. -/
inductive Kind where
  | illegal | eof | ident | int | str
  | mark (mark : Mark)
  | keyword (keyword : Keyword)
  deriving DecidableEq

inductive Token where
  /-- A character that starts no other token. -/
  | illegal (char : Char)
  | eof
  | ident (name : String)
  /-- An integer literal as written, leading zeros included. -/
  | int (digits : String)
  /-- The text between two quotes. -/
  | str (text : String)
  | mark (mark : Mark)
  | keyword (keyword : Keyword)
  deriving DecidableEq

/-- A mark as it is written. -/
def Mark.text : Mark → String
  | assign => "=" | plus => "+" | minus => "-" | bang => "!" | asterisk => "*" | slash => "/"
  | lt => "<" | gt => ">" | eq => "==" | notEq => "!="
  | comma => "," | colon => ":" | semicolon => ";"
  | lparen => "(" | rparen => ")" | lbrace => "\x7b" | rbrace => "\x7d"
  | lbracket => "[" | rbracket => "]"

/-- A mark's name in the debug log. -/
def Mark.label : Mark → String
  | assign => "ASSIGN" | plus => "PLUS" | minus => "MINUS" | bang => "BANG"
  | asterisk => "ASTERISK" | slash => "SLASH" | lt => "LT" | gt => "GT" | eq => "EQ"
  | notEq => "NOT_EQ" | comma => "COMMA" | colon => "COLON" | semicolon => "SEMICOLON"
  | lparen => "LPAREN" | rparen => "RPAREN" | lbrace => "LBRACE" | rbrace => "RBRACE"
  | lbracket => "LBRACKET" | rbracket => "RBRACKET"

/-- A keyword as it is written. -/
def Keyword.text : Keyword → String
  | fnWord => "fn" | letWord => "let" | trueWord => "true" | falseWord => "false"
  | ifWord => "if" | elseWord => "else" | returnWord => "return"

/-- A keyword's name in messages. -/
def Keyword.label : Keyword → String
  | fnWord => "FUNCTION" | letWord => "LET" | trueWord => "TRUE" | falseWord => "FALSE"
  | ifWord => "IF" | elseWord => "ELSE" | returnWord => "RETURN"

def Keyword.all : List Keyword :=
  [fnWord, letWord, trueWord, falseWord, ifWord, elseWord, returnWord]

theorem Keyword.mem_all (keyword : Keyword) : keyword ∈ all := by
  cases keyword <;> simp [all]

/-- A kind as syntax errors quote it. -/
def Kind.text : Kind → String
  | illegal => "ILLEGAL" | eof => "EOF" | ident => "IDENT" | int => "INT" | str => "STRING"
  | .mark m => m.text
  | .keyword k => k.label

/-- A kind's name in the debug log, where marks have names too. -/
def Kind.label : Kind → String
  | .mark m => m.label
  | kind => kind.text

def Token.kind : Token → Kind
  | illegal _ => .illegal
  | eof => .eof
  | ident _ => .ident
  | int _ => .int
  | str _ => .str
  | .mark m => .mark m
  | .keyword k => .keyword k

/-- The text a token carries: what was written, without the quotes of a string. -/
def Token.literal : Token → String
  | illegal char => String.ofList [char]
  | eof => ""
  | ident name => name
  | int digits => digits
  | str text => text
  | .mark m => m.text
  | .keyword k => k.text

/-- A word is a keyword or else an identifier. -/
def Token.ofWord (word : String) : Token :=
  match Keyword.all.find? (·.text == word) with
  | some reserved => .keyword reserved
  | none => .ident word

end Capuchin
