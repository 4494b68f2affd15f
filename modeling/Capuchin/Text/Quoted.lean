import Capuchin.Text.Printable

namespace Capuchin.Quoted

/-- The last `width` hexadecimal digits of a number. -/
def hexadecimal : Nat → Nat → List Char
  | 0, _ => []
  | width + 1, n => hexadecimal width (n / 16) ++ [Nat.digitChar (n % 16)]

/-- A character by number, with as few digits as the three forms allow. -/
def numbered (c : Char) : List Char :=
  if c.toNat < 0x100 then ['\\', 'x'] ++ hexadecimal 2 c.toNat
  else if c.toNat < 0x10000 then ['\\', 'u'] ++ hexadecimal 4 c.toNat
  else ['\\', 'U'] ++ hexadecimal 8 c.toNat

/-- One character inside `quote`s. -/
def escape (quote c : Char) : List Char :=
  if c = '\\' || c = quote then ['\\', c]
  else if c = '\n' then ['\\', 'n']
  else if c = '\r' then ['\\', 'r']
  else if c = '\t' then ['\\', 't']
  else if isPrintable c then [c]
  else numbered c

/-- Single quotes, unless the text has some and has no double quotes. -/
def mark (text : List Char) : Char :=
  if '\'' ∈ text && '"' ∉ text then '"' else '\''

def quote (text : String) : String :=
  let quote := mark text.toList
  String.ofList (quote :: text.toList.flatMap (escape quote) ++ [quote])

/-- Quoted texts in brackets. -/
def list (texts : List String) : String :=
  "[" ++ ", ".intercalate (texts.map quote) ++ "]"

end Capuchin.Quoted
