import Capuchin.Text.DecimalDigit

namespace Capuchin.Command

inductive Switch where
  | help | debug | noColor
  deriving DecidableEq

namespace Switch

def long : Switch → String
  | help => "--help"
  | debug => "--debug"
  | noColor => "--no-color"

/-- All spellings of a switch. -/
def names : Switch → String
  | help => "-h/--help"
  | switch => switch.long

def all : List Switch :=
  [help, debug, noColor]

end Switch

/-- What an argument is by its looks. -/
inductive Argument where
  | name (text : String)
  /-- A long switch with the text after its equals sign. -/
  | switch (switch : Switch) (attached : Option String)
  /-- The short spelling of help with the text after it. -/
  | shortHelp (attached : Option String)
  | unknown (text : String)
  /-- More than one switch may be meant. -/
  | ambiguous (text : String)

/-- Digits after a minus sign, with or without a point; a line feed may close them. -/
def isNegativeNumeral : List Char → Bool
  | '-' :: rest =>
    let rest := if rest.getLast? = some '\n' then rest.dropLast else rest
    match rest.dropWhile isDecimalDigit with
    | [] => !rest.isEmpty
    | '.' :: places => !places.isEmpty && places.all isDecimalDigit
    | _ => false
  | _ => false

namespace Argument

/-- A dash does not make a switch of a number or of a text with a space. -/
def unmatched (text : String) : Argument :=
  if isNegativeNumeral text.toList || ' ' ∈ text.toList then .name text else .unknown text

/-- The text before the first equals sign, and the text after it if there is one. -/
def divide (text : List Char) : List Char × Option String :=
  match text.dropWhile (· ≠ '=') with
  | [] => (text, none)
  | _ :: rest => (text.takeWhile (· ≠ '='), some (String.ofList rest))

def classifyLong (text : String) : Argument :=
  let (head, attached) := divide text.toList
  match Switch.all.filter fun switch => head.isPrefixOf switch.long.toList with
  | [] => unmatched text
  | [meant] => .switch meant attached
  | _ => .ambiguous text

def classify (text : String) : Argument :=
  match text.toList with
  | '-' :: '-' :: _ => classifyLong text
  | ['-', 'h'] => .shortHelp none
  | '-' :: 'h' :: '=' :: rest => .shortHelp (some (String.ofList rest))
  | '-' :: 'h' :: rest => .shortHelp (some (String.ofList rest))
  | '-' :: _ :: _ => unmatched text
  | _ => .name text

end Argument

end Capuchin.Command
