import Capuchin.Command.Argument
import Capuchin.Text.Quoted

namespace Capuchin.Command

structure Options where
  file : Option String := none
  debug : Bool := false
  color : Bool := true

/-- What is wrong with the arguments. -/
inductive Misuse where
  /-- A switch that takes no text has some attached. -/
  | ignored (switch : Switch) (attached : String)
  | ambiguous (text : String)
  | unrecognized (surplus : List String)

def Misuse.message : Misuse → String
  | ignored switch attached =>
    "argument " ++ switch.names ++ ": ignored explicit argument " ++ Quoted.quote attached
  | ambiguous text =>
    "ambiguous option: " ++ text ++ " could match "
      ++ ", ".intercalate (Switch.all.map Switch.long)
  | unrecognized surplus => "unrecognized arguments: " ++ " ".intercalate surplus

/-- What the arguments ask for. -/
inductive Request where
  | help
  | misuse (reason : Misuse)
  | start (options : Options)

/-- What arguments have said so far. -/
structure Intake where
  options : Options := {}
  /-- Whether the argument just met is the file's name. -/
  atFile : Bool := false
  /-- Arguments that have no use, in order. -/
  surplus : List String := []

/-- Letters after the short help switch are short switches too. -/
def helpLetters : List Char → Request
  | ['h'] => .help
  | 'h' :: rest => helpLetters rest
  | rest => .misuse (.ignored .help (String.ofList rest))

namespace Intake

/-- The first name is the file's. -/
def addName (intake : Intake) (text : String) : Intake :=
  match intake.options.file with
  | none => { intake with options := { intake.options with file := some text }, atFile := true }
  | some _ => { intake with atFile := false, surplus := intake.surplus ++ [text] }

def addUnknown (intake : Intake) (text : String) : Intake :=
  { intake with atFile := false, surplus := intake.surplus ++ [text] }

def turn (intake : Intake) : Switch → Intake
  | .help => { intake with atFile := false }
  | .debug => { intake with options := { intake.options with debug := true }, atFile := false }
  | .noColor => { intake with options := { intake.options with color := false }, atFile := false }

/-- The names after `--`, which itself is surplus unless it stands next to the file's name. -/
def addRest (intake : Intake) (rest : List String) : Intake :=
  match intake.options.file, rest with
  | none, [] => intake
  | none, file :: others => { intake.addName file with surplus := intake.surplus ++ others }
  | some _, rest =>
    { intake with surplus := intake.surplus ++ (if intake.atFile then rest else "--" :: rest) }

def request (intake : Intake) : Request :=
  if intake.surplus.isEmpty then .start intake.options
  else .misuse (.unrecognized intake.surplus)

def read (intake : Intake) : List String → Request
  | [] => intake.request
  | arg :: args =>
    if arg = "--" then (intake.addRest args).request
    else
      match Argument.classify arg with
      | .name text => (intake.addName text).read args
      | .switch .help none => .help
      | .switch switch none => (intake.turn switch).read args
      | .switch switch (some attached) => .misuse (.ignored switch attached)
      | .shortHelp none => .help
      | .shortHelp (some attached) => helpLetters attached.toList
      | .unknown text => (intake.addUnknown text).read args
      | .ambiguous text => .misuse (.ambiguous text)

end Intake

/-- The first ambiguous argument before `--`. -/
def ambiguous? : List String → Option String
  | [] => none
  | arg :: args =>
    if arg = "--" then none
    else
      match Argument.classify arg with
      | .ambiguous text => some text
      | _ => ambiguous? args

/-- What the arguments ask for; an ambiguous one is reported before any other is met. -/
def Request.ofArguments (args : List String) : Request :=
  match ambiguous? args with
  | some text => .misuse (.ambiguous text)
  | none => Intake.read {} args

end Capuchin.Command
