namespace Capuchin

/-- The part of the program that a log line comes from. -/
inductive Channel where
  | reading | evaluation | command
  deriving DecidableEq

def Channel.name : Channel → String
  | reading => "monkey.interpreter"
  | evaluation => "monkey.evaluator"
  | command => "monkey.cli"

inductive Entry where
  /-- The display of a result. -/
  | shown (text : String)
  | prompt
  /-- Why a source has no result. -/
  | diagnostic (message : String)
  | log (channel : Channel) (text : String)
  /-- Text for the user that is neither result nor diagnostic. -/
  | remark (text : String)
  deriving DecidableEq

/-- Entries in the order in which they are written. -/
abbrev Transcript := Array Entry

/-- How a text is coloured; that depends on what it is written to. -/
abbrev Paint := String → String

/-- The word before a diagnostic, painted if colours are on. -/
def diagnosticHead (paint : Paint) (color : Bool) : String :=
  if color then paint "error: " else "error: "

def Entry.stdout : Entry → String
  | shown text => text ++ "\n"
  | prompt => ">> "
  | _ => ""

def Entry.stderr (paint : Paint) (color : Bool) : Entry → String
  | diagnostic message => diagnosticHead paint color ++ message ++ "\n"
  | log channel text => "DEBUG:" ++ channel.name ++ ":" ++ text ++ "\n"
  | remark text => text
  | _ => ""

namespace Transcript

def stdout (transcript : Transcript) : String :=
  transcript.foldl (fun text entry => text ++ entry.stdout) ""

def stderr (paint : Paint) (color : Bool) (transcript : Transcript) : String :=
  transcript.foldl (fun text entry => text ++ entry.stderr paint color) ""

end Transcript

end Capuchin
