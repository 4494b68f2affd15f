import Capuchin.Command.Run

namespace Capuchin.Command

/-- Bold and red, on a terminal. -/
def boldRed : Paint :=
  fun text => "\x1b[1m\x1b[31m" ++ text ++ "\x1b[0m"

def emit (color : Bool) (entry : Entry) : IO Unit := do
  IO.print entry.stdout
  IO.eprint (entry.stderr boldRed color)

def Ending.emit (ending : Ending) : IO UInt32 := do
  IO.print ending.stdout
  IO.eprint ending.stderr
  return ending.exit.toUInt32

def Uncaught.emit (uncaught : Uncaught) : IO UInt32 :=
  Ending.emit { exit := 1, stderr := uncaught.message ++ "\n" }

/-- What stands at a path of the file system; every byte of a file is one character. -/
def inspectPath (path : String) : IO Lookup := do
  try
    let bytes ← IO.FS.readBinFile path
    return .file (String.ofList (bytes.toList.map fun byte => Char.ofNat byte.toNat))
  catch _ =>
    try
      let _ ← IO.FS.Handle.mk path .read
      return .directory
    catch _ => return .missing

/-- Run lines as they come in, until there are no more or a fault escapes. -/
partial def converse (color : Bool) (manner : Manner) (session : Session) : IO UInt32 := do
  emit color .prompt
  (← IO.getStdout).flush
  let line ← (← IO.getStdin).getLine
  if line.isEmpty then
    emit color (.remark "\n")
    return 0
  else
    let source := if line.endsWith "\n" then (line.dropEnd 1).copy else line
    let report := session.report manner source
    report.transcript.forM (emit color)
    match report.escape? with
    | some fault => Uncaught.emit (.fault fault)
    | none => converse color manner report.session

def start (options : Options) : IO UInt32 := do
  match options.file with
  | some path =>
    match runFile boldRed nestingLimit options path (← inspectPath path) with
    | .ok ending => ending.emit
    | .error uncaught => uncaught.emit
  | none =>
    emit options.color (.remark banner)
    converse options.color (lineManner nestingLimit options) .fresh

end Capuchin.Command

open Capuchin.Command in
def main (args : List String) : IO UInt32 :=
  match Request.ofArguments args with
  | .help => help.emit
  | .misuse reason => (misuse reason).emit
  | .start options => start options
