import Capuchin.Command.Files
import Capuchin.Command.Request
import Capuchin.Session.Report
import Capuchin.Text.Newline

namespace Capuchin.Command

/-- Calls that may nest before a run counts as overflown. -/
def nestingLimit : Nat := 500

def usage : String :=
  "usage: monkey [-h] [--debug] [--no-color] [file]\n"

def helpText : String :=
  usage ++ "\n".intercalate
    ["",
      "Monkey programming language interpreter",
      "",
      "positional arguments:",
      "  file        path to a `*.monkey` file (if empty, starts the REPL)",
      "",
      "options:",
      "  -h, --help  show this help message and exit",
      "  --debug     log tokens, syntax trees and function calls",
      "  --no-color  print diagnostics without color",
      ""]

def banner : String :=
  "Welcome to the Monkey programming language REPL!\n"

/-- What a finished command has written, and its exit code. -/
structure Ending where
  exit : Nat
  stdout : String := ""
  stderr : String := ""

/-- What ends the command before it comes to an exit code of its own. -/
inductive Uncaught where
  /-- A file cannot be read, because it is a directory. -/
  | directory (path : String)
  | fault (fault : Fault)

def Uncaught.message : Uncaught → String
  | directory path => "[Errno 21] Is a directory: " ++ Quoted.quote path
  | fault reason => reason.message

def help : Ending :=
  { exit := 0, stdout := helpText }

def misuse (reason : Misuse) : Ending :=
  { exit := 2, stderr := usage ++ "monkey: error: " ++ reason.message ++ "\n" }

def Ending.ofTranscript (paint : Paint) (color : Bool) (exit : Nat) (transcript : Transcript) :
    Ending :=
  { exit, stdout := transcript.stdout, stderr := transcript.stderr paint color }

/-- How a file is run: results other than null are displayed. -/
def fileManner (limit : Nat) (options : Options) : Manner :=
  { limit, debug := options.debug, display := .nonNull }

/-- How lines are run: every result is displayed. -/
def lineManner (limit : Nat) (options : Options) : Manner :=
  { limit, debug := options.debug, display := .every }

/-- Why a file is not run. -/
inductive Refusal where
  | notFound (path : String)
  | wrongName

def Refusal.message : Refusal → String
  | notFound path => "File not found: " ++ path
  | wrongName => "File must have a `.monkey` extension"

def refuse (paint : Paint) (options : Options) (reason : Refusal) : Ending :=
  .ofTranscript paint options.color 1 #[.diagnostic reason.message]

/-- Run the text of a file. -/
def runContent (paint : Paint) (limit : Nat) (options : Options) (content : String) :
    Except Uncaught Ending :=
  let source := String.ofList (unifyNewlines content.toList)
  let report := Session.fresh.report (fileManner limit options) source
  match report.verdict with
  | .value _ => .ok (.ofTranscript paint options.color 0 report.transcript)
  | .diagnosed => .ok (.ofTranscript paint options.color 1 report.transcript)
  | .escaped fault => .error (.fault fault)

/-- Run what stands at a path. A missing file is reported before a wrong name is. -/
def runFile (paint : Paint) (limit : Nat) (options : Options) (path : String) (found : Lookup) :
    Except Uncaught Ending :=
  match found, path.endsWith ".monkey" with
  | .missing, _ => .ok (refuse paint options (.notFound path))
  | _, false => .ok (refuse paint options .wrongName)
  | .directory, true => .error (.directory path)
  | .file content, true => runContent paint limit options content

/-- Lines end at line feeds; what follows the last one is a line unless it is empty. -/
def lines : List Char → List (List Char)
  | [] => []
  | '\n' :: rest => [] :: lines rest
  | c :: rest =>
    match lines rest with
    | [] => [[c]]
    | line :: others => (c :: line) :: others

/-- What the user sees of lines, with a prompt before each and one more before the end of input; a
fault that escapes ends it at once. -/
def script : List Showing → Showing
  | [] => { transcript := #[.prompt, .remark "\n"] }
  | line :: lines =>
    let written := #[.prompt] ++ line.transcript
    match line.escape? with
    | some fault => ⟨written, some fault⟩
    | none =>
      let rest := script lines
      ⟨written ++ rest.transcript, rest.escape?⟩

/-- Lines that are run one after the other, each with its prompt. -/
def dialogue (session : Session) (manner : Manner) (lines : List String) : Showing :=
  script ((session.reportAll manner lines).map Report.showing)

def runLines (paint : Paint) (limit : Nat) (options : Options) (input : String) :
    Except Uncaught Ending :=
  let sources := (lines input.toList).map String.ofList
  let held := dialogue .fresh (lineManner limit options) sources
  match held.escape? with
  | some fault => .error (.fault fault)
  | none => .ok (.ofTranscript paint options.color 0 (#[.remark banner] ++ held.transcript))

/-- Run the command. -/
def run (paint : Paint) (limit : Nat) (files : Files) (args : List String) (input : String) :
    Except Uncaught Ending :=
  match Request.ofArguments args with
  | .help => .ok help
  | .misuse reason => .ok (misuse reason)
  | .start options =>
    match options.file with
    | some path => runFile paint limit options path (files.find path)
    | none => runLines paint limit options input

end Capuchin.Command
