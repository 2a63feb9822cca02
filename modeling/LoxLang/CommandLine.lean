import LoxLang.Session
import LoxLang.Text.Quoted

/-!
# The command line

What the program does with its arguments, with the files they name and with its input.

* `Invocation.ofArguments` reads the arguments.
* `FileError` is why a file gives no bytes. How files are found is left to the system: a run takes a
  function that reads them.
* `Write` is one piece of output. With the verbose flag the stages of each run are written to the
  log, which shares a stream with the errors.
* `Invocation.start` is what a run does before it asks for anything, and `Next` what it asks for
  then. `runScript`, `promptTurn` and `promptEnd` answer it. The executable is these functions and
  the answers of the system.
* `Invocation.run` is a whole run, given the files and all of the input. What it writes is collected
  and comes in the order of the source; that printed lines appear while a program still runs is left
  out.
-/

namespace LoxLang

/-! ## Arguments -/

/-- What the program is asked to do. -/
inductive Command where
  | help
  | unknownFlag (flag : String)
  | tooManyFiles
  | script (path : String)
  | prompt
  deriving DecidableEq, Repr

/-- The arguments of the program, as they were understood. -/
structure Invocation where
  command : Command
  verbose : Bool
  deriving DecidableEq, Repr

namespace Invocation

def isHelpFlag (argument : String) : Bool := argument == "--help" || argument == "-h"

def isVerboseFlag (argument : String) : Bool := argument == "--verbose" || argument == "-v"

def isFlag (argument : String) : Bool := argument.toList.head? == some '-'

/-- Reads the arguments that follow a file name, which is empty as long as none was given, and the
verbose flag. The first argument that settles the matter does so. -/
def ofRest (file : String) (verbose : Bool) : List String → Invocation
  | [] => ⟨if file = "" then .prompt else .script file, verbose⟩
  | argument :: rest =>
    if isHelpFlag argument then ⟨.help, verbose⟩
    else if isVerboseFlag argument then ofRest file true rest
    else if isFlag argument then ⟨.unknownFlag argument, verbose⟩
    else if file = "" then ofRest argument verbose rest
    else ⟨.tooManyFiles, verbose⟩

def ofArguments (arguments : List String) : Invocation := ofRest "" false arguments

end Invocation

/-! ## Files -/

/-- Why a path gives no bytes. -/
inductive FileError where
  /-- Nothing has that name. -/
  | missing
  /-- The path ends at a directory. -/
  | isDirectory
  /-- The path goes on after a file. -/
  | notDirectory
  /-- The path, or a name in it, is too long. -/
  | nameTooLong
  /-- The file may not be read. -/
  | accessDenied
  /-- The system refuses for another reason, given by its number and its wording. -/
  | refused (number : Nat) (description : String)
  deriving DecidableEq, Repr

namespace FileError

def numbered (path : String) (number : Nat) (description : String) : String :=
  "[Errno " ++ toString number ++ "] " ++ description ++ ": " ++ Quoted.quote path

/-- What is said of a path that gives no bytes. -/
def reason (path : String) : FileError → String
  | missing => "No such file or directory"
  | isDirectory => numbered path 21 "Is a directory"
  | notDirectory => numbered path 20 "Not a directory"
  | nameTooLong => numbered path 36 "File name too long"
  | accessDenied => numbered path 13 "Permission denied"
  | refused number description => numbered path number description

/-- The cause behind a number of the system, which comes with a wording. -/
def ofNumber (number : Nat) (description : String) : FileError :=
  match number with
  | 2 => missing
  | 13 => accessDenied
  | 20 => notDirectory
  | 21 => isDirectory
  | 36 => nameTooLong
  | number => refused number description

end FileError

/-! ## Output -/

/-- One piece of output. -/
inductive Write where
  | out (text : String)
  | err (text : String)
  | log (stage : Stage)
  deriving DecidableEq

namespace Write

def logLine (stage : Stage) : String :=
  "[DEBUG] " ++ stage.logger ++ ": " ++ stage.message ++ "\n"

def outText : Write → String
  | out text => text
  | _ => ""

def errText : Write → String
  | out _ => ""
  | err text => text
  | log stage => logLine stage

def errLine (line : String) : Write := .err (line ++ "\n")

def logs (verbose : Bool) (stages : List Stage) : List Write :=
  if verbose then stages.map .log else []

end Write

/-- What a run of the program writes, in order, and how it ends. -/
structure Transcript where
  writes : List Write
  exit : Exit

/-- A run that has written something before. -/
def Transcript.behind (writes : List Write) (t : Transcript) : Transcript :=
  { t with writes := writes ++ t.writes }

def Report.writes (r : Report) (verbose : Bool) : List Write :=
  Write.logs verbose r.stages
    ++ r.output.map (fun line => .out (line ++ "\n"))
    ++ Write.logs verbose (r.runtimeError?.map Stage.failed).toList
    ++ r.diagnostics.map Write.errLine

/-! ## Scripts -/

def complaint (path reason : String) : Write := .errLine ("lox: " ++ path ++ ": " ++ reason)

/-- Runs a file, given its bytes or why there are none. -/
def runScript (host : Host) (verbose : Bool) (path : String) :
    Except FileError ByteArray → Transcript
  | .error e => ⟨[complaint path (e.reason path)], .noInput⟩
  | .ok bytes =>
    match String.fromUTF8? bytes with
    | none => ⟨[complaint path "invalid utf-8"], .staticError⟩
    | some source =>
      let report := runSource host source
      ⟨report.writes verbose, report.exit⟩

/-! ## The prompt -/

def promptText : Write := .out "> "

/-- Runs one line of input and invites the next one. Errors are reported, and the prompt goes on. -/
def promptTurn (host : Host) (verbose : Bool) (session : Session) (line : String) :
    List Write × Session :=
  let (report, session) := session.run host line
  (report.writes verbose ++ [promptText], session)

/-- What a run does when the input ends. -/
def promptEnd : Transcript := ⟨[.out "\n"], .ok⟩

def runLines (host : Host) (verbose : Bool) : Session → List String → Transcript
  | _, [] => promptEnd
  | session, line :: lines =>
    let (writes, session) := promptTurn host verbose session line
    .behind writes (runLines host verbose session lines)

/-- The lines of an input, without their ends, where `line` is what has been read of the first one,
last character first. A line ends with a line feed, with a carriage return, or with a carriage
return and a line feed; the last line needs no end. -/
def splitLines (line : List Char) : List Char → List (List Char)
  | [] => if line.isEmpty then [] else [line.reverse]
  | '\r' :: '\n' :: cs => line.reverse :: splitLines [] cs
  | '\r' :: cs => line.reverse :: splitLines [] cs
  | '\n' :: cs => line.reverse :: splitLines [] cs
  | c :: cs => splitLines (c :: line) cs

def inputLines (input : String) : List String := (splitLines [] input.toList).map String.ofList

/-! ## The whole program -/

def usageText : String :=
  "lox [OPTIONS] [FILE]\n\nRun a Lox program, or start a prompt when no FILE is given.\n\n" ++
  "Options:\n  --verbose  Log pipeline stages to stderr\n  --help     Show this help message\n"

/-- How a run of the program goes on: it is over, or it needs the bytes of a file or lines of
input. -/
inductive Next where
  | stop (exit : Exit)
  | file (path : String)
  | lines (session : Session)

/-- What a run writes before it asks for anything, and how it goes on. -/
def Invocation.start (invocation : Invocation) : List Write × Next :=
  match invocation.command with
  | .help => ([.out usageText], .stop .ok)
  | .unknownFlag flag => ([.errLine ("lox: unknown flag '" ++ flag ++ "'")], .stop .usage)
  | .tooManyFiles => ([.errLine "Usage: lox [script]"], .stop .usage)
  | .script path => ([], .file path)
  | .prompt => ([promptText], .lines .start)

/-- The rest of a run, where `read` says what the system finds at a path. -/
def Next.run (host : Host) (verbose : Bool) (read : String → Except FileError ByteArray)
    (input : String) : Next → Transcript
  | .stop exit => ⟨[], exit⟩
  | .file path => runScript host verbose path (read path)
  | .lines session => runLines host verbose session (inputLines input)

def Invocation.run (invocation : Invocation) (host : Host)
    (read : String → Except FileError ByteArray) (input : String) : Transcript :=
  let (writes, next) := invocation.start
  .behind writes (next.run host invocation.verbose read input)

namespace Transcript

def stdout (t : Transcript) : String := String.join (t.writes.map Write.outText)

def stderr (t : Transcript) : String := String.join (t.writes.map Write.errText)

end Transcript

end LoxLang
