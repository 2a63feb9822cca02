import Std.Time.DateTime.Timestamp
import LoxLang.CommandLine

/-!
# The executable

Connects the command line to files and streams: it asks the system for what a run needs, and writes
what the run gives. The clock is read once for each source that is run; every reading of it in the
source is that one.
-/

namespace LoxLang
namespace Main

def now : IO Number := do
  let time ← Std.Time.Timestamp.now
  return .ofFloat (.ofInt time.toNanosecondsSinceUnixEpoch.val / 1000000000)

/-- The cause behind an error of the system. Its number may come with either sign. -/
def fileError : IO.Error → FileError
  | .noFileOrDirectory .. => .missing
  | .inappropriateType _ number description
  | .invalidArgument _ number description
  | .permissionDenied _ number description =>
    .ofNumber (min number (-number)).toNat description
  | e => .refused 5 (toString e)

def readFile (path : String) : IO (Except FileError ByteArray) := do
  try
    return .ok (← IO.FS.readBinFile path)
  catch e => return .error (fileError e)

def perform (write : Write) : IO Unit := do
  match write with
  | .out text =>
    let stdout ← IO.getStdout
    stdout.putStr text
    stdout.flush
  | write => IO.eprint write.errText

def finish (t : Transcript) : IO Exit := do
  t.writes.forM perform
  return t.exit

/-- Runs lines until the input ends. The system gives what ends with a line feed, which may be more
lines than one; those of them that have not been run yet are `pending`. -/
partial def lines (verbose : Bool) (session : Session) : List String → IO Exit
  | line :: pending => do
    let (writes, session) := promptTurn (.standard (← now)) verbose session line
    writes.forM perform
    lines verbose session pending
  | [] => do
    let chunk ← (← IO.getStdin).getLine
    if chunk.isEmpty then
      finish promptEnd
    else
      lines verbose session (inputLines chunk)

def proceed (verbose : Bool) : Next → IO Exit
  | .stop exit => return exit
  | .file path => do
    let content ← readFile path
    finish (runScript (.standard (← now)) verbose path content)
  | .lines session => lines verbose session []

end Main
end LoxLang

open LoxLang in
/-- Runs a script or the prompt, as the arguments say. -/
def main (arguments : List String) : IO UInt32 := do
  let invocation := Invocation.ofArguments arguments
  let (writes, next) := invocation.start
  writes.forM Main.perform
  let exit ← Main.proceed invocation.verbose next
  return exit.code.toUInt32
