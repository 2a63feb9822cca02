import LoxLang.Eval.Run
import LoxLang.Syntax.Program

/-!
# Sessions

Sources that are run one after the other, each seeing what the earlier ones left behind.

* `Session` is what is left behind: the globals and everything they lead to, the addresses of the
  names in programs that may still be called, and the number of the next expression.
* `Session.run` runs one source. A source with a static error is not run, and changes nothing but
  the numbering.
* `Report` says how a run went, `Exit` how a program reports it to whoever started it.
* `check` gives the static errors of a source on its own, and `runSource` runs it on its own.
-/

namespace LoxLang

/-- How a run is reported to whoever started it. -/
inductive Exit where
  | ok
  | usage
  | staticError
  | noInput
  | runtimeError
  deriving DecidableEq, Repr

def Exit.code : Exit → Nat
  | ok => 0
  | usage => 64
  | staticError => 65
  | noInput => 66
  | runtimeError => 70

/-! ## Reports -/

/-- A stage of a run that has been passed. -/
inductive Stage where
  | parsed (tokens statements : Nat)
  | resolved (links errors : Nat)
  | failed (e : RuntimeError)
  deriving DecidableEq

namespace Stage

def logger : Stage → String
  | parsed .. => "lox.session"
  | resolved .. => "lox.resolve"
  | failed .. => "lox.interpreter"

def message : Stage → String
  | parsed tokens statements =>
    "scanned " ++ toString tokens ++ " tokens, parsed " ++ toString statements ++ " statements"
  | resolved links errors =>
    "resolved " ++ toString links ++ " local references, " ++ toString errors ++ " errors"
  | failed e => "runtime error at line " ++ toString e.line ++ ": " ++ e.message

end Stage

/-- How a run went. -/
structure Report where
  /-- The lines that were printed. -/
  output : List String
  staticErrors : List StaticError
  ending : Ending
  /-- The stages passed before anything was printed. -/
  stages : List Stage

namespace Report

/-- A run that static errors prevented. -/
def rejected (errors : List StaticError) (stages : List Stage) : Report :=
  ⟨[], errors, .completed, stages⟩

/-- How the run is reported: static errors come before everything else. A run that a bound of the
host cut short counts as one with a runtime error. -/
def exit (r : Report) : Exit :=
  if !r.staticErrors.isEmpty then .staticError
  else match r.ending with
    | .completed => .ok
    | .halted _ => .runtimeError

def runtimeError? (r : Report) : Option RuntimeError := r.ending.error?

/-- The reports of all errors, in the order in which they were found. -/
def diagnostics (r : Report) : List String :=
  r.staticErrors.map StaticError.report ++ (r.runtimeError?.map RuntimeError.report).toList

def printed (r : Report) : String := String.join (r.output.map (· ++ "\n"))

end Report

/-! ## Sessions -/

/-- What the sources that have been run leave behind. -/
structure Session where
  /-- The number of the next expression. -/
  nextId : NodeId
  /-- The addresses of the names in all programs that were run. -/
  links : Links
  machine : Machine

namespace Session

def start : Session := ⟨0, ∅, .start⟩

def globals (s : Session) : Frame := s.machine.globalFrame

/-- Runs statements whose names have been resolved. -/
def execute (s : Session) (host : Host) (statements : List Stmt) (links : Links)
    (stages : List Stage) : Report × Session :=
  let links := s.links ∪ links
  let (ending, machine) := { s.machine with output := #[] }.execute ⟨links, host⟩ statements
  (⟨machine.output.toList, [], ending, stages⟩, { s with links, machine })

/-- Runs a source: it is divided into tokens, read, resolved, and executed. Faults in the text and
in the grammar are reported together, those in the use of names only if there are none. -/
def run (s : Session) (host : Host) (source : String) : Report × Session :=
  let (tokens, scanErrors) := Token.scan source
  let program := Program.ofTokens tokens s.nextId
  let s := { s with nextId := program.nextId }
  let parsed := Stage.parsed tokens.length program.statements.length
  match scanErrors ++ program.errors with
  | e :: es => (.rejected (e :: es) [parsed], s)
  | [] =>
    let resolution := resolve program.statements s.globals.names
    let stages := [parsed, .resolved resolution.links.size resolution.errors.length]
    match resolution.errors with
    | e :: es => (.rejected (e :: es) stages, s)
    | [] => s.execute host program.statements resolution.links stages

end Session

/-! ## Single sources -/

/-- The static errors of a source on its own. -/
def check (source : String) : List StaticError :=
  let program := Program.ofSource source 0
  match program.errors with
  | [] => (resolve program.statements Machine.nativeNames).errors
  | errors => errors

def runSource (host : Host) (source : String) : Report := (Session.start.run host source).1

end LoxLang
