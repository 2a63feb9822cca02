import LoxLang.CommandLine

/-!
# The log

What the verbose flag changes: a log is kept, and nothing else is different.

* `Write.withoutLog` deletes the records of the log from some output.
* `Invocation.run_withoutLog`: a run that keeps no log writes what one with a log writes, less its
  records. It is put together from the same statement about scripts, about turns of the prompt, and
  by induction about the lines of an input. Whatever the files are, both runs read the same one.
* `Invocation.command_insert`: a verbose flag may stand anywhere among the arguments, the program is
  asked to do the same.
* `Invocation.run_insert_verbose` compares the runs with and without the flag.
-/

namespace LoxLang

/-! ## Records of the log -/

namespace Write

/-- A record of the log. -/
def isLog : Write → Bool
  | log _ => true
  | _ => false

def isErr : Write → Bool
  | out _ => false
  | _ => true

/-- Deletes the records of the log. -/
def withoutLog (writes : List Write) : List Write := writes.filter fun w => !w.isLog

theorem withoutLog_append (writes writes' : List Write) :
    withoutLog (writes ++ writes') = withoutLog writes ++ withoutLog writes' :=
  List.filter_append ..

/-- Output in which there is no record of the log. -/
theorem withoutLog_eq_self {writes : List Write} (h : ∀ w ∈ writes, w.isLog = false) :
    withoutLog writes = writes :=
  List.filter_eq_self.2 fun w hw => by simp [h w hw]

/-- The records of the stages are all there is of the log. -/
theorem withoutLog_logs (verbose : Bool) (stages : List Stage) :
    withoutLog (logs verbose stages) = [] := by
  refine List.filter_eq_nil_iff.2 fun w hw => ?_
  cases verbose with
  | false => cases hw
  | true =>
      rcases List.mem_map.1 hw with ⟨stage, -, rfl⟩
      exact Bool.false_ne_true

end Write

open Write (withoutLog withoutLog_append withoutLog_eq_self withoutLog_logs)

/-! ## Runs with and without a log -/

/-- The records of the log are all that a report writes more if there is a log. -/
theorem Report.withoutLog_writes (r : Report) (verbose : Bool) :
    withoutLog (r.writes verbose) = r.writes false := by
  have hout : withoutLog (r.output.map fun line => .out (line ++ "\n")) =
      r.output.map fun line => .out (line ++ "\n") := by
    refine withoutLog_eq_self fun w hw => ?_
    rcases List.mem_map.1 hw with ⟨line, -, rfl⟩
    rfl
  have herr : withoutLog (r.diagnostics.map Write.errLine) = r.diagnostics.map Write.errLine := by
    refine withoutLog_eq_self fun w hw => ?_
    rcases List.mem_map.1 hw with ⟨line, -, rfl⟩
    rfl
  simp only [Report.writes, withoutLog_append, withoutLog_logs, hout, herr]
  rfl

/-- The prompt goes on from the same session, whether there is a log or not. -/
theorem withoutLog_promptTurn (host : Host) (verbose : Bool) (session : Session) (line : String) :
    withoutLog (promptTurn host verbose session line).1 = (promptTurn host false session line).1 ∧
      (promptTurn host verbose session line).2 = (promptTurn host false session line).2 := by
  refine ⟨?_, rfl⟩
  have hwrites := Report.withoutLog_writes (session.run host line).1 verbose
  simp only [promptTurn, withoutLog_append, hwrites]
  rfl

namespace Transcript

/-- The output of a run without the records of the log. -/
def withoutLog (t : Transcript) : Transcript := { t with writes := Write.withoutLog t.writes }

def errWrites (t : Transcript) : List Write := t.writes.filter Write.isErr

/-- No record of the log goes to the standard output. -/
theorem stdout_withoutLog (t : Transcript) : t.withoutLog.stdout = t.stdout := by
  have hjoin : ∀ writes : List Write, String.join ((Write.withoutLog writes).map Write.outText) =
      String.join (writes.map Write.outText) := by
    intro writes
    induction writes with
    | nil => rfl
    | cons w writes ih =>
        cases w with
        | log stage =>
            simpa [Write.withoutLog, Write.isLog, Write.outText, String.join_cons] using ih
        | _ => simpa [Write.withoutLog, Write.isLog, String.join_cons] using ih
  exact hjoin t.writes

/-- The log of a run can be taken out of what is written before it and of the rest by itself. -/
theorem withoutLog_behind (writes : List Write) (t : Transcript) :
    (t.behind writes).withoutLog = t.withoutLog.behind (Write.withoutLog writes) :=
  congrArg (Transcript.mk · t.exit) (withoutLog_append writes t.writes)

/-- Without the log, the standard error stream keeps everything but the records, in the same
order. -/
theorem errWrites_withoutLog (t : Transcript) :
    t.withoutLog.errWrites = t.errWrites.filter fun w => !w.isLog := by
  simp only [errWrites, withoutLog, Write.withoutLog, List.filter_filter, Bool.and_comm]

end Transcript

/-- However many lines are run, the log is all that the flag adds. -/
theorem withoutLog_runLines (host : Host) (verbose : Bool) (session : Session)
    (lines : List String) :
    (runLines host verbose session lines).withoutLog = runLines host false session lines := by
  induction lines generalizing session with
  | nil => rfl
  | cons line lines ih =>
      rcases withoutLog_promptTurn host verbose session line with ⟨hwrites, hsession⟩
      rw [runLines, runLines, Transcript.withoutLog_behind, hwrites, ih, hsession]

/-- The log is all that the flag adds to a script, whatever the file is or is not. -/
theorem withoutLog_runScript (host : Host) (verbose : Bool) (path : String)
    (content : Except FileError ByteArray) :
    (runScript host verbose path content).withoutLog = runScript host false path content := by
  unfold runScript
  split
  · rfl
  · split
    · rfl
    · exact congrArg (Transcript.mk · _) (Report.withoutLog_writes _ verbose)

namespace Invocation

/-- A run that keeps no log is one that may keep a log, less its records. -/
theorem run_withoutLog {i j : Invocation} (hcommand : j.command = i.command)
    (hquiet : i.verbose = false) (host : Host) (read : String → Except FileError ByteArray)
    (input : String) : (j.run host read input).withoutLog = i.run host read input := by
  rcases i with ⟨command, verbose⟩
  rcases j with ⟨command', verbose'⟩
  obtain rfl : command' = command := hcommand
  obtain rfl : verbose = false := hquiet
  cases command' with
  | help | unknownFlag _ | tooManyFiles => rfl
  | script path =>
      have hscript := withoutLog_runScript host verbose' path (read path)
      simpa [run, start, Next.run, Transcript.behind] using hscript
  | prompt =>
      have hlines := withoutLog_runLines host verbose' .start (inputLines input)
      simp only [run, start, Next.run, Transcript.withoutLog_behind, hlines]
      rfl

/-- Two runs that are asked for the same, of which both keep a log or none does. -/
theorem run_eq {i j : Invocation} (hcommand : j.command = i.command)
    (hverbose : j.verbose = i.verbose) (host : Host) (read : String → Except FileError ByteArray)
    (input : String) : j.run host read input = i.run host read input := by
  rw [run, run, start, start, hcommand, hverbose]

/-! ## The flag among the arguments -/

/-- What the program is asked to do does not depend on whether there is a log. -/
theorem command_ofRest (arguments : List String) (file : String) (verbose verbose' : Bool) :
    (ofRest file verbose arguments).command = (ofRest file verbose' arguments).command := by
  induction arguments generalizing file verbose verbose' with
  | nil => rfl
  | cons argument rest ih =>
      unfold ofRest
      repeat' split
      · rfl
      · exact ih file true true
      · rfl
      · exact ih argument verbose verbose'
      · rfl

/-- Once there is a log, it is kept. -/
theorem verbose_ofRest_true (arguments : List String) (file : String) :
    (ofRest file true arguments).verbose = true := by
  induction arguments generalizing file with
  | nil => rfl
  | cons argument rest ih =>
      unfold ofRest
      repeat' split
      · rfl
      · exact ih file
      · rfl
      · exact ih argument
      · rfl

/-- Without a flag there is no log. -/
theorem verbose_ofRest_of_forall {arguments : List String}
    (h : ∀ argument ∈ arguments, isVerboseFlag argument = false) (file : String) (verbose : Bool) :
    (ofRest file verbose arguments).verbose = verbose := by
  induction arguments generalizing file with
  | nil => rfl
  | cons argument rest ih =>
      rcases List.forall_mem_cons.1 h with ⟨hargument, hrest⟩
      unfold ofRest
      rw [hargument]
      repeat' split
      · rfl
      · contradiction
      · rfl
      · exact ih hrest argument
      · rfl

/-- A flag for the log is taken note of, and the arguments behind it are read as if it were not
there. -/
theorem ofRest_flag {flag : String} (hflag : isVerboseFlag flag = true) (file : String)
    (verbose : Bool) (arguments : List String) :
    ofRest file verbose (flag :: arguments) = ofRest file true arguments := by
  have hhelp : isHelpFlag flag = false := by
    rcases Bool.or_eq_true _ _ ▸ hflag with h | h <;> rw [eq_of_beq h] <;> rfl
  simp [ofRest, hhelp, hflag]

/-- A flag somewhere among the arguments leaves what is asked for, and only ever adds a log. -/
theorem ofRest_insert {flag : String} (hflag : isVerboseFlag flag = true)
    (before after : List String) (file : String) (verbose : Bool) :
    (ofRest file verbose (before ++ flag :: after)).command =
        (ofRest file verbose (before ++ after)).command ∧
      ((ofRest file verbose (before ++ after)).verbose = true →
        (ofRest file verbose (before ++ flag :: after)).verbose = true) := by
  -- What stands in front of the flag may set the file and the log, so the induction is over all of
  -- these.
  induction before generalizing file verbose with
  | nil =>
      rw [List.nil_append, List.nil_append, ofRest_flag hflag]
      exact ⟨command_ofRest after file true verbose, fun _ => verbose_ofRest_true after file⟩
  | cons argument before ih =>
      simp only [List.cons_append, ofRest]
      repeat' split
      · exact ⟨rfl, id⟩
      · exact ih file true
      · exact ⟨rfl, id⟩
      · exact ih argument verbose
      · exact ⟨rfl, id⟩

theorem isVerboseFlag_iff (argument : String) :
    isVerboseFlag argument = true ↔ argument = "-v" ∨ argument = "--verbose" := by
  simp [isVerboseFlag, or_comm]

/-- A verbose flag that is inserted anywhere among the arguments changes neither the exit nor what
goes to the standard output. Without it, the same goes to the standard error stream less the records
of the log; if there was a flag already, then nothing changes at all. This holds for whatever the
system finds at the paths that it is asked for. -/
theorem run_insert_verbose (before after : List String) {flag : String}
    (hflag : flag = "-v" ∨ flag = "--verbose") (host : Host)
    (read : String → Except FileError ByteArray) (input : String) :
    let invocation := ofArguments (before ++ after)
    let quiet := invocation.run host read input
    let logged := (ofArguments (before ++ flag :: after)).run host read input
    logged.exit = quiet.exit ∧ logged.stdout = quiet.stdout ∧
      (invocation.verbose = false → quiet.errWrites = logged.errWrites.filter fun w => !w.isLog) ∧
      (invocation.verbose = true → logged = quiet) ∧
      ((∀ argument ∈ before ++ after, argument ≠ "-v" ∧ argument ≠ "--verbose") →
        invocation.verbose = false) := by
  intro invocation quiet logged
  rcases ofRest_insert ((isVerboseFlag_iff flag).2 hflag) before after "" false with
    ⟨hcommand, hverbose⟩
  have hsame : invocation.verbose = true → logged = quiet := fun h =>
    run_eq hcommand ((hverbose h).trans h.symm) host read input
  have hless : invocation.verbose = false → logged.withoutLog = quiet := fun h =>
    run_withoutLog hcommand h host read input
  -- With a flag among the other arguments both runs keep a log, and they are the same run.
  have hboth : logged.exit = quiet.exit ∧ logged.stdout = quiet.stdout := by
    cases h : invocation.verbose with
    | true =>
        rw [hsame h]
        exact ⟨rfl, rfl⟩
    | false =>
        rw [← hless h, Transcript.stdout_withoutLog]
        exact ⟨rfl, rfl⟩
  refine ⟨hboth.1, hboth.2, fun h => ?_, hsame, fun h => ?_⟩
  · rw [← hless h, Transcript.errWrites_withoutLog]
  · refine verbose_ofRest_of_forall (fun argument hargument => ?_) "" false
    rw [← Bool.not_eq_true, isVerboseFlag_iff, not_or]
    exact h argument hargument

/-- A script in another directory that prints, and then fails: with a log there are three records,
one of them between what is printed and the error. -/
theorem run_insert_verbose_fault :
    let host : Host := .standard ⟨0⟩
    let read (path : String) : Except FileError ByteArray :=
      if path = "/tmp/fault.lox" then .ok "print 1; -nil;".toUTF8 else .error .missing
    let quiet := (ofArguments ["/tmp/fault.lox"]).run host read ""
    let logged := (ofArguments ["/tmp/fault.lox", "-v"]).run host read ""
    logged.exit = quiet.exit ∧ logged.stdout = quiet.stdout ∧
      quiet.errWrites = logged.errWrites.filter (fun w => !w.isLog) ∧
      logged.writes.map Write.isLog = [true, true, false, true, false] ∧
      logged.exit = .runtimeError ∧ logged.stdout = "1\n" := by
  intro host read quiet logged
  rcases run_insert_verbose ["/tmp/fault.lox"] [] (.inl rfl) host read "" with
    ⟨hexit, hstdout, herr, -, -⟩
  -- two records before the output, and one before the error
  have hlog : logged.writes.map Write.isLog = [true, true, false, true, false] ∧
      logged.exit = .runtimeError ∧ logged.stdout = "1\n" := by decide +kernel
  exact ⟨hexit, hstdout, herr rfl, hlog⟩

end Invocation

end LoxLang
