import LoxLang.Proofs.Grammar.Exact
import LoxLang.Proofs.Scope.Resolution
import LoxLang.Proofs.Token.Spelling
import LoxLang.Session

/-!
# What a run of a source can do

* `Session.after` is a session in which some sources have been run, one after the other.
* `Session.Accepts`: a source passes all checks, and reads as some statements.
* `Program.faults` are the static errors of a program when some globals are known. Checking a source
  and running it differ in these globals and in the first number only (`check_eq_faults`,
  `Session.staticErrors_run`).
* `Session.run_cases` says all that a run does before anything is executed: a source with a fault
  moves the numbering on and does nothing else, and a source without one is executed.
-/

namespace LoxLang

namespace Session

/-- The session in which some sources have been run, each on the host that is given with it. -/
def after (history : List (Host × String)) : Session :=
  history.foldl (fun s line => (s.run line.1 line.2).2) start

/-- What holds at the start of a session and behind every run holds of all sessions. -/
theorem after_induction {P : Session → Prop} (hstart : P start)
    (hrun : ∀ s host source, P s → P (s.run host source).2) (history : List (Host × String)) :
    P (after history) := by
  have hfold : ∀ s, P s → P (history.foldl (fun s line => (s.run line.1 line.2).2) s) := by
    induction history with
    | nil => exact fun _ h => h
    | cons line history ih => exact fun s h => ih _ (hrun s line.1 line.2 h)
  exact hfold start hstart

/-- A source that passes all checks: its tokens, its statements and the number behind them. -/
structure Accepts (s : Session) (source : String) (ts : List Token) (ss : List Stmt) (j : NodeId) :
    Prop where
  scan_eq : ∃ eof, Token.scan source = (ts ++ [eof], []) ∧ eof.kind = .eof
  spelled : ∀ t ∈ ts, t.Spelled ∧ t.kind ≠ .eof
  reading : Reading.Declarations ts s.nextId ss j
  resolved : (resolve ss s.globals.names).errors = []

/-- What a session accepts is numbered from its next number on. -/
theorem Accepts.formed {s : Session} {source : String} {ts : List Token} {ss : List Stmt}
    {j : NodeId} (h : s.Accepts source ts ss j) : Stmt.AllFormed ss s.nextId j :=
  h.reading.formed fun t ht => (h.spelled t ht).1

end Session

/-- Reading a token list only ever moves the numbering on. -/
theorem Program.le_nextId (tokens : List Token) (firstId : NodeId) :
    firstId ≤ (Program.ofTokens tokens firstId).nextId := by
  have hfinish := Program.finishes_depthBound tokens firstId
  have hsteady := Parser.steady_program (Parser.depthBound tokens) ⟨tokens, firstId, []⟩
  unfold Program.ofTokens
  unfold Parser.Finishes at hfinish
  cases hrun : Parser.program (Parser.depthBound tokens) ⟨tokens, firstId, []⟩ with
  | ok ss s =>
      rw [hrun] at hsteady
      exact hsteady.nextId
  | error e s =>
      rw [hrun] at hfinish hsteady
      cases e with
      -- the bound that is given is never used up
      | exhausted => exact hfinish.elim
      | panic => exact hsteady.1.nextId

/-! ## Static errors -/

/-- The static errors of a program. The names are looked at if it could be read. -/
def Program.faults (program : Program) (known : List String) : List StaticError :=
  match program.errors with
  | [] => (resolve program.statements known).errors
  | errors => errors

/-- The check of a source is what a session would find, with the natives as the only globals. -/
theorem check_eq_faults (source : String) :
    check source = (Program.ofSource source 0).faults Machine.nativeNames := rfl

/-- The static errors of a run are those of the program, with the globals that are there. -/
theorem Session.staticErrors_run (s : Session) (host : Host) (source : String) :
    (s.run host source).1.staticErrors =
      (Program.ofSource source s.nextId).faults s.globals.names := by
  unfold Session.run Program.faults Program.ofSource
  dsimp only
  cases (Token.scan source).2 ++ (Program.ofTokens (Token.scan source).1 s.nextId).errors with
  | cons e es => rfl
  | nil =>
      dsimp only [Session.globals]
      generalize hr : resolve _ s.machine.globalFrame.names = r
      rcases r with ⟨links, errors⟩
      cases errors with
      | cons e es => rfl
      | nil => rfl

/-- The static errors of a source are those that keep it from being run. -/
theorem check_eq (host : Host) (source : String) :
    check source = (runSource host source).staticErrors :=
  (Session.staticErrors_run .start host source).symm

/-- No run that got as far as executing is reported as faulty in its text. -/
theorem Report.exit_ne_staticError {r : Report} (h : r.staticErrors = []) :
    r.exit ≠ .staticError := by
  unfold Report.exit
  rw [h]
  cases r.ending with
  | completed => simp
  | halted _ => simp

namespace Session

/-- A run of a source either reports faults or executes it. -/
theorem run_cases (s : Session) (host : Host) (source : String) :
    (∃ errors stages j, errors ≠ [] ∧ s.nextId ≤ j ∧
      s.run host source = (.rejected errors stages, { s with nextId := j })) ∨
    ∃ ts ss j stages, s.Accepts source ts ss j ∧
      s.run host source =
        { s with nextId := j }.execute host ss (resolve ss s.globals.names).links stages := by
  rcases Token.scan_eq_append source with ⟨ts, eof, hscan, heof, hspelled⟩
  have hle := Program.le_nextId (Token.scan source).1 s.nextId
  generalize hprogram : Program.ofTokens (Token.scan source).1 s.nextId = program at hle
  rcases hpair : Token.scan source with ⟨tokens, scanErrors⟩
  rw [hpair] at hscan hprogram
  unfold run
  rw [hpair]
  dsimp only
  rw [hprogram]
  cases hfaults : scanErrors ++ program.errors with
  -- rejected by the scanner or the parser
  | cons e es => exact .inl ⟨e :: es, _, _, by simp, hle, rfl⟩
  | nil =>
      rcases List.append_eq_nil_iff.1 hfaults with ⟨rfl, herrors⟩
      rcases program with ⟨ss, errors, j⟩
      cases herrors
      change tokens = ts ++ [eof] at hscan
      subst hscan
      have hreading := (Program.ofTokens_eq_iff_reading heof fun t ht => (hspelled t ht).2).1 hprogram
      cases hresolved : (resolve ss (globals { s with nextId := j }).names).errors with
      -- rejected by the resolver
      | cons e es => exact .inl ⟨e :: es, _, _, by simp, hle, rfl⟩
      | nil => exact .inr ⟨ts, ss, j, _, ⟨⟨eof, hpair, heof⟩, hspelled, hreading, hresolved⟩, rfl⟩

/-- A source that passes all checks is executed, once it is known how much of it there is. -/
theorem run_of_accepts {s : Session} {source : String} {ts : List Token} {ss : List Stmt}
    {j : NodeId} (h : s.Accepts source ts ss j) (host : Host) :
    s.run host source =
      { s with nextId := j }.execute host ss (resolve ss s.globals.names).links
        [.parsed (ts.length + 1) ss.length,
          .resolved (resolve ss s.globals.names).links.size 0] := by
  rcases h.scan_eq with ⟨eof, hscan, heof⟩
  have hprogram := (Program.ofTokens_eq_iff_reading heof fun t ht => (h.spelled t ht).2).2 h.reading
  have hresolved : (resolve ss (globals { s with nextId := j }).names).errors = [] := h.resolved
  unfold run
  rw [hscan]
  dsimp only
  rw [hprogram]
  simp only [List.append_nil, hresolved, List.length_append]
  rfl

end Session

end LoxLang
