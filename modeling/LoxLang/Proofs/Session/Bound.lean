import LoxLang.Proofs.Eval.Bound
import LoxLang.Session

/-!
# The bound on nested calls

How many calls may be nested matters to a run only if it stops with a stack overflow. With room for
more calls, any other run is what it was, in all that it prints, reports and leaves behind; and one
that did stop has printed nothing that would not be printed then.
-/

namespace LoxLang

namespace Session

/-- A program is executed the same way with more room for calls, or overflows with less. -/
theorem execute_bound (s : Session) (host : Host) {calls calls' : Nat} (h : calls ≤ calls')
    (ss : List Stmt) (links : Links) (stages : List Stage) :
    let run := s.execute { host with maxCalls := calls } ss links stages
    let run' := s.execute { host with maxCalls := calls' } ss links stages
    run' = run ∨ ∃ paren, run.1.runtimeError? = some ⟨.stackOverflow, paren⟩ ∧
      run.1.output <+: run'.1.output := by
  have hexecute := Machine.execute_withCalls ⟨s.links ∪ links, { host with maxCalls := calls }⟩
    calls' h { s.machine with output := #[] } ss
  rcases hexecute with heq | ⟨paren, hending, hgrows⟩
  · exact .inl (congrArg (fun result : Ending × Machine =>
      (Report.mk result.2.output.toList [] result.1 stages,
        { s with links := s.links ∪ links, machine := result.2 })) heq)
  · exact .inr ⟨paren, congrArg Ending.error? hending, hgrows.output⟩

/-- One line, run with two bounds: the same, or the smaller bound stops it on its way. -/
theorem run_or_overflow (s : Session) (host : Host) (source : String) {calls calls' : Nat}
    (h : calls ≤ calls') :
    let run := s.run { host with maxCalls := calls } source
    let run' := s.run { host with maxCalls := calls' } source
    run' = run ∨ ∃ paren, run.1.runtimeError? = some ⟨.stackOverflow, paren⟩ ∧
      run.1.output <+: run'.1.output := by
  unfold run
  -- What is done before a program is executed does not ask the host.
  dsimp only
  split
  · exact .inl rfl
  · split
    · exact .inl rfl
    · exact execute_bound _ host h _ _ _

/-- With room for at least as many nested calls, a source gives the same report and leaves the same
session behind, unless it stopped with a stack overflow. Even then, what it printed is the beginning
of what is printed with more room. -/
theorem run_bound (s : Session) (host : Host) (source : String) {calls calls' : Nat}
    (h : calls ≤ calls') :
    let run := s.run { host with maxCalls := calls } source
    let run' := s.run { host with maxCalls := calls' } source
    ((∀ paren, run.1.runtimeError? ≠ some ⟨.stackOverflow, paren⟩) → run' = run) ∧
      run.1.output <+: run'.1.output := by
  intro run run'
  have hrun : run' = run ∨ ∃ paren, run.1.runtimeError? = some ⟨.stackOverflow, paren⟩ ∧
      run.1.output <+: run'.1.output := run_or_overflow s host source h
  rcases hrun with heq | ⟨paren, herror, hprefix⟩
  · have houtput : run'.1.output = run.1.output := congrArg (·.1.output) heq
    exact ⟨fun _ => heq, houtput ▸ List.prefix_rfl⟩
  · exact ⟨fun hother => absurd herror (hother paren), hprefix⟩

/-- A countdown, with room for two calls, for ten and for eleven. -/
theorem run_bound_countdown :
    let host : Host := .standard ⟨0⟩
    let run (calls : Nat) := start.run { host with maxCalls := calls }
      "fun f(n) { print n; if (n > 0) f(n - 1); } f(3);"
    ((run 2).1.output = ["3", "2"] ∧
        (run 2).1.runtimeError?.map RuntimeError.message = some "Stack overflow." ∧
        (run 2).1.output <+: (run 10).1.output) ∧
      (run 10).1.output = ["3", "2", "1", "0"] ∧ run 11 = run 10 := by
  intro host run
  -- Two calls are too few for counting down from three; ten are enough.
  have hsmall : (run 2).1.output = ["3", "2"] ∧
      (run 2).1.runtimeError?.map RuntimeError.message = some "Stack overflow." := by
    decide +kernel
  have hlarge : (run 10).1.output = ["3", "2", "1", "0"] ∧ (run 10).1.runtimeError? = none := by
    decide +kernel
  refine ⟨⟨hsmall.1, hsmall.2, ?_⟩, hlarge.1, ?_⟩
  · exact (run_bound start host _ (by decide : 2 ≤ 10)).2
  · refine (run_bound start host _ (by decide : 10 ≤ 11)).1 ?_
    intro paren herror
    exact absurd (hlarge.2.symm.trans herror) nofun

end Session

end LoxLang
