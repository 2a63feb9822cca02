import LoxLang.Proofs.Parsing.Renumbered
import LoxLang.Proofs.Scope.Known
import LoxLang.Proofs.Session.Globals

/-!
# Checking a source against a session

A source is checked on its own, without the globals and the numbering of a session that it may be
given to.

* `Program.faults_spares`: with other numbers and with more globals, only reads of a variable in its
  own initializer are no longer faulty.
* `Session.static_errors_checked` is the result for every session that can be reached.
-/

namespace LoxLang

namespace Program

/-- Reading a source with a numbering that starts further on. -/
theorem ofSource_add (source : String) (firstId : NodeId) (k : Nat) :
    ofSource source (firstId + k) =
      ⟨Stmt.renumberAll (· + k) (ofSource source firstId).statements,
        (ofSource source firstId).errors, (ofSource source firstId).nextId + k⟩ := by
  unfold ofSource
  dsimp only
  rw [ofTokens_add]

/-- The more globals are known, the fewer own-initializer reads are faulty, and nothing else is
affected, nor are the numbers. -/
theorem faults_spares (source : String) (firstId : NodeId) (k : Nat) {known known' : List String}
    (h : known ⊆ known') :
    Spares ((ofSource source firstId).faults known)
      ((ofSource source (firstId + k)).faults known') := by
  rw [ofSource_add]
  unfold faults
  dsimp only
  cases (ofSource source firstId).errors with
  | nil => exact resolve_spares (· + k) _ h
  | cons e es => exact .refl _

end Program

namespace Session

/-- A source on its own, and at any point of any session. What a session does not find fault with is
a read of a variable in its own initializer, every time; the other errors are the same, in the same
order and as often. -/
theorem static_errors_checked (history : List (Host × String)) (host : Host) (source : String) :
    let run := (after history).run host source
    let others (e : StaticError) : Bool :=
      e.message != "Can't read local variable in its own initializer."
    (runSource host source).staticErrors = check source ∧
      run.1.staticErrors.Sublist (check source) ∧
      run.1.staticErrors.filter others = (check source).filter others ∧
      (check source = [] → run.1.staticErrors = [] ∧ run.1.exit ≠ .staticError) := by
  intro run others
  have hspares : Spares (check source) run.1.staticErrors := by
    have hfaults := Program.faults_spares source 0 (after history).nextId (nativeNames_subset history)
    rwa [Nat.zero_add, ← staticErrors_run _ host, ← check_eq_faults] at hfaults
  refine ⟨(check_eq host source).symm, hspares.sublist, hspares.filter_eq ?_, ?_⟩
  · intro e he
    simp [others, StaticError.message_of_isOwnRead he]
  · intro hnone
    have herrors : run.1.staticErrors = [] := by
      have hsublist := hspares.sublist
      rwa [hnone, List.sublist_nil] at hsublist
    exact ⟨herrors, Report.exit_ne_staticError herrors⟩

/-- A global that is not there when the sources are checked: a variable that shadows it is
initialized with it. -/
theorem static_errors_checked_shadowing :
    let host : Host := .standard ⟨0⟩
    let s := after [(host, "var a = 1;")]
    let shadowing := "\x7b var a = a; print a; \x7d"
    let accepted := "\x7b var b = a; print b; \x7d"
    ((check shadowing).map StaticError.report =
        ["[line 1] Error at 'a': Can't read local variable in its own initializer."] ∧
      (s.run host shadowing).1.staticErrors = [] ∧
      (s.run host shadowing).1.staticErrors.Sublist (check shadowing)) ∧
    check accepted = [] ∧ (s.run host accepted).1.exit ≠ .staticError := by
  intro host s shadowing accepted
  have hchecked : check accepted = [] := by decide +kernel
  rcases static_errors_checked [(host, "var a = 1;")] host shadowing with ⟨-, hsublist, -, -⟩
  rcases static_errors_checked [(host, "var a = 1;")] host accepted with ⟨-, -, -, haccepted⟩
  exact ⟨⟨by decide +kernel, by decide +kernel, hsublist⟩, hchecked, (haccepted hchecked).2⟩

end Session

end LoxLang
