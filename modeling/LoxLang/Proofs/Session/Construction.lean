import LoxLang.Proofs.Eval.Construction
import LoxLang.Proofs.Session.Globals
import LoxLang.Proofs.Session.Course

/-!
# Construction in a session

What a session can rely on when it calls a class or an initializer, whatever its initializers do.
-/

namespace LoxLang

open Exec

namespace Session

/-- In every session, a call of a class that ends gives an object that has not been there before.
The object is of that class, for the rest of the session. A call of an initializer gives the object
that the initializer has been taken from. -/
theorem construction_fresh (history : List (Host × String)) (host : Host) (source : String)
    (hclean : ((after history).run host source).1.exit ≠ .staticError) :
    let ctx := (after history).context host source
    (∀ m, Met history m → m.Constructs) ∧
    ∀ t, ((after history).task host source).Leads ctx t → t.Constructs ctx ∧
      (t.Inner → ((after history).run host source).1.ending ≠ .halted .unfinished → ∀ more,
        (t.behind ctx).Evolves (after (history ++ (host, source) :: more)).machine) := by
  intro ctx
  refine ⟨fun m hm => hm.valid.constructs, fun t ht => ⟨?_, ?_⟩⟩
  · rcases leads_tracked hclean ht with ⟨A, own, Γ, hF, htracked⟩
    exact htracked.constructs_objects hF (task_course ht).1
  · exact fun hinner hfinished more => behind_evolves hclean ht hinner hfinished more

/-- An initializer that returns out of a loop and calls itself on its object, and one that calls it
by `super`. -/
theorem construction_fresh_derived :
    let host : Host := .standard ⟨0⟩
    let classes := "class A \x7b init(n) \x7b this.n = n; while (n > 0) \x7b " ++
      "if (n > 1) return; this.init(2); return; \x7d \x7d \x7d var kept; " ++
      "class B < A \x7b init(n) \x7b super.init(n); kept = this; \x7d \x7d"
    let source := "var b = B(1); print b == kept; print b.init(1) == b; print B(0) == b; print b.n;"
    let s := after [(host, classes)]
    ((s.run host source).1.exit = .ok ∧
      (s.run host source).1.output = ["true", "true", "false", "2"]) ∧
      s.machine.Constructs ∧ ∀ t, (s.task host source).Leads (s.context host source) t →
        t.Constructs (s.context host source) := by
  intro host classes source s
  have hrun : (s.run host source).1.exit = .ok ∧
      (s.run host source).1.output = ["true", "true", "false", "2"] := by
    decide +kernel
  have hclean : (s.run host source).1.exit ≠ .staticError := by
    rw [hrun.1]
    decide
  rcases construction_fresh [(host, classes)] host source hclean with ⟨hmet, htasks⟩
  exact ⟨hrun, hmet _ .between, fun t ht => (htasks t ht).1⟩

end Session

end LoxLang
