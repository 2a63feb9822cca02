import LoxLang.Proofs.Eval.Recorded
import LoxLang.Proofs.Scope.Continued
import LoxLang.Session

/-!
# Where a `return` leads

A `return` ends the call that it belongs to, and nothing else.

* `Resolver.not_anyReturns`: a program without faults has no `return` outside of its functions.
* `returns_end_calls` says of such a program that its top level is never left by a `return`, and of
  every call that a `return` in it is the last thing that the body comes to.
-/

namespace LoxLang

open Exec

namespace Resolver

variable {ctx : Context}

mutual

/-- Where a `return` would be a fault, a walk without faults comes to none. -/
theorem not_mayReturn_of_quiet (hctx : ctx.function = .none) : ∀ {s : Stmt} {state : State},
    Quiet (stmt ctx s) state → ¬ s.MayReturn
  | .block _, _, h => not_anyReturns_of_quiet hctx h
  | .ifElse condition thenBranch none, _, h => by
      rcases Quiet.of_bind h (Mild.expr ctx condition).adds (adds.stmt ctx thenBranch) with
        ⟨-, hthen⟩
      exact not_mayReturn_of_quiet (s := thenBranch) hctx hthen
  | .ifElse condition thenBranch (some elseBranch), _, h => by
      have hbranches : Adds (stmt ctx thenBranch >>= fun _ => stmt ctx elseBranch) :=
        (adds.stmt ctx thenBranch).bind (adds.stmt ctx elseBranch)
      rcases Quiet.of_bind h (Mild.expr ctx condition).adds hbranches with ⟨-, hrest⟩
      rcases Quiet.of_bind hrest (adds.stmt ctx thenBranch) (adds.stmt ctx elseBranch) with
        ⟨hthen, helse⟩
      rintro (hreturns | hreturns)
      · exact not_mayReturn_of_quiet hctx hthen hreturns
      · exact not_mayReturn_of_quiet hctx helse hreturns
  | .returnValue keyword value, _, h => by
      -- the fault is reported before the value is looked at
      have hvalue := (Mild.expr? ctx value).adds
      rcases Quiet.of_bind h (Mild.checkReturn ctx keyword value).adds hvalue with ⟨hcheck, -⟩
      rw [checkReturn, if_pos hctx] at hcheck
      exact absurd hcheck not_quiet_report
  | .whileLoop condition body, _, h => by
      rcases Quiet.of_bind h (Mild.expr ctx condition).adds (adds.stmt ctx body) with ⟨-, hbody⟩
      exact not_mayReturn_of_quiet (s := body) hctx hbody
  | .classDecl .., _, _ | .expression _, _, _ | .function _, _, _ | .print _, _, _
  | .varDecl .., _, _ => not_false

theorem not_anyReturns_of_quiet (hctx : ctx.function = .none) : ∀ {ss : List Stmt} {state : State},
    Quiet (stmts ctx ss) state → ¬ Stmt.AnyReturns ss
  | [], _, _ => not_false
  | s :: ss, _, h => by
      rcases Quiet.of_bind h (adds.stmt ctx s) (adds.stmts ctx ss) with ⟨hfirst, hrest⟩
      rintro (hreturns | hreturns)
      · exact not_mayReturn_of_quiet hctx hfirst hreturns
      · exact not_anyReturns_of_quiet hctx hrest hreturns

end

/-- No statement of a program without faults returns. -/
theorem not_anyReturns {ss : List Stmt} {known : List String} (h : (resolve ss known).errors = []) :
    ¬ Stmt.AnyReturns ss := by
  have herrors := ((resolve_errors_eq_nil rfl).1 h).1
  have hquiet : Quiet (stmts ⟨.none, .none⟩ ss) (start known) := by
    unfold Quiet
    rw [herrors]
    exact Nat.zero_le _
  exact not_anyReturns_of_quiet rfl hquiet

end Resolver

theorem Stmt.anyReturns_of_mem {s : Stmt} {ss : List Stmt} (h : s ∈ ss) (hs : s.MayReturn) :
    Stmt.AnyReturns ss := by
  induction ss with
  | nil => cases h
  | cons s' ss ih =>
      rcases List.mem_cons.1 h with rfl | h
      · exact .inl hs
      · exact .inr (ih h)

namespace Recorded

variable {ctx : Context}

/-- The value that a call gives once its body has ended. -/
def outcome : EStateM.Result Halt Recorder Flow → EStateM.Result Halt Machine Value
  | .ok flow r => .ok flow.value r.machine
  | .error reason r => .error reason r.machine

/-- A `return` stands at the end of a record only, and decides the outcome. -/
theorem Shows.return_last {before behind : List Task} {t : Task}
    {result : EStateM.Result Halt Recorder Flow} (h : Shows ctx (before ++ t :: behind) result)
    (ht : t.Returns) : behind = [] ∧ t.Gives ctx (outcome result) := by
  -- all tasks but the last one are no `return`, so that `t` is the last one
  have hlast : ∀ {tasks : List Task} {t' : Task}, (∀ t ∈ tasks, ¬ t.Returns) →
      before ++ t :: behind = tasks ++ [t'] → behind = [] ∧ t = t' := by
    intro tasks t' htasks heq
    rcases behind.eq_nil_or_concat with rfl | ⟨behind', t'', rfl⟩
    · exact ⟨rfl, List.singleton_inj.1 (List.append_inj' heq rfl).2⟩
    · rw [List.concat_eq_append, ← List.cons_append, ← List.append_assoc] at heq
      have hmem : t ∈ tasks := by
        rw [← (List.append_inj' heq rfl).1]
        exact List.mem_append_right _ List.mem_cons_self
      exact absurd ht (htasks t hmem)
  have hmem : t ∈ before ++ t :: behind := List.mem_append_right _ List.mem_cons_self
  generalize htasks : before ++ t :: behind = tasks at h hmem
  cases h with
  | next hnone => exact absurd ht (hnone t hmem)
  | halted hnone => exact absurd ht (hnone t hmem)
  | returned hnone hgives =>
      rcases hlast hnone htasks with ⟨hbehind, rfl⟩
      exact ⟨hbehind, hgives⟩
  | haltedInside hnone hgives =>
      rcases hlast hnone htasks with ⟨hbehind, rfl⟩
      exact ⟨hbehind, hgives⟩

/-- Without a `return`, a body that ends gives `nil`. -/
theorem Shows.value_eq_nil {tasks : List Task} {result : EStateM.Result Halt Recorder Flow}
    (h : Shows ctx tasks result) (hnone : ∀ t ∈ tasks, ¬ t.Returns) {v : Value} {m : Machine}
    (hresult : outcome result = .ok v m) : v = .nil := by
  cases h with
  | next _ =>
      cases hresult
      rfl
  | returned _ hgives =>
      rcases hgives with ⟨keyword, value, hnode, -⟩
      exact absurd ⟨keyword, value, hnode⟩ (hnone _ (List.mem_append_right _ List.mem_cons_self))
  | halted _ => cases hresult
  | haltedInside _ _ => cases hresult

/-- What is recorded when the body of a function is run. -/
def bodyRecord (ctx : Context) (n : Nat) (closure : Closure) (arguments : List Value)
    (m : Machine) : List Task :=
  (after (body ctx n closure arguments ⟨m, []⟩)).record

/-- The record of a call goes together with what the call gives. -/
theorem bodyRecord_shows (ctx : Context) (n : Nat) (paren : Token) {closure : Closure}
    (hclosure : closure.isInitializer = false) (arguments : List Value) (m : Machine) :
    ∃ result, Shows ctx (bodyRecord ctx n closure arguments m) result ∧
      outcome result = runBody ctx (n + 1) paren closure arguments m := by
  -- All but the last step of a call: only that one depends on what kind of function it is.
  let statements : Recorded Flow := do
    let frame ← silent (orDefect (bindParameters .empty closure.decl.params arguments))
    let env ← silent (enter closure.env frame)
    stmts ctx n env closure.decl.body
  have hends : Ends ctx statements :=
    .behind (.silent _) fun _ => .behind (.silent _) fun env => ends_stmts n closure.decl.body env
  have hbody : body ctx n closure arguments =
      statements >>= fun flow => silent (callResult closure flow) := by
    simp only [body, statements, bind_assoc]
  have hvalue : ∀ flow, callResult closure flow = pure flow.value := fun flow => by
    simp [callResult, hclosure]
  have hforget := erases_body ctx n paren closure arguments ⟨m, []⟩
  rcases hends ⟨m, []⟩ with ⟨tasks, hrecord, hshows⟩
  refine ⟨statements ⟨m, []⟩, ?_⟩
  rw [bodyRecord, ← hforget, hbody]
  cases hrun : statements ⟨m, []⟩ with
  | error reason r =>
      rw [hrun] at hrecord hshows
      rw [Halt.bind_error hrun]
      exact ⟨(show r.record = tasks from hrecord) ▸ hshows, rfl⟩
  | ok flow r =>
      rw [hrun] at hrecord hshows
      rw [Halt.bind_ok hrun, hvalue]
      exact ⟨(show r.record = tasks from hrecord) ▸ hshows, rfl⟩

end Recorded

/-- A program without faults is never left by a `return` at its top level. In a call of a function
that is not an initializer, a `return` that is come to, however deep inside of the body, is the last
part of the body that is run, and its value is what the call gives. If the body comes to none, the
call gives `nil`. -/
theorem returns_end_calls (ctx : Context) :
    (∀ ss known, (resolve ss known).errors = [] → ∀ s ∈ ss, ∀ run env m flow m',
      exec ctx run env s m = .ok flow m' → flow = .next) ∧
    ∀ n paren closure arguments m, closure.isInitializer = false →
      let record := Recorded.bodyRecord ctx n closure arguments m
      let call := runBody ctx (n + 1) paren closure arguments m
      Recorded.forget (Recorded.body ctx n closure arguments ⟨m, []⟩) = call ∧
      (∀ before t behind keyword value, record = before ++ t :: behind →
        t.node = .stmt (.returnValue keyword value) →
        behind = [] ∧ call = evalOptional ctx (runBody ctx t.calls) t.env value t.machine) ∧
      ((∀ t ∈ record, ¬ t.Returns) → ∀ v m', call = .ok v m' → v = .nil) := by
  refine ⟨?_, ?_⟩
  -- the resolver allows no `return` at the top level
  · intro ss known herrors s hs run env m flow m' hrun
    exact exec_next (fun hreturns => Resolver.not_anyReturns herrors
      (Stmt.anyReturns_of_mem hs hreturns)) hrun
  · intro n paren closure arguments m hclosure record call
    rcases Recorded.bodyRecord_shows ctx n paren hclosure arguments m with ⟨result, hshows, hresult⟩
    refine ⟨Recorded.erases_body ctx n paren closure arguments ⟨m, []⟩, ?_, ?_⟩
    -- the last task on record is the `return`, and its value is that of the call
    · intro before t behind keyword value hrecord hnode
      rw [show Recorded.bodyRecord ctx n closure arguments m = _ from hrecord] at hshows
      rcases hshows.return_last ⟨keyword, value, hnode⟩ with
        ⟨hbehind, keyword', value', hnode', hgives⟩
      rw [hnode] at hnode'
      cases hnode'
      exact ⟨hbehind, (hgives.trans hresult).symm⟩
    -- without one, the body came to its end
    · intro hnone v m' hcall
      exact hshows.value_eq_nil hnone (hresult.trans hcall)

/-- A function returns out of a block in a branch in a loop: neither the loop nor what follows it is
gone on with. -/
theorem returns_end_calls_inside :
    let host : Host := .standard ⟨0⟩
    let source := "fun f(n) \x7b while (true) \x7b if (n) \x7b return \"a\"; \x7d " ++
      "print 1; \x7d print 2; \x7d"
    let program := Program.ofSource source 0
    let s := (Session.start.run host source).2
    let m := s.machine
    let ctx : Context := ⟨s.links, host⟩
    let record := Recorded.bodyRecord ctx 0 (m.function 0) [.bool true] m
    let call := runBody ctx 1 default (m.function 0) [.bool true] m
    ((resolve program.statements []).errors = [] ∧ ∀ s ∈ program.statements,
      ∀ run env m flow m', exec ctx run env s m = .ok flow m' → flow = .next) ∧
    (m.function 0).isInitializer = false ∧ record.length = 7 ∧ ∃ before t keyword value m',
      record = before ++ [t] ∧ t.node = .stmt (.returnValue keyword value) ∧
      call = .ok (.string "a") m' ∧
      call = evalOptional ctx (runBody ctx t.calls) t.env value t.machine := by
  intro host source program s m ctx record call
  have herrors : (resolve program.statements []).errors = [] := by decide +kernel
  have hinitializer : (m.function 0).isInitializer = false := by decide +kernel
  have hlength : record.length = 7 := by decide +kernel
  have hvalue : (match call with
      | .ok v _ => v == .string "a"
      | .error .. => false) = true := by decide +kernel
  rcases returns_end_calls ctx with ⟨htop, hcalls⟩
  rcases hcalls 0 default (m.function 0) [.bool true] m hinitializer with ⟨-, hreturn, hnone⟩
  cases hcall : call with
  | error reason m' =>
      rw [hcall] at hvalue
      cases hvalue
  | ok v m' =>
      rw [hcall] at hvalue
      obtain rfl : v = .string "a" := beq_iff_eq.1 hvalue
      -- A call that comes to no `return` would give `nil`.
      have hreturns : ∃ t ∈ record, t.Returns := by
        refine Classical.byContradiction fun hno => ?_
        cases hnone (fun t ht hreturns => hno ⟨t, ht, hreturns⟩) _ _ hcall
      rcases hreturns with ⟨t, ht, keyword, value, hnode⟩
      rcases List.append_of_mem ht with ⟨before, behind, hrecord⟩
      rcases hreturn before t behind keyword value hrecord hnode with ⟨rfl, hgives⟩
      exact ⟨⟨herrors, htop _ _ herrors⟩, hinitializer, hlength, before, t, keyword, value, m',
        hrecord, hnode, rfl, hcall.symm.trans hgives⟩

end LoxLang
