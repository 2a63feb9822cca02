import LoxLang.Eval.Run
import LoxLang.Proofs.Eval.Growth

/-!
# Room for more calls

With room for more nested calls, a program does what it did before, and goes on where it stopped
with a stack overflow.

* `Context.withCalls`: a context with room for some other number of nested calls.
* `Runner.Outlasts` is what is assumed of calls while an expression or a statement is run. It holds
  of `runBody` with fewer and with more calls, see `runBody_outlasts`.
* `Machine.execute_withCalls`: two runs of one program, with less and with more room.
* A run compared with itself only says that its machine grows: `Machine.execute_grows`.
-/

namespace LoxLang

open Exec

def Context.withCalls (ctx : Context) (calls : Nat) : Context :=
  { ctx with host := { ctx.host with maxCalls := calls } }

def Runner.Outlasts (run run' : Runner) : Prop :=
  ∀ (paren : Token) (f : Closure) (arguments : List Value),
    LoxLang.Outlasts (run paren f arguments) (run' paren f arguments)

section Runs

variable {run run' : Runner} (ctx : Context) (calls : Nat)

/-! ## Calls -/

/-- A class with an initializer makes one call, a class without one makes none. -/
theorem outlasts_construct (hrun : run.Outlasts run') (paren : Token) (classId : ClassId)
    (initializer : Option Closure) (arguments : List Value) :
    Outlasts (construct run paren classId initializer arguments)
      (construct run' paren classId initializer arguments) := by
  refine (outlasts_newObject classId).bind fun object => ?_
  cases initializer with
  | none => exact .pure _
  | some method =>
      refine (outlasts_bindMethod method object).bind fun f => ?_
      exact (hrun paren f arguments).bind fun _ => .pure _

/-- The bound is not asked for by anything but the body of a function. -/
theorem outlasts_call (hrun : run.Outlasts run') (paren : Token) (callee : Value)
    (arguments : List Value) :
    Outlasts (call ctx run paren callee arguments)
      (call (ctx.withCalls calls) run' paren callee arguments) := by
  cases callee with
  | native f =>
      cases f
      exact (outlasts_checkArity paren 0 _).bind fun _ => outlasts_readClock ctx.host
  | function id =>
      refine .get_bind fun m => ?_
      exact (outlasts_checkArity paren _ _).bind fun _ => hrun paren _ arguments
  | classRef id =>
      refine .get_bind fun m => ?_
      refine (outlasts_checkArity paren _ _).bind fun _ => ?_
      exact outlasts_construct hrun paren id _ arguments
  | _ => exact .raise _ paren

/-! ## Expressions -/

mutual

/-- With more room for calls an expression comes to the same, unless the smaller room did not do. -/
theorem outlasts_eval (hrun : run.Outlasts run') (env : Env) : ∀ e : Expr,
    Outlasts (eval ctx run env e) (eval (ctx.withCalls calls) run' env e)
  | .assign id name value => by
      refine (outlasts_eval hrun env value).bind fun v => ?_
      exact (outlasts_assign ctx env id name v).bind fun _ => .pure v
  | .binary _ left operator right => by
      refine (outlasts_eval hrun env left).bind fun l => ?_
      exact (outlasts_eval hrun env right).bind fun r => .orRaise operator _
  | .call _ callee paren arguments => by
      refine (outlasts_eval hrun env callee).bind fun f => ?_
      refine (outlasts_evalAll hrun env arguments).bind fun vs => ?_
      exact outlasts_call ctx calls hrun paren f vs
  | .get _ object name =>
      (outlasts_eval hrun env object).bind fun v => outlasts_getProperty v name
  | .grouping _ inner => outlasts_eval hrun env inner
  | .literal _ value => .pure _
  | .logical _ left operator right => by
      refine (outlasts_eval hrun env left).bind fun l => ?_
      split
      · exact .pure l
      · exact outlasts_eval hrun env right
  | .set _ object name value => by
      refine (outlasts_eval hrun env object).bind fun o => ?_
      refine (outlasts_asObject o name).bind fun id => ?_
      refine (outlasts_eval hrun env value).bind fun v => ?_
      exact (outlasts_setField id name.lexeme v).bind fun _ => .pure v
  | .super id _ method => outlasts_superMethod ctx env id method
  | .this id keyword => outlasts_lookUp ctx env id keyword
  | .unary _ operator right =>
      (outlasts_eval hrun env right).bind fun v => .orRaise operator _
  | .variable ref => outlasts_lookUp ctx env ref.id ref.name

theorem outlasts_evalAll (hrun : run.Outlasts run') (env : Env) : ∀ es : List Expr,
    Outlasts (evalAll ctx run env es) (evalAll (ctx.withCalls calls) run' env es)
  | [] => .pure _
  | e :: es => by
      refine (outlasts_eval hrun env e).bind fun v => ?_
      exact (outlasts_evalAll hrun env es).bind fun vs => .pure _

end

theorem outlasts_evalCondition (hrun : run.Outlasts run') (env : Env) (e : Expr) :
    Outlasts (evalCondition ctx run env e) (evalCondition (ctx.withCalls calls) run' env e) :=
  (outlasts_eval ctx calls hrun env e).bind fun _ => .pure _

theorem outlasts_evalOptional (hrun : run.Outlasts run') (env : Env) (e : Option Expr) :
    Outlasts (evalOptional ctx run env e) (evalOptional (ctx.withCalls calls) run' env e) := by
  cases e with
  | none => exact .pure _
  | some e => exact outlasts_eval ctx calls hrun env e

/-! ## Statements -/

mutual

/-- The same of statements, by induction on the statement. -/
theorem outlasts_exec (hrun : run.Outlasts run') (env : Env) : ∀ s : Stmt,
    Outlasts (exec ctx run env s) (exec (ctx.withCalls calls) run' env s)
  | .block body => (outlasts_enter env .empty).bind fun inner => outlasts_execAll hrun inner body
  | .classDecl name superclass methods =>
      (outlasts_declareClass ctx env name superclass methods).bind fun _ => .pure _
  | .expression e => (outlasts_eval ctx calls hrun env e).bind fun _ => .pure _
  | .function decl => by
      refine (outlasts_newFunction ⟨decl, env, false⟩).bind fun v => ?_
      exact (outlasts_bindIn env.frame decl.name.lexeme v).bind fun _ => .pure _
  | .ifElse condition thenBranch none => by
      refine (outlasts_evalCondition ctx calls hrun env condition).bind fun holds => ?_
      cases holds with
      | false => exact .pure _
      | true => exact outlasts_exec hrun env thenBranch
  | .ifElse condition thenBranch (some elseBranch) => by
      refine (outlasts_evalCondition ctx calls hrun env condition).bind fun holds => ?_
      cases holds with
      | false => exact outlasts_exec hrun env elseBranch
      | true => exact outlasts_exec hrun env thenBranch
  | .print e => by
      refine (outlasts_eval ctx calls hrun env e).bind fun v => ?_
      exact (outlasts_print v).bind fun _ => .pure _
  | .returnValue _ value => (outlasts_evalOptional ctx calls hrun env value).bind fun _ => .pure _
  | .varDecl name initializer => by
      refine (outlasts_evalOptional ctx calls hrun env initializer).bind fun v => ?_
      exact (outlasts_bindIn env.frame name.lexeme v).bind fun _ => .pure _
  | .whileLoop condition body => by
      -- Both contexts leave room for the same number of turns.
      have hturn := outlasts_exec hrun env body
      have hcheck := outlasts_evalCondition ctx calls hrun env condition
      exact outlasts_loop hcheck hturn ctx.host.maxTurns

/-- By induction on the statements: where the run with fewer calls halts, the comparison ends. -/
theorem outlasts_execAll (hrun : run.Outlasts run') (env : Env) : ∀ ss : List Stmt,
    Outlasts (execAll ctx run env ss) (execAll (ctx.withCalls calls) run' env ss)
  | [] => .pure _
  | s :: ss => by
      refine (outlasts_exec hrun env s).bind fun flow => ?_
      cases flow with
      | next => exact outlasts_execAll hrun env ss
      | returned v => exact .pure _

end

/-! ## Function bodies -/

/-- What a body needs of the calls that are left to it. -/
theorem runBody_outlasts_succ {n n' : Nat}
    (h : Runner.Outlasts (runBody ctx n) (runBody (ctx.withCalls calls) n')) :
    Runner.Outlasts (runBody ctx (n + 1)) (runBody (ctx.withCalls calls) (n' + 1)) := by
  intro paren f arguments
  refine (Outlasts.orDefect _).bind fun frame => ?_
  refine (outlasts_enter f.env frame).bind fun env => ?_
  refine (outlasts_execAll ctx calls h env f.decl.body).bind fun flow => ?_
  unfold callResult
  split
  · exact outlasts_getAt f.env 0 "this"
  · exact .pure _

/-- With as many calls left, a body does the same whatever bound the host names. By induction on the
calls left. -/
theorem runBody_grows (n : Nat) :
    Runner.Outlasts (runBody ctx n) (runBody (ctx.withCalls calls) n) := by
  induction n with
  | zero => exact fun paren _ _ => .raise _ paren
  | succ n ih => exact runBody_outlasts_succ ctx calls ih

/-- By induction on the smaller number of calls. Where it is zero, the first run stops, and the
second one leaves a machine that has grown since. -/
theorem runBody_outlasts {n n' : Nat} (h : n ≤ n') :
    Runner.Outlasts (runBody ctx n) (runBody (ctx.withCalls calls) n') := by
  induction n generalizing n' with
  | zero => exact fun paren f arguments m =>
      .overflow (.refl m) ((runBody_grows ctx calls n' paren f arguments).grows m)
  | succ n ih =>
      cases n' with
      | zero => cases h
      | succ n' => exact runBody_outlasts_succ ctx calls (ih (Nat.le_of_succ_le_succ h))

/-! ## Programs -/

/-- The same of a program, where the room for calls is that of the host. -/
theorem outlasts_topLevel (h : ctx.host.maxCalls ≤ calls) : ∀ ss : List Stmt,
    Outlasts (execTopLevel ctx ss) (execTopLevel (ctx.withCalls calls) ss)
  | [] => .pure ()
  | s :: ss => by
      refine (outlasts_exec ctx calls (runBody_outlasts ctx calls h) Machine.globals s).bind ?_
      exact fun _ => outlasts_topLevel h ss

/-- With more room, a program that did not overflow runs as before; one that did goes on from
there. -/
theorem Machine.execute_withCalls (h : ctx.host.maxCalls ≤ calls) (m : Machine) (ss : List Stmt) :
    m.execute (ctx.withCalls calls) ss = m.execute ctx ss ∨
      ∃ paren, (m.execute ctx ss).1 = .halted (.error ⟨.stackOverflow, paren⟩) ∧
        (m.execute ctx ss).2.Grows (m.execute (ctx.withCalls calls) ss).2 := by
  have hresults := outlasts_topLevel ctx calls h ss m
  unfold Machine.execute
  generalize execTopLevel ctx ss m = r at hresults
  generalize execTopLevel (ctx.withCalls calls) ss m = r' at hresults
  cases hresults with
  | same _ => exact .inl rfl
  | overflow _ hgrows =>
      refine .inr ⟨_, rfl, ?_⟩
      cases r' with
      | ok _ m' => exact hgrows
      | error _ m' => exact hgrows

/-- A program only adds to the output, and unbinds nothing. -/
theorem Machine.execute_grows (m : Machine) (ss : List Stmt) : m.Grows (m.execute ctx ss).2 := by
  have hgrows := (outlasts_topLevel ctx ctx.host.maxCalls (Nat.le_refl _) ss).grows m
  change m.Grows (final (execTopLevel ctx ss m)) at hgrows
  unfold Machine.execute
  generalize execTopLevel ctx ss m = r at hgrows
  cases r with
  | ok _ m' => exact hgrows
  | error _ m' => exact hgrows

end Runs

end LoxLang
