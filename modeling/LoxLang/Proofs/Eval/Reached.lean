import LoxLang.Proofs.Eval.Tasks

/-!
# What a run depends on

The tasks that a run leads to are all that matters to it: its outcome does not depend on the
addresses of expressions that it does not come to (`Machine.execute_congr`).
-/

namespace LoxLang

open Exec

/-! ## Actions with the same outcome -/

/-- Two actions that have the same outcome on some machine. -/
def Exec.EqAt {α : Type} (m : Machine) (x y : Exec α) : Prop := x m = y m

namespace Exec.EqAt

variable {α β : Type} {x y : Exec α} {f g : α → Exec β} {m : Machine}

theorem refl (x : Exec α) : EqAt m x x := rfl

theorem pure (a : α) : EqAt m (Pure.pure a) (Pure.pure a) := rfl

theorem of_eq (h : x = y) : EqAt m x y := congrFun h m

/-- Two sequences have the same outcome if their first parts have, and their second parts wherever
the first lead. -/
theorem bind (hx : EqAt m x y) (hf : ∀ a m', x m = .ok a m' → EqAt m' (f a) (g a)) :
    EqAt m (x >>= f) (y >>= g) := by
  unfold EqAt at hx ⊢
  cases hrun : x m with
  | error reason m' => rw [Halt.bind_error hrun, Halt.bind_error (hx.symm.trans hrun)]
  | ok a m' => rw [Halt.bind_ok hrun, Halt.bind_ok (hx.symm.trans hrun), hf a m' hrun]

end Exec.EqAt

/-! ## Agreement -/

def Context.withLinks (ctx : LoxLang.Context) (links : Links) : LoxLang.Context := { ctx with links }

/-- Addresses that are the same for every expression that a task comes to. -/
def Task.Agrees (ctx : LoxLang.Context) (links : Links) (t : Task) : Prop :=
  ∀ u id, t.Leads ctx u → u.node.id? = some id → ctx.links[id]? = links[id]?

/-- Addresses that are the same for every expression that a call of a function comes to. -/
def Closure.Agrees (ctx : LoxLang.Context) (links : Links) (n : Nat) (closure : Closure)
    (vs : List Value) (m : Machine) : Prop :=
  ∀ k frame inner m', n = k + 1 → bindParameters .empty closure.decl.params vs = .ok frame →
    enter closure.env frame m = .ok inner m' → closure.decl.body ≠ [] →
    Task.Agrees ctx links ⟨k, inner, .stmts closure.decl.body, m'⟩

/-- The bodies of functions run alike, if the addresses agree at what they come to. -/
def BodiesAlike (ctx : LoxLang.Context) (links : Links) (n : Nat) : Prop :=
  ∀ paren closure vs m, closure.Agrees ctx links n vs m →
    EqAt m (runBody ctx n paren closure vs) (runBody (ctx.withLinks links) n paren closure vs)

variable {ctx : LoxLang.Context} {links : Links} {n : Nat} {env : Env} {m : Machine}

/-- What a task agrees on is agreed on by all that it leads to. -/
theorem Task.Agrees.next {t u : Task} (h : t.Agrees ctx links) (hnext : t.Next ctx u) :
    u.Agrees ctx links := fun v id hv => h v id (.next hnext hv)

/-- A task itself is among those that it leads to. -/
theorem Task.Agrees.here {t : Task} (h : t.Agrees ctx links) {id : NodeId}
    (hid : t.node.id? = some id) : ctx.links[id]? = links[id]? := h t id .here hid

/-! ## Single actions -/

/-- To look up a name, the addresses need only agree on its number. -/
theorem lookUp_congr {id : NodeId} (h : ctx.links[id]? = links[id]?) (name : Token) :
    lookUp ctx env id name = lookUp (ctx.withLinks links) env id name := by
  unfold lookUp Context.withLinks
  rw [h]

theorem assign_congr {id : NodeId} (h : ctx.links[id]? = links[id]?) (name : Token) (v : Value) :
    assign ctx env id name v = assign (ctx.withLinks links) env id name v := by
  unfold assign Context.withLinks
  rw [h]

theorem superMethod_congr {id : NodeId} (h : ctx.links[id]? = links[id]?) (method : Token) :
    superMethod ctx env id method = superMethod (ctx.withLinks links) env id method := by
  unfold superMethod Context.withLinks
  rw [h]

theorem checkArity_ok {paren : Token} {expected got : Nat} {m' : Machine} {u : Unit}
    (h : checkArity paren expected got m = .ok u m') : got = expected ∧ m' = m := by
  unfold checkArity at h
  split at h
  · cases h
    exact ⟨‹_›, rfl⟩
  · cases h

/-- A call is the same on both sides if the body that it runs is. -/
theorem call_congr (hbodies : BodiesAlike ctx links n) (paren : Token) {f : Value}
    {vs : List Value}
    (h : ∀ closure m', Invokes f vs m closure m' → closure.Agrees ctx links n vs m') :
    EqAt m (call ctx (runBody ctx n) paren f vs)
      (call (ctx.withLinks links) (runBody (ctx.withLinks links) n) paren f vs) := by
  cases f with
  | function id =>
      -- The body is a task that is reached, so the tables agree on it.
      refine .bind (.refl _) ?_
      rintro _ _ ⟨⟩
      refine .bind (.refl _) fun _ m₁ harity => ?_
      rcases checkArity_ok harity with ⟨hlength, rfl⟩
      exact hbodies _ _ _ _ (h _ _ (.function hlength))
  | classRef id =>
      refine .bind (.refl _) ?_
      rintro _ _ ⟨⟩
      refine .bind (.refl _) fun _ m₁ harity => ?_
      rcases checkArity_ok harity with ⟨hlength, rfl⟩
      refine .bind (.refl _) fun object m₂ hobject => ?_
      cases hmethod : m₁.initializer? id with
      | none => exact .refl _
      | some method =>
          rw [hmethod] at hlength
          refine .bind (.refl _) fun closure m₃ hbind => ?_
          exact .bind (hbodies _ _ _ _ (h _ _ (.initializer hmethod hlength hobject hbind)))
            fun _ _ _ => .refl _
  | native f =>
      cases f with
      | clock => exact .bind (.refl _) fun _ _ _ => .refl (readClock ctx.host)
  | _ => exact .refl (raise .notCallable paren)

/-! ## Expressions -/

mutual

/-- An expression is evaluated the same if the addresses agree on all the numbers that its
evaluation comes to. -/
theorem eval_congr (hbodies : BodiesAlike ctx links n) :
    ∀ (e : Expr) {m : Machine}, Task.Agrees ctx links ⟨n, env, .expr e, m⟩ →
      EqAt m (eval ctx (runBody ctx n) env e)
        (eval (ctx.withLinks links) (runBody (ctx.withLinks links) n) env e)
  -- What the whole task comes to is agreed on. Each case hands this down to the task of a part
  -- (`Task.Agrees.next`).
  | .assign id name value, m, h => by
      refine .bind (eval_congr hbodies value (h.next .assigned)) fun v m₁ _ => ?_
      refine .bind (.of_eq ?_) fun _ m₂ _ => .refl _
      exact assign_congr (h.here rfl) name v
  | .binary _ left operator right, m, h => by
      refine .bind (eval_congr hbodies left (h.next .left)) fun l m₁ hleft => ?_
      refine .bind (eval_congr hbodies right (h.next (.right hleft))) fun r m₂ _ => ?_
      exact .refl _
  | .call _ callee paren arguments, m, h => by
      refine .bind (eval_congr hbodies callee (h.next .callee)) fun f m₁ hcallee => ?_
      refine .bind (evalAll_congr hbodies arguments (h.next (.arguments hcallee)))
        fun vs m₂ harguments => call_congr hbodies paren ?_
      rintro closure m₃ hinvokes k frame inner m₄ rfl hparams henter hbody
      exact h.next (.body hcallee harguments hinvokes hparams henter hbody)
  | .get _ object name, m, h => by
      refine .bind (eval_congr hbodies object (h.next .object)) fun o m₁ _ => ?_
      exact .refl _
  | .grouping _ inner, m, h => eval_congr hbodies inner (h.next .inner)
  | .literal _ value, _, _ => .pure (Value.ofLiteral value)
  | .logical _ left operator right, m, h => by
      refine .bind (eval_congr hbodies left (h.next .logicalLeft)) fun l m₁ hleft => ?_
      cases hsettles : l.settles operator.kind with
      | true => exact .pure l
      | false => exact eval_congr hbodies right (h.next (.logicalRight hleft hsettles))
  | .set _ object name value, m, h => by
      refine .bind (eval_congr hbodies object (h.next .setObject)) fun o m₁ hobject => ?_
      cases o with
      | object id =>
          refine .bind (.refl _) ?_
          rintro _ _ ⟨⟩
          exact .bind (eval_congr hbodies value (h.next (.setValue hobject))) fun _ _ _ => .refl _
      | _ => exact .bind (.refl (raise .fieldOfNonInstance name)) fun _ _ hraise => nomatch hraise
  | .super id _ method, m, h => .of_eq (superMethod_congr (h.here rfl) method)
  | .this id keyword, m, h => .of_eq (lookUp_congr (h.here rfl) keyword)
  | .unary _ operator right, m, h => by
      refine .bind (eval_congr hbodies right (h.next .operand)) fun v m₁ _ => ?_
      exact .refl _
  | .variable ref, m, h => .of_eq (lookUp_congr (h.here rfl) ref.name)

theorem evalAll_congr (hbodies : BodiesAlike ctx links n) :
    ∀ (es : List Expr) {m : Machine}, Task.Agrees ctx links ⟨n, env, .exprs es, m⟩ →
      EqAt m (evalAll ctx (runBody ctx n) env es)
        (evalAll (ctx.withLinks links) (runBody (ctx.withLinks links) n) env es)
  | [], _, _ => .pure []
  | e :: es, _, h => by
      refine .bind (eval_congr hbodies e (h.next .firstExpr)) fun v m₁ hfirst => ?_
      refine .bind (evalAll_congr hbodies es (h.next (.moreExprs hfirst))) fun vs m₂ _ => ?_
      exact .refl _

end

theorem evalCondition_congr (hbodies : BodiesAlike ctx links n) {e : Expr}
    (h : Task.Agrees ctx links ⟨n, env, .expr e, m⟩) :
    EqAt m (evalCondition ctx (runBody ctx n) env e)
      (evalCondition (ctx.withLinks links) (runBody (ctx.withLinks links) n) env e) :=
  .bind (eval_congr hbodies e h) fun _ _ _ => .refl _

/-- A condition holds if its expression has a value that is true. -/
theorem evalCondition_ok {run : Runner} {e : Expr} {b : Bool} {m' : Machine}
    (h : evalCondition ctx run env e m = .ok b m') :
    ∃ v, eval ctx run env e m = .ok v m' ∧ v.isTruthy = b := by
  unfold evalCondition at h
  cases hrun : eval ctx run env e m with
  | error reason m₁ =>
      rw [Halt.bind_error hrun] at h
      cases h
  | ok v m₁ =>
      rw [Halt.bind_ok hrun] at h
      cases h
      exact ⟨v, rfl, rfl⟩

/-! ## Statements -/

/-- A class declaration looks up one name, that of its superclass. -/
theorem declareClass_congr {name : Token} {superclass : Option Reference}
    {methods : List FunctionDecl}
    (h : Task.Agrees ctx links ⟨n, env, .stmt (.classDecl name superclass methods), m⟩) :
    EqAt m (declareClass ctx env name superclass methods)
      (declareClass (ctx.withLinks links) env name superclass methods) := by
  refine .bind ?_ fun _ _ _ => .refl _
  cases superclass with
  | none => exact .refl _
  | some ref =>
      have hlink := (h.next .superclass).here rfl
      exact .bind (.of_eq (lookUp_congr hlink ref.name)) fun _ _ _ => .refl _

/-- A loop runs alike, turn after turn, if its body does. -/
theorem loop_congr (hbodies : BodiesAlike ctx links n) {condition : Expr} {body : Stmt}
    (hbody : ∀ {m : Machine}, Task.Agrees ctx links ⟨n, env, .stmt body, m⟩ →
      EqAt m (exec ctx (runBody ctx n) env body)
        (exec (ctx.withLinks links) (runBody (ctx.withLinks links) n) env body)) (turns : Nat) :
    ∀ {m : Machine}, Task.Agrees ctx links ⟨n, env, .stmt (.whileLoop condition body), m⟩ →
      EqAt m
        (loop (evalCondition ctx (runBody ctx n) env condition) (exec ctx (runBody ctx n) env body)
          turns)
        (loop (evalCondition (ctx.withLinks links) (runBody (ctx.withLinks links) n) env condition)
          (exec (ctx.withLinks links) (runBody (ctx.withLinks links) n) env body) turns) := by
  -- Behind a turn the task is the same loop again, on another machine.
  induction turns with
  | zero => exact fun _ => .refl (throw .unfinished)
  | succ turns ih =>
      intro m h
      refine .bind (evalCondition_congr hbodies (h.next .loopCondition)) fun b m₁ hb => ?_
      rcases evalCondition_ok hb with ⟨v, hcondition, htruthy⟩
      cases b with
      | false => exact .pure Flow.next
      | true =>
          refine .bind (hbody (h.next (.loopBody hcondition htruthy))) fun flow m₂ hflow => ?_
          cases flow with
          | next => exact ih (h.next (.turn hcondition htruthy hflow))
          | returned v => exact .pure (Flow.returned v)

mutual

/-- A statement is executed the same if the addresses agree on all the numbers that its execution
comes to. -/
theorem exec_congr (hbodies : BodiesAlike ctx links n) :
    ∀ (st : Stmt) {env : Env} {m : Machine}, Task.Agrees ctx links ⟨n, env, .stmt st, m⟩ →
      EqAt m (exec ctx (runBody ctx n) env st)
        (exec (ctx.withLinks links) (runBody (ctx.withLinks links) n) env st)
  -- Both runs come to the same next task, where the tables agree.
  | .block body, env, m, h => by
      refine .bind (.refl _) fun inner m₁ henter => ?_
      exact execAll_congr hbodies body (h.next (.block henter))
  | .classDecl .., env, m, h => .bind (declareClass_congr h) fun _ _ _ => .refl _
  | .expression e, env, m, h => by
      refine .bind (eval_congr hbodies e (h.next .expression)) fun v m₁ _ => ?_
      exact .refl _
  | .function _, _, _, _ => .bind (.refl _) fun _ _ _ => .refl _
  | .ifElse condition thenBranch none, env, m, h => by
      refine .bind (evalCondition_congr hbodies (h.next .condition)) fun b m₁ hb => ?_
      rcases evalCondition_ok hb with ⟨v, hcondition, htruthy⟩
      cases b with
      | true => exact exec_congr hbodies thenBranch (h.next (.thenBranch hcondition htruthy))
      | false => exact .pure Flow.next
  | .ifElse condition thenBranch (some elseBranch), env, m, h => by
      refine .bind (evalCondition_congr hbodies (h.next .condition)) fun b m₁ hb => ?_
      rcases evalCondition_ok hb with ⟨v, hcondition, htruthy⟩
      cases b with
      | true => exact exec_congr hbodies thenBranch (h.next (.thenBranch hcondition htruthy))
      | false => exact exec_congr hbodies elseBranch (h.next (.elseBranch hcondition htruthy))
  | .print e, env, m, h => by
      refine .bind (eval_congr hbodies e (h.next .print)) fun v m₁ _ => ?_
      exact .refl _
  | .returnValue _ none, _, _, _ => .bind (.pure Value.nil) fun _ _ _ => .refl _
  | .returnValue _ (some e), env, m, h => by
      refine .bind (eval_congr hbodies e (h.next .returned)) fun v m₁ _ => ?_
      exact .refl _
  | .varDecl _ none, _, _, _ => .bind (.pure Value.nil) fun _ _ _ => .refl _
  | .varDecl _ (some e), env, m, h => by
      refine .bind (eval_congr hbodies e (h.next .initializer)) fun v m₁ _ => ?_
      exact .refl _
  | .whileLoop condition body, env, m, h =>
      loop_congr hbodies (exec_congr hbodies body) ctx.host.maxTurns h

theorem execAll_congr (hbodies : BodiesAlike ctx links n) :
    ∀ (ss : List Stmt) {env : Env} {m : Machine}, Task.Agrees ctx links ⟨n, env, .stmts ss, m⟩ →
      EqAt m (execAll ctx (runBody ctx n) env ss)
        (execAll (ctx.withLinks links) (runBody (ctx.withLinks links) n) env ss)
  | [], _, _, _ => .pure Flow.next
  | st :: ss, env, m, h => by
      refine .bind (exec_congr hbodies st (h.next .firstStmt)) fun flow m₁ hflow => ?_
      cases flow with
      | next => exact execAll_congr hbodies ss (h.next (.moreStmts hflow (.inl rfl)))
      | returned v => exact .pure (Flow.returned v)

end

/-! ## Whole runs -/

/-- However many calls may be nested, the bodies of functions run alike. -/
theorem bodiesAlike (ctx : LoxLang.Context) (links : Links) (n : Nat) :
    BodiesAlike ctx links n := by
  -- The induction is on the calls that may still be nested: a body is run with one less.
  induction n with
  | zero => exact fun paren _ _ _ _ => .refl (raise .stackOverflow paren)
  | succ n ih =>
      intro paren closure vs m h
      unfold runBody
      cases hparams : bindParameters .empty closure.decl.params vs with
      | error d => exact .bind (.refl (throw (.defect d))) fun _ _ hthrow => nomatch hthrow
      | ok frame =>
          refine .bind (.refl _) ?_
          rintro _ _ ⟨⟩
          refine .bind (.refl _) fun inner m₁ henter => .bind ?_ fun _ _ _ => .refl _
          by_cases hbody : closure.decl.body = []
          · rw [hbody]
            exact .pure Flow.next
          · exact execAll_congr ih _ (h n frame inner m₁ rfl hparams henter hbody)

/-- The same of a whole program. -/
theorem execTopLevel_congr (ss : List Stmt) {m : Machine}
    (h : Task.Agrees ctx links ⟨ctx.host.maxCalls, Machine.globals, .stmts ss, m⟩) :
    EqAt m (execTopLevel ctx ss) (execTopLevel (ctx.withLinks links) ss) := by
  induction ss generalizing m with
  | nil => exact .pure ()
  | cons st ss ih =>
      refine .bind (exec_congr (bodiesAlike ctx links _) st (h.next .firstStmt))
        fun flow m₁ hflow => ?_
      exact ih (h.next (.moreStmts hflow (.inr rfl)))

/-- The outcome of a run depends on the addresses of those expressions only that it comes to. -/
theorem Machine.execute_congr {ss : List Stmt}
    (h : Task.Agrees ctx links ⟨ctx.host.maxCalls, Machine.globals, .stmts ss, m⟩) :
    m.execute ctx ss = m.execute (ctx.withLinks links) ss := by
  have hsame : execTopLevel ctx ss m = execTopLevel (ctx.withLinks links) ss m :=
    execTopLevel_congr ss h
  unfold Machine.execute
  rw [hsame]

end LoxLang
