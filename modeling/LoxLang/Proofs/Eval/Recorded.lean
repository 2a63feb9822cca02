import LoxLang.Proofs.Eval.Tasks

/-!
# Recorded runs

Running the body of a function with a record of what is come to.

* `Recorded.stmt` executes a statement like `exec`. Before a statement of the body or a condition is
  run, however deep inside, it is recorded as a `Task`. What a call goes on to is not recorded.
* `Recorded.Erases`: without its record, one action does what another one does. `Recorded.body` is a
  call in that sense (`Recorded.erases_body`).
* `Recorded.Shows`: how the tasks of a record go together with an outcome. A `return` can only be
  the last one, and then the outcome is what its value evaluates to (`Recorded.ends_stmt`).
-/

namespace LoxLang

open Exec

/-! ## Statements that cannot return -/

mutual

/-- There is a `return` in a statement that does not belong to a function declared there. -/
def Stmt.MayReturn : Stmt → Prop
  | .block body => Stmt.AnyReturns body
  | .ifElse _ thenBranch none => thenBranch.MayReturn
  | .ifElse _ thenBranch (some elseBranch) => thenBranch.MayReturn ∨ elseBranch.MayReturn
  | .returnValue .. => True
  | .whileLoop _ body => body.MayReturn
  | .classDecl .. | .expression _ | .function _ | .print _ | .varDecl .. => False

def Stmt.AnyReturns : List Stmt → Prop
  | [] => False
  | s :: ss => s.MayReturn ∨ Stmt.AnyReturns ss

end

/-- A loop whose body never returns does not return, however many turns it takes. -/
theorem loop_next {condition : Exec Bool} {body : Exec Flow}
    (hbody : ∀ {m flow m'}, body m = .ok flow m' → flow = .next) (turns : Nat) :
    ∀ {m flow m'}, Exec.loop condition body turns m = .ok flow m' → flow = .next := by
  induction turns with
  | zero => exact fun h => nomatch h
  | succ turns ih =>
      intro m flow m' h
      rcases Halt.bind_eq_ok h with ⟨b, m₁, -, hrest⟩
      cases b with
      | false =>
          cases hrest
          rfl
      | true =>
          rcases Halt.bind_eq_ok hrest with ⟨flow', m₂, hflow, hrest⟩
          rw [hbody hflow] at hrest
          exact ih hrest

variable {ctx : Context} {run : Runner}

mutual

/-- A statement without a `return` of its own is followed by the next one. -/
theorem exec_next : ∀ {s : Stmt} {env : Env} {m m' : Machine} {flow : Flow}, ¬ s.MayReturn →
    exec ctx run env s m = .ok flow m' → flow = .next
  | .block body, _, _, _, _, h, hrun => by
      rcases Halt.bind_eq_ok hrun with ⟨_, _, -, hrest⟩
      exact execAll_next h hrest
  | .ifElse _ thenBranch none, _, _, _, _, h, hrun => by
      rcases Halt.bind_eq_ok hrun with ⟨b, _, -, hrest⟩
      cases b with
      | true => exact exec_next (s := thenBranch) h hrest
      | false =>
          cases hrest
          rfl
  | .ifElse _ thenBranch (some elseBranch), _, _, _, _, h, hrun => by
      rcases Halt.bind_eq_ok hrun with ⟨b, _, -, hrest⟩
      cases b with
      | true => exact exec_next (s := thenBranch) (fun hthen => h (.inl hthen)) hrest
      | false => exact exec_next (s := elseBranch) (fun helse => h (.inr helse)) hrest
  -- The loop may take any number of turns, none of which returns.
  | .whileLoop e body, env, m, _, _, h, hrun => by
      have hbody : ¬ body.MayReturn := h
      have hloop : Exec.loop (evalCondition ctx run env e) (exec ctx run env body)
        ctx.host.maxTurns m = _ := hrun
      exact loop_next (exec_next hbody) _ hloop
  | .returnValue .., _, _, _, _, h, _ => absurd trivial h
  | .classDecl .., _, _, _, _, _, hrun | .expression _, _, _, _, _, _, hrun => by
      rcases Halt.bind_eq_ok hrun with ⟨_, _, -, hrest⟩
      cases hrest
      rfl
  | .function _, _, _, _, _, _, hrun | .print _, _, _, _, _, _, hrun
  | .varDecl .., _, _, _, _, _, hrun => by
      rcases Halt.bind_eq_ok hrun with ⟨_, _, -, hrest⟩
      rcases Halt.bind_eq_ok hrest with ⟨_, _, -, hrest⟩
      cases hrest
      rfl

/-- Statements among which there is no `return` are followed by what comes after them. -/
theorem execAll_next : ∀ {ss : List Stmt} {env : Env} {m m' : Machine} {flow : Flow},
    ¬ Stmt.AnyReturns ss → execAll ctx run env ss m = .ok flow m' → flow = .next
  | [], _, _, _, _, _, hrun => by
      cases hrun
      rfl
  | s :: ss, _, _, _, _, h, hrun => by
      rcases Halt.bind_eq_ok hrun with ⟨flow', _, hfirst, hrest⟩
      rw [exec_next (fun hs => h (.inl hs)) hfirst] at hrest
      exact execAll_next (fun hss => h (.inr hss)) hrest

end

/-! ## Recorders -/

/-- A machine with a record of the tasks that a run has come to. -/
structure Recorder where
  machine : Machine
  record : List Task

/-- An action that keeps a record. -/
abbrev Recorded (α : Type) := EStateM Halt Recorder α

namespace Recorded

variable {α β : Type}

/-! ## Actions with a record -/

/-- An action of which nothing is recorded. -/
def silent (x : Exec α) : Recorded α := fun r =>
  match x r.machine with
  | .ok a m => .ok a { r with machine := m }
  | .error reason m => .error reason { r with machine := m }

/-- Records a node that is about to be run. -/
def note (n : Nat) (env : Env) (node : Node) : Recorded Unit :=
  modify fun r => { r with record := r.record ++ [⟨n, env, node, r.machine⟩] }

def loop (condition : Recorded Bool) (body : Recorded Flow) : Nat → Recorded Flow
  | 0 => throw .unfinished
  | turns + 1 => do
    if ← condition then
      match ← body with
      | .next => loop condition body turns
      | .returned v => return .returned v
    else
      return .next

def condition (ctx : Context) (n : Nat) (env : Env) (e : Expr) : Recorded Bool := do
  note n env (.expr e)
  silent (evalCondition ctx (runBody ctx n) env e)

mutual

/-- Executes a statement, with all that is recorded inside of it. -/
def stmt (ctx : Context) (n : Nat) (env : Env) : Stmt → Recorded Flow
  | .block body => do
    note n env (.stmt (.block body))
    let inner ← silent (enter env .empty)
    stmts ctx n inner body
  | .ifElse e thenBranch none => do
    note n env (.stmt (.ifElse e thenBranch none))
    if ← condition ctx n env e then
      stmt ctx n env thenBranch
    else
      return .next
  | .ifElse e thenBranch (some elseBranch) => do
    note n env (.stmt (.ifElse e thenBranch (some elseBranch)))
    if ← condition ctx n env e then
      stmt ctx n env thenBranch
    else
      stmt ctx n env elseBranch
  | .whileLoop e body => do
    note n env (.stmt (.whileLoop e body))
    loop (condition ctx n env e) (stmt ctx n env body) ctx.host.maxTurns
  | .classDecl name superclass methods => do
    note n env (.stmt (.classDecl name superclass methods))
    silent (exec ctx (runBody ctx n) env (.classDecl name superclass methods))
  | .expression e => do
    note n env (.stmt (.expression e))
    silent (exec ctx (runBody ctx n) env (.expression e))
  | .function decl => do
    note n env (.stmt (.function decl))
    silent (exec ctx (runBody ctx n) env (.function decl))
  | .print e => do
    note n env (.stmt (.print e))
    silent (exec ctx (runBody ctx n) env (.print e))
  | .returnValue keyword value => do
    note n env (.stmt (.returnValue keyword value))
    silent (exec ctx (runBody ctx n) env (.returnValue keyword value))
  | .varDecl name value => do
    note n env (.stmt (.varDecl name value))
    silent (exec ctx (runBody ctx n) env (.varDecl name value))

def stmts (ctx : Context) (n : Nat) (env : Env) : List Stmt → Recorded Flow
  | [] => return .next
  | s :: ss => do
    match ← stmt ctx n env s with
    | .next => stmts ctx n env ss
    | .returned v => return .returned v

end

/-- Runs the body of a function, with `n` calls left inside of it. -/
def body (ctx : Context) (n : Nat) (closure : Closure) (arguments : List Value) :
    Recorded Value := do
  let frame ← silent (orDefect (bindParameters .empty closure.decl.params arguments))
  let env ← silent (enter closure.env frame)
  let flow ← stmts ctx n env closure.decl.body
  silent (callResult closure flow)

/-! ## Without the record -/

def forget : EStateM.Result Halt Recorder α → EStateM.Result Halt Machine α
  | .ok a r => .ok a r.machine
  | .error reason r => .error reason r.machine

/-- Without its record, an action does what another one does. -/
def Erases (x : Recorded α) (y : Exec α) : Prop := ∀ r, forget (x r) = y r.machine

namespace Erases

theorem pure (a : α) : Erases (Pure.pure a) (Pure.pure a) := fun _ => rfl

/-- An action that records nothing erases to itself. -/
theorem silent (x : Exec α) : Erases (silent x) x := by
  intro r
  unfold Recorded.silent
  cases x r.machine <;> rfl

/-- Erasing the record of two steps is erasing that of each. -/
theorem bind {x : Recorded α} {y : Exec α} {f : α → Recorded β} {g : α → Exec β}
    (h : Erases x y) (hf : ∀ a, Erases (f a) (g a)) : Erases (x >>= f) (y >>= g) := by
  intro r
  have hfirst := h r
  cases hrun : x r with
  | error reason r' =>
      rw [hrun] at hfirst
      rw [Halt.bind_error hrun, Halt.bind_error hfirst.symm]
      rfl
  | ok a r' =>
      rw [hrun] at hfirst
      rw [Halt.bind_ok hrun, Halt.bind_ok hfirst.symm]
      exact hf a r'

/-- A record that is made in front makes no difference. -/
theorem noted {x : Recorded α} {y : Exec α} (h : Erases x y) (n : Nat) (env : Env) (node : Node) :
    Erases (note n env node >>= fun _ => x) y := fun _ => h _

/-- The turns of a recorded loop are those of the loop, by induction on their number. -/
theorem loop {condition : Recorded Bool} {condition' : Exec Bool} {body : Recorded Flow}
    {body' : Exec Flow} (hcondition : Erases condition condition') (hbody : Erases body body')
    (turns : Nat) : Erases (loop condition body turns) (Exec.loop condition' body' turns) := by
  induction turns with
  | zero => exact fun _ => rfl
  | succ turns ih =>
      refine hcondition.bind fun b => ?_
      cases b with
      | false => exact .pure _
      | true =>
          refine hbody.bind fun flow => ?_
          cases flow with
          | next => exact ih
          | returned v => exact .pure _

end Erases

variable (ctx : Context) (n : Nat)

theorem erases_condition (env : Env) (e : Expr) :
    Erases (condition ctx n env e) (evalCondition ctx (runBody ctx n) env e) :=
  (Erases.silent _).noted _ _ _

mutual

/-- To keep a record changes nothing. -/
theorem erases_stmt : ∀ (s : Stmt) (env : Env),
    Erases (stmt ctx n env s) (exec ctx (runBody ctx n) env s)
  | .block body, env => by
      apply Erases.noted
      refine (Erases.silent _).bind fun inner => ?_
      exact erases_stmts body inner
  | .ifElse e thenBranch none, env => by
      refine Erases.noted ((erases_condition ctx n env e).bind fun b => ?_) _ _ _
      cases b with
      | true => exact erases_stmt thenBranch env
      | false => exact .pure _
  | .ifElse e thenBranch (some elseBranch), env => by
      refine Erases.noted ((erases_condition ctx n env e).bind fun b => ?_) _ _ _
      cases b with
      | true => exact erases_stmt thenBranch env
      | false => exact erases_stmt elseBranch env
  | .whileLoop e body, env => by
      apply Erases.noted
      have hcondition := erases_condition ctx n env e
      exact hcondition.loop (erases_stmt body env) _
  | .classDecl .., _ | .expression _, _ | .function _, _ | .print _, _ | .returnValue .., _
  | .varDecl .., _ => (Erases.silent _).noted _ _ _

/-- By induction on the statements: a list records what its statements record, one after the
other. -/
theorem erases_stmts : ∀ (ss : List Stmt) (env : Env),
    Erases (stmts ctx n env ss) (execAll ctx (runBody ctx n) env ss)
  | [], _ => .pure _
  | s :: ss, env => by
      refine (erases_stmt s env).bind fun flow => ?_
      cases flow with
      | next => exact erases_stmts ss env
      | returned v => exact .pure _

end

/-- Without its record, this is a call. -/
theorem erases_body (paren : Token) (closure : Closure) (arguments : List Value) :
    Erases (body ctx n closure arguments) (runBody ctx (n + 1) paren closure arguments) := by
  refine (Erases.silent _).bind fun frame => ?_
  refine (Erases.silent _).bind fun env => ?_
  refine (erases_stmts ctx n closure.decl.body env).bind fun flow => ?_
  exact .silent _

/-! ## What a record shows -/

def after : EStateM.Result Halt Recorder α → Recorder
  | .ok _ r | .error _ r => r

end Recorded

/-- A `return` that is about to be run. -/
def Task.Returns (t : Task) : Prop := ∃ keyword value, t.node = .stmt (.returnValue keyword value)

/-- A `return`, and what its value evaluates to. -/
def Task.Gives (ctx : Context) (t : Task) (result : EStateM.Result Halt Machine Value) : Prop :=
  ∃ keyword value, t.node = .stmt (.returnValue keyword value) ∧
    evalOptional ctx (runBody ctx t.calls) t.env value t.machine = result

namespace Recorded

variable {α β : Type} (ctx : Context)

/-- The tasks that have been recorded, and how it ended: nothing has returned, or the last task is
the `return` that decides the outcome. -/
inductive Shows : List Task → EStateM.Result Halt Recorder Flow → Prop where
  | next {tasks : List Task} {r : Recorder} : (∀ t ∈ tasks, ¬ t.Returns) → Shows tasks (.ok .next r)
  | returned {tasks : List Task} {t : Task} {v : Value} {r : Recorder} :
      (∀ t ∈ tasks, ¬ t.Returns) → t.Gives ctx (.ok v r.machine) →
      Shows (tasks ++ [t]) (.ok (.returned v) r)
  | halted {tasks : List Task} {reason : Halt} {r : Recorder} :
      (∀ t ∈ tasks, ¬ t.Returns) → Shows tasks (.error reason r)
  | haltedInside {tasks : List Task} {t : Task} {reason : Halt} {r : Recorder} :
      (∀ t ∈ tasks, ¬ t.Returns) → t.Gives ctx (.error reason r.machine) →
      Shows (tasks ++ [t]) (.error reason r)

/-- Whatever the record was before, the tasks that an action adds go together with its outcome. -/
def Ends (x : Recorded Flow) : Prop :=
  ∀ r, ∃ tasks, (after (x r)).record = r.record ++ tasks ∧ Shows ctx tasks (x r)

/-- An action that comes to no `return`. -/
def Passes (x : Recorded α) : Prop :=
  ∀ r, ∃ tasks, (after (x r)).record = r.record ++ tasks ∧ ∀ t ∈ tasks, ¬ t.Returns

variable {ctx}

/-- Tasks that return nothing may come before; what is shown of the last one stays as it is. -/
theorem Shows.behind {before tasks : List Task} {result : EStateM.Result Halt Recorder Flow}
    (hbefore : ∀ t ∈ before, ¬ t.Returns) (h : Shows ctx tasks result) :
    Shows ctx (before ++ tasks) result := by
  have hboth : ∀ {tasks : List Task}, (∀ t ∈ tasks, ¬ t.Returns) →
      ∀ t ∈ before ++ tasks, ¬ t.Returns := fun htasks t ht =>
    (List.mem_append.1 ht).elim (hbefore t) (htasks t)
  cases h with
  | next htasks => exact .next (hboth htasks)
  | halted htasks => exact .halted (hboth htasks)
  | returned htasks hgives =>
      rw [← List.append_assoc]
      exact .returned (hboth htasks) hgives
  | haltedInside htasks hgives =>
      rw [← List.append_assoc]
      exact .haltedInside (hboth htasks) hgives

/-- Nothing that is not recorded can be a `return`. -/
theorem Passes.silent (x : Exec α) : Passes (silent x) := by
  intro r
  refine ⟨[], ?_, fun _ ht => nomatch ht⟩
  unfold Recorded.silent
  rw [List.append_nil]
  cases x r.machine <;> rfl

/-- A task may be noted that is not a `return` itself. -/
theorem Passes.note {n : Nat} {env : Env} {node : Node}
    (h : ∀ keyword value, node ≠ .stmt (.returnValue keyword value)) :
    Passes (note n env node) := by
  intro r
  refine ⟨[⟨n, env, node, r.machine⟩], rfl, ?_⟩
  intro t ht
  rw [List.mem_singleton.1 ht]
  rintro ⟨keyword, value, hnode⟩
  exact h keyword value hnode

/-- Two steps that let no `return` pass do not do so together. -/
theorem Passes.bind {x : Recorded α} {f : α → Recorded β} (h : Passes x)
    (hf : ∀ a, Passes (f a)) : Passes (x >>= f) := by
  intro r
  rcases h r with ⟨before, hrecord, hbefore⟩
  cases hrun : x r with
  | error reason r' =>
      rw [hrun] at hrecord
      rw [Halt.bind_error hrun]
      exact ⟨before, hrecord, hbefore⟩
  | ok a r' =>
      rw [hrun] at hrecord
      rw [Halt.bind_ok hrun]
      rcases hf a r' with ⟨tasks, hrecord', htasks⟩
      refine ⟨before ++ tasks, ?_, fun t ht => (List.mem_append.1 ht).elim (hbefore t) (htasks t)⟩
      rw [hrecord', show r'.record = _ from hrecord, List.append_assoc]

namespace Ends

theorem next : Ends ctx (pure .next) :=
  fun _ => ⟨[], (List.append_nil _).symm, .next fun _ ht => nomatch ht⟩

/-- What comes to no `return` can stand in front. -/
theorem behind {x : Recorded α} {f : α → Recorded Flow} (h : Passes x)
    (hf : ∀ a, Ends ctx (f a)) : Ends ctx (x >>= f) := by
  intro r
  rcases h r with ⟨before, hrecord, hbefore⟩
  cases hrun : x r with
  | error reason r' =>
      rw [hrun] at hrecord
      rw [Halt.bind_error hrun]
      exact ⟨before, hrecord, .halted hbefore⟩
  | ok a r' =>
      rw [hrun] at hrecord
      rw [Halt.bind_ok hrun]
      rcases hf a r' with ⟨tasks, hrecord', hshows⟩
      refine ⟨before ++ tasks, ?_, hshows.behind hbefore⟩
      rw [hrecord', show r'.record = _ from hrecord, List.append_assoc]

/-- Where something has returned, nothing follows. -/
theorem andThen {x rest : Recorded Flow} (h : Ends ctx x) (hrest : Ends ctx rest) :
    Ends ctx (x >>= fun flow =>
      match flow with
      | .next => rest
      | .returned v => pure (.returned v)) := by
  intro r
  -- What follows is recorded behind the first part, unless that has returned.
  rcases h r with ⟨before, hrecord, hshows⟩
  cases hrun : x r with
  | error reason r' =>
      rw [hrun] at hrecord hshows
      rw [Halt.bind_error hrun]
      refine ⟨before, hrecord, ?_⟩
      cases hshows with
      | halted hbefore => exact .halted hbefore
      | haltedInside hbefore hgives => exact .haltedInside hbefore hgives
  | ok flow r' =>
      rw [hrun] at hrecord hshows
      rw [Halt.bind_ok hrun]
      cases hshows with
      | next hbefore =>
          rcases hrest r' with ⟨tasks, hrecord', hshows'⟩
          refine ⟨before ++ tasks, ?_, hshows'.behind hbefore⟩
          rw [hrecord', show r'.record = _ from hrecord, List.append_assoc]
      | returned hbefore hgives => exact ⟨_, hrecord, .returned hbefore hgives⟩

/-- A `return` in the body is the last thing recorded of the loop, since no further turn is
taken. -/
theorem loop {condition : Recorded Bool} {body : Recorded Flow} (hcondition : Passes condition)
    (hbody : Ends ctx body) (turns : Nat) : Ends ctx (loop condition body turns) := by
  induction turns with
  | zero => exact fun _ => ⟨[], (List.append_nil _).symm, .halted fun _ ht => nomatch ht⟩
  | succ turns ih =>
      refine behind hcondition fun b => ?_
      cases b with
      | false => exact next
      | true => exact hbody.andThen ih

end Ends

theorem passes_condition (n : Nat) (env : Env) (e : Expr) : Passes (condition ctx n env e) :=
  (Passes.note (by rintro _ _ ⟨⟩)).bind fun _ => .silent _

/-- A statement that cannot return, and is recorded as a whole. -/
theorem ends_plain {n : Nat} {env : Env} {s : Stmt} (h : ¬ s.MayReturn) :
    Ends ctx (note n env (.stmt s) >>= fun _ => silent (exec ctx (runBody ctx n) env s)) := by
  have hnote : ∀ keyword value, Node.stmt s ≠ .stmt (.returnValue keyword value) := by
    rintro keyword value ⟨⟩
    exact h trivial
  refine .behind (.note hnote) fun _ r => ⟨[], ?_, ?_⟩
  · rw [List.append_nil]
    unfold silent
    cases exec ctx (runBody ctx n) env s r.machine <;> rfl
  · unfold silent
    cases hrun : exec ctx (runBody ctx n) env s r.machine with
    | error reason m => exact .halted fun _ ht => nomatch ht
    | ok flow m =>
        rw [exec_next h hrun]
        exact .next fun _ ht => nomatch ht

/-- A `return` is recorded, and decides the outcome. -/
theorem ends_returnValue (n : Nat) (env : Env) (keyword : Token) (value : Option Expr) :
    Ends ctx (stmt ctx n env (.returnValue keyword value)) := by
  intro r
  let t : Task := ⟨n, env, .stmt (.returnValue keyword value), r.machine⟩
  have hgives : t.Gives ctx (evalOptional ctx (runBody ctx n) env value r.machine) :=
    ⟨keyword, value, rfl, rfl⟩
  refine ⟨[t], ?_⟩
  change (after (silent (evalOptional ctx (runBody ctx n) env value >>= fun v =>
    pure (Flow.returned v)) ⟨r.machine, r.record ++ [t]⟩)).record = _ ∧ Shows ctx ([] ++ [t])
    (silent (evalOptional ctx (runBody ctx n) env value >>= fun v =>
      pure (Flow.returned v)) ⟨r.machine, r.record ++ [t]⟩)
  unfold silent
  -- The value may halt the run; either way the `return` is the last task on record.
  cases hrun : evalOptional ctx (runBody ctx n) env value r.machine with
  | error reason m =>
      rw [hrun] at hgives
      rw [Halt.bind_error hrun]
      exact ⟨rfl, .haltedInside (fun _ ht => nomatch ht) hgives⟩
  | ok v m =>
      rw [hrun] at hgives
      rw [Halt.bind_ok hrun]
      exact ⟨rfl, .returned (fun _ ht => nomatch ht) hgives⟩

mutual

/-- Where a statement comes to a `return`, that is the last thing that is recorded. -/
theorem ends_stmt (n : Nat) : ∀ (s : Stmt) (env : Env), Ends ctx (stmt ctx n env s)
  -- What is noted in front of a part says nothing of returns, so the record ends as that of the
  -- part does.
  | .block body, env => by
      refine .behind (.note fun _ _ h => nomatch h) fun _ => ?_
      refine .behind (.silent _) fun inner => ?_
      exact ends_stmts n body inner
  | .ifElse e thenBranch none, env => by
      refine .behind (.note fun _ _ h => nomatch h) fun _ => ?_
      refine .behind (passes_condition n env e) fun b => ?_
      cases b with
      | true => exact ends_stmt n thenBranch env
      | false => exact .next
  | .ifElse e thenBranch (some elseBranch), env => by
      refine .behind (.note fun _ _ h => nomatch h) fun _ => ?_
      refine .behind (passes_condition n env e) fun b => ?_
      cases b with
      | true => exact ends_stmt n thenBranch env
      | false => exact ends_stmt n elseBranch env
  | .whileLoop e body, env => by
      refine .behind (.note fun _ _ h => nomatch h) fun _ => ?_
      have hbody := ends_stmt n body env
      exact .loop (passes_condition n env e) hbody _
  | .returnValue keyword value, env => ends_returnValue n env keyword value
  | .classDecl .., _ | .expression _, _ | .function _, _ | .print _, _ | .varDecl .., _ =>
      ends_plain not_false

/-- By induction on the statements: nothing of the list is recorded behind a `return`. -/
theorem ends_stmts (n : Nat) : ∀ (ss : List Stmt) (env : Env), Ends ctx (stmts ctx n env ss)
  | [], _ => .next
  | s :: ss, env => (ends_stmt n s env).andThen (ends_stmts n ss env)

end

end Recorded

end LoxLang
