import LoxLang.Proofs.Eval.Global
import LoxLang.Proofs.Eval.Proceed

/-!
# The course of a run

How the machines that a run comes to follow from one another.

* `Task.Proper`: a task on a valid machine, whose node has the right shape.
* `Exec.Within`: one action is run in the course of another one. Its machine comes out of that of
  the whole, and unless the whole is cut off in a loop, what it leaves behind goes on to what the
  whole leaves behind.
* `Task.Proper.next` says this of one step from task to task, and `Task.Proper.leads` of whatever a
  task leads to.
* `Task.Proper.leads_topLevel` is about programs. The list of their statements is no task like the
  others, since it does not stop where a statement returns (`Task.Inner`).
-/

namespace LoxLang

open Exec

/-! ## Actions that are cut off -/

/-- A loop took more turns than it was given. -/
def Exec.CutOff {α : Type} (m : Machine) (x : Exec α) : Prop := ∃ m', x m = .error .unfinished m'

/-- An action that is run on some machine in the course of another one. -/
structure Exec.Within {α β : Type} (m : Machine) (x : Exec α) (m' : Machine) (y : Exec β) :
    Prop where
  evolves : m.Evolves m'
  cutOff : CutOff m' y → CutOff m x
  behind : ¬ CutOff m x → (final (y m')).Evolves (final (x m))

namespace Exec.Within

variable {α β γ : Type} {m m₁ m' : Machine} {x : Exec α} {f : α → Exec β} {y : Exec γ}

theorem refl (m : Machine) (x : Exec α) : Within m x m x := ⟨.refl m, fun h => h, fun _ => .refl _⟩

/-- Nothing is said of what runs in the course of an action that is cut off. -/
theorem of_cutOff (h : CutOff m x) (hm : m.Evolves m') : Within m x m' y :=
  ⟨hm, fun _ => h, fun hnot => absurd h hnot⟩

/-- The first of two actions. -/
theorem first (hf : ∀ a m', x m = .ok a m' → m'.Evolves (final (f a m'))) :
    Within m (x >>= f) m x := by
  cases hrun : x m with
  | ok a m' =>
      refine ⟨.refl m, fun ⟨_, h⟩ => (nomatch hrun.symm.trans h), fun _ => ?_⟩
      rw [Halt.bind_ok hrun, hrun]
      exact hf a m' hrun
  | error reason m' =>
      refine ⟨.refl m, fun ⟨m'', h⟩ => ⟨m'', Halt.bind_error h⟩, fun _ => ?_⟩
      rw [Halt.bind_error hrun, hrun]
      exact .refl m'

/-- What is run in the course of the second of two actions. -/
theorem rest {a : α} (hrun : x m = .ok a m₁) (hm : m.Evolves m₁) (h : Within m₁ (f a) m' y) :
    Within m (x >>= f) m' y := by
  have hbind : (x >>= f) m = f a m₁ := Halt.bind_ok hrun
  refine ⟨hm.trans h.evolves, ?_, ?_⟩
  · unfold CutOff
    rw [hbind]
    exact h.cutOff
  · unfold CutOff
    rw [hbind]
    exact h.behind

/-- What runs in the course of an inner action runs in the course of the outer one. -/
theorem trans {δ : Type} {z : Exec δ} {m'' : Machine} (h : Within m x m' y)
    (h' : Within m' y m'' z) : Within m x m'' z where
  evolves := h.evolves.trans h'.evolves
  cutOff hz := h.cutOff (h'.cutOff hz)
  behind hx := by
    have hy : ¬ CutOff m' y := fun hy => hx (h.cutOff hy)
    exact (h'.behind hy).trans (h.behind hx)

end Exec.Within

/-- One more turn makes no difference to a loop that ends. -/
theorem loop_succ {condition : Exec Bool} {body : Exec Flow} {turns : Nat} {m : Machine}
    (h : ¬ CutOff m (loop condition body turns)) :
    loop condition body (turns + 1) m = loop condition body turns m := by
  -- The induction is on the turns. What is left of the loop behind one turn is not cut off either.
  induction turns generalizing m with
  | zero => exact absurd ⟨m, rfl⟩ h
  | succ turns ih =>
      unfold loop
      cases hcondition : condition m with
      | error reason m₁ => rw [Halt.bind_error hcondition, Halt.bind_error hcondition]
      | ok holds m₁ =>
          unfold CutOff loop at h
          rw [Halt.bind_ok hcondition] at h ⊢
          rw [Halt.bind_ok hcondition]
          cases holds with
          | false => rfl
          | true =>
              simp only [if_true] at h ⊢
              cases hbody : body m₁ with
              | error reason m₂ => rw [Halt.bind_error hbody, Halt.bind_error hbody]
              | ok flow m₂ =>
                  rw [Halt.bind_ok hbody] at h ⊢
                  rw [Halt.bind_ok hbody]
                  cases flow with
                  | next => exact ih h
                  | returned v => rfl

/-- A loop with one more turn is run in the course of the loop itself. -/
theorem Exec.Within.loop_succ (condition : Exec Bool) (body : Exec Flow) (turns : Nat)
    (m : Machine) :
    Within m (loop condition body turns) m (loop condition body (turns + 1)) := by
  refine ⟨.refl m, ?_, ?_⟩
  · intro hcut
    refine Classical.byContradiction fun hnot => hnot ?_
    unfold CutOff at hcut
    rwa [LoxLang.loop_succ hnot] at hcut
  · intro hnot
    rw [LoxLang.loop_succ hnot]
    exact .refl _

/-! ## Proper tasks -/

/-- A node of the right shape. -/
def Node.Shaped (N : Token → Prop) : Node → Prop
  | .expr e => e.Shaped N
  | .exprs es => Expr.AllShaped N es
  | .stmt st => st.Shaped N
  | .stmts ss => Stmt.AllShaped N ss
  | .superclass _ ref => N ref.name
  | .function decl => decl.Shaped N
  | .methods decls => FunctionDecl.AllShaped N decls

/-- A task on a valid machine. -/
structure Task.Proper (t : Task) : Prop where
  valid : t.machine.Valid
  shaped : t.node.Shaped Resolver.Named

def Node.Result : Node → Type
  | .expr _ => Value
  | .exprs _ => List Value
  | .stmt _ | .stmts _ => Flow
  | .superclass _ _ => Option ClassId
  | .function _ | .methods _ => Unit

def Task.act (ctx : LoxLang.Context) : (t : Task) → Exec t.node.Result
  | ⟨n, env, .expr e, _⟩ => eval ctx (runBody ctx n) env e
  | ⟨n, env, .exprs es, _⟩ => evalAll ctx (runBody ctx n) env es
  | ⟨n, env, .stmt st, _⟩ => exec ctx (runBody ctx n) env st
  | ⟨n, env, .stmts ss, _⟩ => execAll ctx (runBody ctx n) env ss
  | ⟨_, env, .superclass _ ref, _⟩ => superclassOf ctx env (some ref)
  | ⟨_, _, .function _, _⟩ | ⟨_, _, .methods _, _⟩ => pure ()

theorem Task.behind_eq (ctx : LoxLang.Context) (t : Task) :
    t.behind ctx = final (t.act ctx t.machine) := by
  rcases t with ⟨n, env, node, m⟩
  cases node <;> rfl

/-- A task that is cut off in a loop. -/
def Task.CutOff (ctx : LoxLang.Context) (t : Task) : Prop := Exec.CutOff t.machine (t.act ctx)

/-- One task is run in the course of another one. -/
abbrev Task.Within (ctx : LoxLang.Context) (t u : Task) : Prop :=
  Exec.Within t.machine (t.act ctx) u.machine (u.act ctx)

/-- A task other than the statements of a program. -/
def Task.Inner (t : Task) : Prop := ∀ ss, t.node = .stmts ss → t.env ≠ Machine.globals

variable {ctx : LoxLang.Context} {n : Nat} {env : Env} {m m₁ m₂ m₃ m₄ : Machine}

/-- Bodies of functions with some number of nested calls. -/
theorem runBody_within {paren : Token} {closure : Closure} {vs : List Value} {frame : Frame}
    {inner : Env} (hm : m.Valid) (hclosure : closure.decl.Shaped Resolver.Named)
    (hvs : ∀ v ∈ vs, m.Knows v)
    (hparams : bindParameters .empty closure.decl.params vs = .ok frame)
    (henter : enter closure.env frame m = .ok inner m₁) :
    m₁.Valid ∧ Exec.Within m (runBody ctx (n + 1) paren closure vs) m₁
      (execAll ctx (runBody ctx n) inner closure.decl.body) := by
  have hknown : ∀ x v, frame.get? x = some v → m.Knows v :=
    bindParameters_values hparams hvs nofun
  have henters := (proceeds_enter closure.env hknown).evolves henter
  have hm₁ := hm.evolves henters
  refine ⟨hm₁, ?_⟩
  -- The frame of the parameters comes first, and behind the body only its result is settled.
  unfold runBody
  rw [hparams]
  refine .rest (x := orDefect (.ok frame)) rfl (.refl m) (.rest henter henters (.first ?_))
  intro flow m₂ hflow
  rcases (proceeds_execAll ctx (runBody_proceeds ctx n) _ hm₁ hclosure.body).ok hflow with
    ⟨hevolves, hknown⟩
  exact (proceeds_callResult (hm₁.evolves hevolves) closure hknown).1

/-- A call goes on to the body of the function that it invokes. -/
theorem Invokes.within {f : Value} {vs : List Value} {closure : Closure} {frame : Frame}
    {inner : Env} (hm : m.Valid) (hf : m.Knows f) (hvs : ∀ v ∈ vs, m.Knows v)
    (hinvokes : Invokes f vs m closure m₁)
    (hparams : bindParameters .empty closure.decl.params vs = .ok frame)
    (henter : enter closure.env frame m₁ = .ok inner m₂) (paren : Token) :
    (m₂.Valid ∧ closure.decl.Shaped Resolver.Named) ∧
      Exec.Within m (call ctx (runBody ctx (n + 1)) paren f vs) m₂
        (execAll ctx (runBody ctx n) inner closure.decl.body) := by
  cases hinvokes with
  | @function id _ _ hlength =>
      have hshaped := (hm.functions id hf).1
      rcases runBody_within hm hshaped hvs hparams henter with ⟨hm₂, hwithin⟩
      refine ⟨⟨hm₂, hshaped⟩, ?_⟩
      refine .rest (x := get) rfl (.refl m) (.rest (a := ()) ?_ (.refl m) hwithin)
      simp only [checkArity, hlength, if_true]
      rfl
  -- A class has made the object, and has bound the initializer to it, before the body is run.
  | @initializer id _ _ m' _ method _ object hmethod hlength hobject hbind =>
      rcases (proceeds_newObject hf).ok hobject with ⟨hnew, hknown⟩
      rcases (proceeds_bindMethod method hknown).ok hbind with ⟨hbinds, hdecl, -⟩
      have hevolves := hnew.trans hbinds
      have hshaped : closure.decl.Shaped Resolver.Named :=
        hdecl ▸ (findMethod?_shaped hm hmethod).1
      have hvs' : ∀ v ∈ vs, m₁.Knows v := fun v hv => hevolves.extends.knows (hvs v hv)
      rcases runBody_within (hm.evolves hevolves) hshaped hvs' hparams henter with ⟨hm₂, hwithin⟩
      refine ⟨⟨hm₂, hshaped⟩, ?_⟩
      have harity : checkArity paren ((m.initializer? id).elim 0 Closure.arity) vs.length m =
          .ok () m := by
        simp only [checkArity, hmethod, Option.elim_some, hlength, if_true]
        rfl
      refine .rest (x := get) rfl (.refl m) (.rest harity (.refl m) ?_)
      rw [hmethod]
      refine .rest hobject hnew (.rest hbind hbinds (.trans (.first ?_) hwithin))
      exact fun _ _ _ => .refl _

namespace Task.Proper

/-- Whatever a task does, it makes single changes only. -/
theorem evolves_behind {t : Task} (h : t.Proper) : t.machine.Evolves (t.behind ctx) := by
  rcases t with ⟨calls, env, node, m⟩
  have hrun := runBody_proceeds ctx calls
  cases node with
  | expr e => exact (proceeds_eval ctx hrun env e h.valid h.shaped).1
  | exprs es => exact (proceeds_evalAll ctx hrun env es h.valid h.shaped).1
  | stmt st => exact (proceeds_exec ctx hrun st h.valid h.shaped).1
  | stmts ss => exact (proceeds_execAll ctx hrun ss h.valid h.shaped).1
  | superclass _ ref => exact (proceeds_superclassOf h.valid ctx env (some ref)).1
  | function _ | methods _ => exact .refl m

/-- A task in the course of a proper one is proper. -/
theorem of_within {t u : Task} (h : t.Proper) (hwithin : t.Within ctx u)
    (hshaped : u.node.Shaped Resolver.Named) : u.Proper ∧ t.Within ctx u :=
  ⟨⟨h.valid.evolves hwithin.evolves, hshaped⟩, hwithin⟩

/-- An expression that is evaluated first. -/
theorem ofExpr {α : Type} {e : Expr} (hm : m.Valid) (he : e.Shaped Resolver.Named)
    {f : Value → Exec α} (hf : ∀ (v : Value) (m' : Machine), m'.Valid → m.Evolves m' →
      m'.Knows v → m'.Evolves (final (f v m'))) :
    Exec.Within m (eval ctx (runBody ctx n) env e >>= f) m (eval ctx (runBody ctx n) env e) := by
  refine .first fun v m' hrun => ?_
  rcases (proceeds_eval ctx (runBody_proceeds ctx n) env e hm he).ok hrun with ⟨hevolves, hv⟩
  exact hf v m' (hm.evolves hevolves) hevolves hv

/-- A statement that is executed first. -/
theorem ofStmt {α : Type} {st : Stmt} (hm : m.Valid) (hst : st.Shaped Resolver.Named)
    {f : Flow → Exec α}
    (hf : ∀ (flow : Flow) (m' : Machine), m'.Valid → m'.Evolves (final (f flow m'))) :
    Exec.Within m (exec ctx (runBody ctx n) env st >>= f) m (exec ctx (runBody ctx n) env st) := by
  refine .first fun flow m' hrun => ?_
  rcases (proceeds_exec ctx (runBody_proceeds ctx n) st hm hst).ok hrun with ⟨hevolves, -⟩
  exact hf flow m' (hm.evolves hevolves)

/-- What comes behind an expression. -/
theorem behindExpr {α β : Type} {e : Expr} {v : Value} {f : Value → Exec α} {y : Exec β}
    {m' : Machine} (hm : m.Valid) (he : e.Shaped Resolver.Named)
    (hrun : eval ctx (runBody ctx n) env e m = .ok v m₁)
    (h : m₁.Valid → m.Evolves m₁ → m₁.Knows v → Exec.Within m₁ (f v) m' y) :
    Exec.Within m (eval ctx (runBody ctx n) env e >>= f) m' y := by
  rcases (proceeds_eval ctx (runBody_proceeds ctx n) env e hm he).ok hrun with ⟨hevolves, hv⟩
  exact .rest hrun hevolves (h (hm.evolves hevolves) hevolves hv)

/-- What comes behind a condition that holds or does not. -/
theorem behindCondition {α β : Type} {e : Expr} {v : Value} {f : Bool → Exec α} {y : Exec β}
    {m' : Machine} (hm : m.Valid) (he : e.Shaped Resolver.Named)
    (hrun : eval ctx (runBody ctx n) env e m = .ok v m₁) {b : Bool} (hv : v.isTruthy = b)
    (h : m₁.Valid → Exec.Within m₁ (f b) m' y) :
    Exec.Within m (evalCondition ctx (runBody ctx n) env e >>= f) m' y := by
  rcases (proceeds_eval ctx (runBody_proceeds ctx n) env e hm he).ok hrun with ⟨hevolves, -⟩
  refine .rest ?_ hevolves (h (hm.evolves hevolves))
  unfold evalCondition
  rw [Halt.bind_ok hrun, hv]
  rfl

/-- A condition comes first. -/
theorem ofCondition {α : Type} {e : Expr} {f : Bool → Exec α} (hm : m.Valid)
    (he : e.Shaped Resolver.Named)
    (hf : ∀ (b : Bool) (m' : Machine), m'.Valid → m'.Evolves (final (f b m'))) :
    Exec.Within m (evalCondition ctx (runBody ctx n) env e >>= f) m
      (eval ctx (runBody ctx n) env e) := by
  refine .trans (.first fun b m' hrun => ?_) (ofExpr hm he fun _ m' _ _ _ => .refl m')
  have hproceeds := proceeds_evalCondition ctx (runBody_proceeds ctx n) env hm he
  exact hf b m' (hm.evolves (hproceeds.evolves hrun))

variable {condition : Expr} {body : Stmt} {v : Value}

/-- A loop starts with its condition. -/
theorem ofLoop (hm : m.Valid) (hloop : (Stmt.whileLoop condition body).Shaped Resolver.Named)
    (turns : Nat) :
    Exec.Within m
      (loop (evalCondition ctx (runBody ctx n) env condition) (exec ctx (runBody ctx n) env body)
        turns)
      m (eval ctx (runBody ctx n) env condition) := by
  have hrun := runBody_proceeds ctx n
  cases turns with
  | zero => exact .of_cutOff ⟨m, rfl⟩ (.refl m)
  | succ turns =>
      refine ofCondition hm hloop.1 fun holds m₁ hm₁ => ?_
      have hbody {m : Machine} (hm : m.Valid) :
          Proceeds m (exec ctx (runBody ctx n) env body) KnownFlow :=
        proceeds_exec ctx hrun body hm hloop.2.2
      exact (proceeds_turn hbody (proceeds_loop
        (fun hm => proceeds_evalCondition ctx hrun env hm hloop.1) hbody turns) hm₁ holds).1

/-- A turn of a loop comes behind its condition. -/
theorem behindLoopCondition (hm : m.Valid)
    (hloop : (Stmt.whileLoop condition body).Shaped Resolver.Named)
    (hcondition : eval ctx (runBody ctx n) env condition m = .ok v m₁) (htruthy : v.isTruthy = true)
    (turns : Nat) :
    Exec.Within m
      (loop (evalCondition ctx (runBody ctx n) env condition) (exec ctx (runBody ctx n) env body)
        turns)
      m₁ (exec ctx (runBody ctx n) env body) := by
  have hrun := runBody_proceeds ctx n
  cases turns with
  | zero =>
      exact .of_cutOff ⟨m, rfl⟩ ((proceeds_eval ctx hrun env condition hm hloop.1).evolves hcondition)
  | succ turns =>
      refine behindCondition hm hloop.1 hcondition htruthy fun hm₁ =>
        ofStmt hm₁ hloop.2.2 fun flow m' hm' => ?_
      cases flow with
      | next =>
          exact (proceeds_loop (fun hm => proceeds_evalCondition ctx hrun env hm hloop.1)
            (fun hm => proceeds_exec ctx hrun body hm hloop.2.2) turns hm').1
      | returned v => exact .refl m'

/-- A loop starts over behind a turn. -/
theorem behindTurn (hm : m.Valid) (hloop : (Stmt.whileLoop condition body).Shaped Resolver.Named)
    (hcondition : eval ctx (runBody ctx n) env condition m = .ok v m₁) (htruthy : v.isTruthy = true)
    (hbody : exec ctx (runBody ctx n) env body m₁ = .ok .next m₂) (turns : Nat) :
    Exec.Within m
      (loop (evalCondition ctx (runBody ctx n) env condition) (exec ctx (runBody ctx n) env body)
        turns)
      m₂
      (loop (evalCondition ctx (runBody ctx n) env condition) (exec ctx (runBody ctx n) env body)
        turns) := by
  have hrun := runBody_proceeds ctx n
  have h₁ := (proceeds_eval ctx hrun env condition hm hloop.1).evolves hcondition
  have h₂ := (proceeds_exec ctx hrun body (hm.evolves h₁) hloop.2.2).evolves hbody
  cases turns with
  | zero => exact .of_cutOff ⟨m, rfl⟩ (h₁.trans h₂)
  | succ turns =>
      -- The loop has one turn less from here, while the task starts over with all of them.
      exact behindCondition hm hloop.1 hcondition htruthy fun _ =>
        .rest hbody h₂ (.loop_succ _ _ turns m₂)

/-- One step of a run leads from a proper task to another one in its course. The statements of a
program are excepted. -/
theorem next {t u : Task} (h : t.Proper) (hinner : t.Inner) (hnext : t.Next ctx u) :
    u.Proper ∧ t.Within ctx u := by
  have hm := h.valid
  have hshaped := h.shaped
  have hrun := runBody_proceeds ctx t.calls
  -- A part that is run first is in the course of the whole, because what is left of the whole makes
  -- nothing but single changes. For a part behind others the step says what these have given, and
  -- then it is the first part of what is left.
  cases hnext with
  | @assigned n env id name value m =>
      refine h.of_within (ofExpr hm hshaped.2 fun v m' _ _ hv => ?_) hshaped.2
      exact ((proceeds_assign ctx env id hshaped.1 hv).bind (R := fun _ _ => True)
        fun _ _ _ _ => .pure trivial).1
  | @left n env id left right operator m =>
      refine h.of_within (ofExpr hm hshaped.1 fun l m₁ hm₁ _ _ => ?_) hshaped.1
      exact ((proceeds_eval ctx hrun env right hm₁ hshaped.2).bind (R := Known) fun _ _ _ _ =>
        .orRaise (fun _ => Value.knows_of_binary) operator).1
  | @right n env id left right operator m m₁ l hleft =>
      refine h.of_within (behindExpr hm hshaped.1 hleft fun hm₁ _ _ => ?_) hshaped.2
      refine ofExpr hm₁ hshaped.2 fun r m' _ _ _ => ?_
      exact (Proceeds.orRaise (Q := Known) (fun _ => Value.knows_of_binary) operator).1
  | @callee n env id callee paren arguments m =>
      refine h.of_within (ofExpr hm hshaped.1 fun f m₁ hm₁ _ hf => ?_) hshaped.1
      exact ((proceeds_evalAll ctx hrun env arguments hm₁ hshaped.2).bind fun _ _ h₂ hvs =>
        proceeds_call ctx hrun (hm₁.evolves h₂) paren (h₂.extends.knows hf) hvs).1
  | @arguments n env id callee paren arguments m m₁ f hcallee =>
      refine h.of_within (behindExpr hm hshaped.1 hcallee fun hm₁ _ hf => ?_) hshaped.2
      refine .first fun vs m₂ harguments => ?_
      rcases (proceeds_evalAll ctx hrun env arguments hm₁ hshaped.2).ok harguments with ⟨h₂, hvs⟩
      exact (proceeds_call ctx hrun (hm₁.evolves h₂) paren (h₂.extends.knows hf) hvs).1
  | @body n env inner id callee paren arguments m m₁ m₂ m₃ m₄ f vs closure frame hcallee harguments
      hinvokes hparams henter _ =>
      rcases (proceeds_eval ctx hrun env callee hm hshaped.1).ok hcallee with ⟨h₁, hf⟩
      have hm₁ := hm.evolves h₁
      rcases (proceeds_evalAll ctx hrun env arguments hm₁ hshaped.2).ok harguments with ⟨h₂, hvs⟩
      rcases hinvokes.within (hm₁.evolves h₂) (h₂.extends.knows hf) hvs hparams henter paren with
        ⟨⟨-, hclosure⟩, hwithin⟩
      exact h.of_within (.rest hcallee h₁ (.rest harguments h₂ hwithin)) hclosure.body
  | @object n env id object name m =>
      refine h.of_within (ofExpr (e := object) hm hshaped fun v m₁ hm₁ _ hv => ?_) hshaped
      exact (proceeds_getProperty hm₁ hv name).1
  | inner => exact h.of_within (.refl _ _) hshaped
  | @logicalLeft n env id left right operator m =>
      refine h.of_within (ofExpr hm hshaped.1 fun l m₁ hm₁ _ hl => ?_) hshaped.1
      split
      · exact .refl m₁
      · exact (proceeds_eval ctx hrun env right hm₁ hshaped.2).1
  | @logicalRight n env id left right operator m m₁ l hleft hsettles =>
      refine h.of_within (behindExpr hm hshaped.1 hleft fun _ _ _ => ?_) hshaped.2
      rw [hsettles]
      exact .refl _ _
  | @setObject n env id object value name m =>
      refine h.of_within (ofExpr hm hshaped.1 fun o m₁ hm₁ _ _ => ?_) hshaped.1
      cases o with
      | object id =>
          exact ((proceeds_eval ctx hrun env value hm₁ hshaped.2).bind (R := fun _ _ => True)
            fun v m₂ _ hv => (proceeds_setField id name.lexeme hv).bind
              fun _ _ _ _ => .pure trivial).1
      | _ => exact .refl m₁
  | @setValue n env id object value name m m₁ o hobject =>
      refine h.of_within (behindExpr hm hshaped.1 hobject fun hm₁ _ _ => ?_) hshaped.2
      have hasObject : asObject (.object o) name m₁ = .ok o m₁ := rfl
      refine .rest hasObject (.refl m₁) (ofExpr hm₁ hshaped.2 fun v m' _ _ hv => ?_)
      exact ((proceeds_setField o name.lexeme hv).bind (R := fun _ _ => True)
        fun _ _ _ _ => .pure trivial).1
  | @operand n env id operator right m =>
      refine h.of_within (ofExpr (e := right) hm hshaped fun v m' _ _ _ => ?_) hshaped
      exact (Proceeds.orRaise (Q := Known) (fun _ => Value.knows_of_unary) operator).1
  | @firstExpr n env e es m =>
      refine h.of_within (ofExpr hm hshaped.1 fun v m₁ hm₁ _ _ => ?_) hshaped.1
      exact ((proceeds_evalAll ctx hrun env es hm₁ hshaped.2).bind (R := fun _ _ => True)
        fun _ _ _ _ => .pure trivial).1
  | @moreExprs n env e es m m₁ v hfirst =>
      refine h.of_within (behindExpr hm hshaped.1 hfirst fun hm₁ _ _ => ?_) hshaped.2
      exact .first fun _ m' _ => .refl m'
  | @block n env inner body m m₁ henter =>
      have henters := (proceeds_enter_empty env).evolves henter
      exact h.of_within (.rest henter henters (.refl _ _)) hshaped
  | @superclass n env name ref methods m =>
      refine h.of_within (.trans (.first fun _ m' _ => .refl m') (.first fun c m' hrun => ?_))
        (hshaped.2.1 ref rfl)
      rcases (proceeds_superclassOf hm ctx env (some ref)).ok hrun with ⟨-, hc⟩
      exact (proceeds_declareBelow env hshaped.1 hc hshaped.2.2).1
  | @expression n env e m =>
      exact h.of_within (ofExpr (e := e) hm hshaped fun _ m' _ _ _ => .refl m') hshaped
  | @print n env e m =>
      refine h.of_within (ofExpr (e := e) hm hshaped fun v m' _ _ _ => ?_) hshaped
      exact ((proceeds_print v).bind (R := fun _ _ => True) fun _ _ _ _ => .pure trivial).1
  | @condition n env condition thenBranch elseBranch m =>
      cases elseBranch with
      | none =>
          refine h.of_within (ofCondition hm hshaped.1 fun b m₁ hm₁ => ?_) hshaped.1
          cases b with
          | true => exact (proceeds_exec ctx hrun thenBranch hm₁ hshaped.2.2).1
          | false => exact .refl m₁
      | some elseBranch =>
          refine h.of_within (ofCondition hm hshaped.1 fun b m₁ hm₁ => ?_) hshaped.1
          cases b with
          | true => exact (proceeds_exec ctx hrun thenBranch hm₁ hshaped.2.1.2).1
          | false => exact (proceeds_exec ctx hrun elseBranch hm₁ hshaped.2.2.2).1
  | @thenBranch n env condition thenBranch elseBranch m m₁ v hcondition htruthy =>
      cases elseBranch with
      | none =>
          exact h.of_within (behindCondition hm hshaped.1 hcondition htruthy fun _ => .refl _ _)
            hshaped.2.2
      | some elseBranch =>
          exact h.of_within (behindCondition hm hshaped.1 hcondition htruthy fun _ => .refl _ _)
            hshaped.2.1.2
  | @elseBranch n env condition thenBranch elseBranch m m₁ v hcondition hfalsy =>
      exact h.of_within (behindCondition hm hshaped.1 hcondition hfalsy fun _ => .refl _ _)
        hshaped.2.2.2
  | @returned n env keyword e m =>
      have he := hshaped e rfl
      exact h.of_within (ofExpr hm he fun _ m' _ _ _ => .refl m') he
  | @initializer n env name e m =>
      have he := hshaped.2 e rfl
      refine h.of_within (ofExpr hm he fun v m' _ _ hv => ?_) he
      exact ((proceeds_bindIn env.frame hshaped.1 hv).bind (R := fun _ _ => True)
        fun _ _ _ _ => .pure trivial).1
  | loopCondition => exact h.of_within (ofLoop hm hshaped _) hshaped.1
  | loopBody hcondition htruthy =>
      exact h.of_within (behindLoopCondition hm hshaped hcondition htruthy _) hshaped.2.2
  | turn hcondition htruthy hbody =>
      exact h.of_within (behindTurn hm hshaped hcondition htruthy hbody _) hshaped
  | @firstStmt n env st ss m =>
      refine h.of_within (ofStmt hm hshaped.1 fun flow m₁ hm₁ => ?_) hshaped.1
      cases flow with
      | next => exact (proceeds_execAll ctx hrun ss hm₁ hshaped.2).1
      | returned v => exact .refl m₁
  | @moreStmts n env st ss m m₁ flow hfirst hflow =>
      -- Only the top level would go on behind a return.
      rcases hflow with rfl | rfl
      · rcases (proceeds_exec ctx hrun st hm hshaped.1).ok hfirst with ⟨hevolves, -⟩
        exact h.of_within (.rest hfirst hevolves (.refl _ _)) hshaped.2
      · exact absurd rfl (hinner _ rfl)

end Task.Proper

/-- One step of a run leads from a proper task to another one, on a machine that has evolved. -/
theorem Task.Proper.next_evolves {t u : Task} (h : t.Proper) (hnext : t.Next ctx u) :
    u.Proper ∧ t.machine.Evolves u.machine := by
  by_cases hinner : t.Inner
  · exact (h.next hinner hnext).imp_right Exec.Within.evolves
  · -- Only the statements of a program are no inner task.
    have hvalid := h.valid
    have hshaped := h.shaped
    cases hnext with
    | firstStmt => exact ⟨⟨hvalid, hshaped.1⟩, .refl _⟩
    | moreStmts hfirst _ =>
        have hevolves :=
          (proceeds_exec ctx (runBody_proceeds ctx _) _ hvalid hshaped.1).evolves hfirst
        exact ⟨⟨hvalid.evolves hevolves, hshaped.2⟩, hevolves⟩
    | _ => exact absurd (fun _ heq => nomatch heq) hinner

/-! ## Whole runs -/

/-- A scope that is opened has another one around it. -/
theorem enter_ne_globals {frame : Frame} {inner : Env} (h : enter env frame m = .ok inner m₁) :
    inner ≠ Machine.globals := by
  cases h
  exact fun heq => List.cons_ne_nil _ _ (congrArg Env.enclosing heq)

/-- What is run in the course of an inner task is an inner task. -/
theorem Task.Inner.next {t u : Task} (h : t.Inner) (hnext : t.Next ctx u) : u.Inner := by
  cases hnext with
  | body _ _ _ _ henter _ => exact fun _ _ => enter_ne_globals henter
  | block henter => exact fun _ _ => enter_ne_globals henter
  | moreStmts _ _ => exact fun _ _ => h _ rfl
  | _ => exact fun _ heq => nomatch heq

/-- Whatever a proper task leads to is run in its course. -/
theorem Task.Proper.leads {t u : Task} (h : t.Proper) (hinner : t.Inner) (hleads : t.Leads ctx u) :
    u.Proper ∧ u.Inner ∧ t.Within ctx u := by
  induction hleads with
  | here => exact ⟨h, hinner, .refl _ _⟩
  | next hnext _ ih =>
      rcases h.next hinner hnext with ⟨hproper, hwithin⟩
      rcases ih hproper (hinner.next hnext) with ⟨hproper', hinner', hwithin'⟩
      exact ⟨hproper', hinner', hwithin.trans hwithin'⟩

/-- Whatever a program leads to is run in its course. -/
theorem Task.Proper.leads_topLevel {ss : List Stmt} {t : Task} (hm : m.Valid)
    (hss : Stmt.AllShaped Resolver.Named ss)
    (hleads : Task.Leads ctx ⟨ctx.host.maxCalls, Machine.globals, .stmts ss, m⟩ t) :
    t.Proper ∧ m.Evolves t.machine ∧
      (t.Inner → Exec.Within m (execTopLevel ctx ss) t.machine (t.act ctx)) := by
  generalize hstart : Task.mk ctx.host.maxCalls Machine.globals (.stmts ss) m = start at hleads
  induction hleads generalizing ss m with
  | here =>
      subst hstart
      exact ⟨⟨hm, hss⟩, .refl m, fun hinner => absurd rfl (hinner _ rfl)⟩
  -- A program starts with its first statement, or goes on behind it.
  | next hnext hleads ih =>
      subst hstart
      have hrun := runBody_proceeds ctx ctx.host.maxCalls
      generalize hcalls : ctx.host.maxCalls = calls at hnext
      cases hnext with
      | @firstStmt _ _ st ss _ =>
          -- From here on, all tasks are inner ones.
          subst hcalls
          have hfirst : Task.Proper ⟨ctx.host.maxCalls, Machine.globals, .stmt st, m⟩ := ⟨hm, hss.1⟩
          rcases hfirst.leads (fun _ h => nomatch h) hleads with ⟨hproper, -, hwithin⟩
          refine ⟨hproper, hwithin.evolves, fun _ => .trans (.first fun flow m' hflow => ?_) hwithin⟩
          have hm' := hm.evolves ((proceeds_exec ctx hrun st hm hss.1).evolves hflow)
          exact (proceeds_execTopLevel ctx ss hm' hss.2).1
      | @moreStmts _ _ st ss _ m₁ flow hfirst _ =>
          subst hcalls
          have hevolves := (proceeds_exec ctx hrun st hm hss.1).evolves hfirst
          rcases ih (hm.evolves hevolves) hss.2 rfl with ⟨hproper, hmore, hwithin⟩
          exact ⟨hproper, hevolves.trans hmore, fun hinner => .rest hfirst hevolves (hwithin hinner)⟩

/-- Unless a program is cut off in a loop, what is left behind by a task in its course goes on to
what the program leaves behind. -/
theorem Exec.Within.execute {ss : List Stmt} {t : Task}
    (h : Exec.Within m (execTopLevel ctx ss) t.machine (t.act ctx))
    (hfinished : (m.execute ctx ss).1 ≠ .halted .unfinished) :
    (t.behind ctx).Evolves (m.execute ctx ss).2 := by
  have hnot : ¬ CutOff m (execTopLevel ctx ss) := by
    rintro ⟨m', hrun⟩
    refine hfinished ?_
    unfold Machine.execute
    rw [hrun]
  have hbehind := h.behind hnot
  rw [Task.behind_eq]
  unfold Machine.execute
  cases hrun : execTopLevel ctx ss m with
  | ok _ m' => rwa [hrun] at hbehind
  | error _ m' => rwa [hrun] at hbehind

end LoxLang
