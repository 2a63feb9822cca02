import LoxLang.Proofs.Eval.Alike

/-!
# Programs that are alike run alike

Statements that differ in their tokens and numbers do the same on machines that are alike.

* `Context.Agrees`: two contexts with one host, and with the same addresses for related numbers.
* `Runner.Twins` is what is assumed of calls while an expression or a statement is run. By
  induction on the number of nested calls it holds of every runner, see `runBody_twins`.
* `Machine.execute_alike`: two whole programs end alike.
* `execTopLevel_append`: a program in two parts is run one part after the other.
-/

namespace LoxLang

open Exec

/-- Two contexts that cannot be told apart by programs whose numbers are related by `R`. -/
structure Context.Agrees (R : NodeId → NodeId → Prop) (ctx ctx' : Context) : Prop where
  links : ∀ id id', R id id' → ctx'.links[id']? = ctx.links[id]?
  host : ctx'.host = ctx.host

def Runner.Twins (T : Token → Token → Prop) (R : NodeId → NodeId → Prop)
    (before : List String) (run run' : Runner) : Prop :=
  ∀ {paren paren' : Token} {f f' : Closure} (arguments : List Value), T paren paren' →
    f.Alike T R f' → Twin T R before (run paren f arguments) (run' paren' f' arguments) Eq

section Trees

variable {T : Token → Token → Prop} {R : NodeId → NodeId → Prop} {before : List String}
  {ctx ctx' : Context} {run run' : Runner}

/-! ## Calls -/

/-- Both sides make their object at the same place. -/
theorem twin_construct (hrun : Runner.Twins T R before run run') {paren paren' : Token}
    (hparen : T paren paren') (classId : ClassId) {initializer initializer' : Option Closure}
    (hinit : Option.Rel (Closure.Alike T R) initializer initializer') (arguments : List Value) :
    Twin T R before (construct run paren classId initializer arguments)
      (construct run' paren' classId initializer' arguments) Eq := by
  refine (twin_newObject classId).bind ?_
  rintro object _ rfl
  cases hinit with
  | none => exact .pure rfl
  | some hmethod =>
      refine (twin_bindMethod hmethod object).bind ?_
      intro f f' hf
      refine (hrun arguments hparen hf).bind ?_
      rintro _ _ -
      exact .pure rfl

/-- A value is called with the same outcome on both sides, whatever it is. -/
theorem twin_call (hctx : ctx.Agrees R ctx') (hrun : Runner.Twins T R before run run')
    {paren paren' : Token} (hparen : T paren paren') (callee : Value) (arguments : List Value) :
    Twin T R before (call ctx run paren callee arguments) (call ctx' run' paren' callee arguments)
      Eq := by
  cases callee with
  | native f =>
      cases f
      refine (twin_checkArity hparen 0 _).bind ?_
      rintro _ _ -
      rw [hctx.host]
      exact twin_readClock ctx.host
  | function id =>
      refine .get_bind ?_
      intro m m' h
      -- The two functions have as many parameters.
      have hf := h.functions id
      dsimp only
      rw [hf.arity]
      refine (twin_checkArity hparen _ _).bind ?_
      rintro _ _ -
      exact hrun arguments hparen hf
  | classRef id =>
      refine .get_bind ?_
      intro m m' h
      -- Both classes have an initializer, or neither has.
      have hinit := h.findMethod? id "init"
      have harity : (m'.initializer? id).elim 0 Closure.arity = _ :=
        arity_eq_of_rel (fun _ _ hf => hf.arity) hinit
      dsimp only
      rw [harity]
      refine (twin_checkArity hparen _ _).bind ?_
      rintro _ _ -
      exact twin_construct hrun hparen id hinit arguments
  | _ => exact .raise _ hparen

/-! ## Expressions -/

mutual

/-- Expressions that are alike come to the same on machines that are alike. -/
theorem twin_eval (hT : ∀ t t', T t t' → t.SameWord t') (hctx : ctx.Agrees R ctx')
    (hrun : Runner.Twins T R before run run') (env : Env) {e e' : Expr} :
    Expr.Alike T R e e' → Twin T R before (eval ctx run env e) (eval ctx' run' env e') Eq
  -- Related tokens are the same words, so both sides decide alike on their kinds and lexemes.
  | .assign hid hname hvalue => by
      refine (twin_eval hT hctx hrun env hvalue).bind ?_
      rintro v _ rfl
      refine (twin_assign hT (hctx.links _ _ hid) hname v).bind ?_
      rintro _ _ -
      exact .pure rfl
  | .binary hleft hop hright => by
      refine (twin_eval hT hctx hrun env hleft).bind ?_
      rintro l _ rfl
      refine (twin_eval hT hctx hrun env hright).bind ?_
      rintro r _ rfl
      rw [(hT _ _ hop).kind]
      exact .orRaise hop _
  | .call hcallee hparen hargs => by
      refine (twin_eval hT hctx hrun env hcallee).bind ?_
      rintro f _ rfl
      refine (twin_evalAll hT hctx hrun env hargs).bind ?_
      rintro vs _ rfl
      exact twin_call hctx hrun hparen f vs
  | .get hobject hname => by
      refine (twin_eval hT hctx hrun env hobject).bind ?_
      rintro v _ rfl
      exact twin_getProperty hT v hname
  | .grouping hinner => by
      have htwin := twin_eval hT hctx hrun env hinner
      exact htwin
  | .literal => .pure rfl
  | .logical hleft hop hright => by
      refine (twin_eval hT hctx hrun env hleft).bind ?_
      rintro l _ rfl
      rw [(hT _ _ hop).kind]
      split
      · exact .pure rfl
      · exact twin_eval hT hctx hrun env hright
  | .set hobject hname hvalue => by
      refine (twin_eval hT hctx hrun env hobject).bind ?_
      rintro o _ rfl
      refine (twin_asObject hname o).bind ?_
      rintro id _ rfl
      refine (twin_eval hT hctx hrun env hvalue).bind ?_
      rintro v _ rfl
      rw [(hT _ _ hname).lexeme]
      refine (twin_setField id _ v).bind ?_
      rintro _ _ -
      exact .pure rfl
  | .super hid _ hmethod => twin_superMethod hT (hctx.links _ _ hid) hmethod
  | .this hid hkeyword => twin_lookUp hT (hctx.links _ _ hid) hkeyword
  | .unary hop hright => by
      refine (twin_eval hT hctx hrun env hright).bind ?_
      rintro v _ rfl
      rw [(hT _ _ hop).kind]
      exact .orRaise hop _
  | .variable hid hname => twin_lookUp hT (hctx.links _ _ hid) hname

/-- By induction on the two lists, which have the same length. -/
theorem twin_evalAll (hT : ∀ t t', T t t' → t.SameWord t') (hctx : ctx.Agrees R ctx')
    (hrun : Runner.Twins T R before run run') (env : Env) {es es' : List Expr} :
    Expr.AllAlike T R es es' →
    Twin T R before (evalAll ctx run env es) (evalAll ctx' run' env es') Eq
  | .nil => .pure rfl
  | .cons h hs => by
      refine (twin_eval hT hctx hrun env h).bind ?_
      rintro v _ rfl
      refine (twin_evalAll hT hctx hrun env hs).bind ?_
      rintro vs _ rfl
      exact .pure rfl

end

theorem twin_evalCondition (hT : ∀ t t', T t t' → t.SameWord t') (hctx : ctx.Agrees R ctx')
    (hrun : Runner.Twins T R before run run') (env : Env) {e e' : Expr}
    (h : Expr.Alike T R e e') :
    Twin T R before (evalCondition ctx run env e) (evalCondition ctx' run' env e') Eq := by
  refine (twin_eval hT hctx hrun env h).bind ?_
  rintro v _ rfl
  exact .pure rfl

theorem twin_evalOptional (hT : ∀ t t', T t t' → t.SameWord t') (hctx : ctx.Agrees R ctx')
    (hrun : Runner.Twins T R before run run') (env : Env) {e e' : Option Expr}
    (h : Option.Rel (Expr.Alike T R) e e') :
    Twin T R before (evalOptional ctx run env e) (evalOptional ctx' run' env e') Eq := by
  cases h with
  | none => exact .pure rfl
  | some h => exact twin_eval hT hctx hrun env h

/-! ## Statements -/

mutual

/-- The same of statements. -/
theorem twin_exec (hT : ∀ t t', T t t' → t.SameWord t') (hctx : ctx.Agrees R ctx')
    (hrun : Runner.Twins T R before run run') (env : Env) {s s' : Stmt} :
    Stmt.Alike T R s s' → Twin T R before (exec ctx run env s) (exec ctx' run' env s') Eq
  | .block hbody => by
      refine (twin_enter env .empty).bind ?_
      rintro inner _ rfl
      exact twin_execAll hT hctx hrun inner hbody
  | .classDecl hname hmethods => by
      refine (twin_declareClass hT hname (.pure rfl) hmethods).bind ?_
      rintro _ _ -
      exact .pure rfl
  | .subclass hname hid hparent hmethods => by
      refine (twin_declareClass hT hname (twin_superclassOf hT (hctx.links _ _ hid) hparent)
        hmethods).bind ?_
      rintro _ _ -
      exact .pure rfl
  | .expression he => by
      refine (twin_eval hT hctx hrun env he).bind ?_
      rintro _ _ -
      exact .pure rfl
  | @Stmt.Alike.function _ _ decl decl' hdecl => by
      -- The two functions are alike as declarations, and are made in one environment.
      have hclosure : Closure.Alike T R ⟨decl, env, false⟩ ⟨decl', env, false⟩ :=
        ⟨hdecl, rfl, rfl⟩
      refine (twin_newFunction hclosure).bind ?_
      rintro v _ rfl
      rw [hdecl.lexeme]
      refine (twin_bindIn env.frame _ v).bind ?_
      rintro _ _ -
      exact .pure rfl
  | .ifOnly hcondition hthen => by
      refine (twin_evalCondition hT hctx hrun env hcondition).bind ?_
      rintro holds _ rfl
      cases holds with
      | false => exact .pure rfl
      | true => exact twin_exec hT hctx hrun env hthen
  | .ifElse hcondition hthen helse => by
      refine (twin_evalCondition hT hctx hrun env hcondition).bind ?_
      rintro holds _ rfl
      cases holds with
      | false => exact twin_exec hT hctx hrun env helse
      | true => exact twin_exec hT hctx hrun env hthen
  | .print he => by
      refine (twin_eval hT hctx hrun env he).bind ?_
      rintro v _ rfl
      refine (twin_print v).bind ?_
      rintro _ _ -
      exact .pure rfl
  | .returnValue _ hvalue => by
      refine (twin_evalOptional hT hctx hrun env hvalue).bind ?_
      rintro v _ rfl
      exact .pure rfl
  | .varDecl hname hvalue => by
      refine (twin_evalOptional hT hctx hrun env hvalue).bind ?_
      rintro v _ rfl
      rw [hname]
      refine (twin_bindIn env.frame _ v).bind ?_
      rintro _ _ -
      exact .pure rfl
  | .whileLoop hcondition hbody => by
      have hturn := twin_exec hT hctx hrun env hbody
      have hcheck := twin_evalCondition hT hctx hrun env hcondition
      unfold exec
      -- Both loops are given as many turns.
      rw [hctx.host]
      exact twin_loop hcheck hturn _

/-- By induction on the two lists: a statement that returns ends both. -/
theorem twin_execAll (hT : ∀ t t', T t t' → t.SameWord t') (hctx : ctx.Agrees R ctx')
    (hrun : Runner.Twins T R before run run') (env : Env) {ss ss' : List Stmt} :
    Stmt.AllAlike T R ss ss' →
    Twin T R before (execAll ctx run env ss) (execAll ctx' run' env ss') Eq
  | .nil => .pure rfl
  | .cons h hs => by
      refine (twin_exec hT hctx hrun env h).bind ?_
      rintro flow _ rfl
      cases flow with
      | next => exact twin_execAll hT hctx hrun env hs
      | returned v => exact .pure rfl

end

/-! ## Programs -/

/-- The same of the bodies of functions, by induction on the calls that may still be nested. -/
theorem runBody_twins (hT : ∀ t t', T t t' → t.SameWord t') (hctx : ctx.Agrees R ctx')
    (calls : Nat) : Runner.Twins T R before (runBody ctx calls) (runBody ctx' calls) := by
  -- The induction is on the calls that may still be nested.
  induction calls with
  | zero => exact fun _ hparen _ => .raise _ hparen
  | succ calls ih =>
      intro paren paren' f f' arguments _ hf
      unfold runBody
      rw [bindParameters_eq arguments .empty hf.decl.params, hf.env]
      refine (Twin.orDefect _).bind ?_
      rintro frame _ rfl
      refine (twin_enter f.env frame).bind ?_
      rintro inner _ rfl
      refine (twin_execAll hT hctx ih inner hf.decl.body).bind ?_
      rintro flow _ rfl
      unfold callResult
      rw [hf.isInitializer, hf.env]
      split
      · exact twin_getAt f.env 0 "this"
      · exact .pure rfl

/-- What holds of every statement holds of programs that run them one after the other. -/
theorem twin_topLevel (hT : ∀ t t', T t t' → t.SameWord t') (hctx : ctx.Agrees R ctx') :
    ∀ {ss ss' : List Stmt}, Stmt.AllAlike T R ss ss' →
    Twin T R before (execTopLevel ctx ss) (execTopLevel ctx' ss') Eq
  | [], [], .nil => .pure rfl
  | _ :: _, _ :: _, .cons h hs => by
      have hrun : Runner.Twins T R before (runBody ctx ctx.host.maxCalls)
          (runBody ctx' ctx'.host.maxCalls) := by
        rw [hctx.host]
        exact runBody_twins hT hctx ctx.host.maxCalls
      refine (twin_exec hT hctx hrun Machine.globals h).bind ?_
      rintro _ _ -
      exact twin_topLevel hT hctx hs

/-- Two runs that end for the same reason. -/
inductive Ending.Alike (T : Token → Token → Prop) : Ending → Ending → Prop where
  | completed : Ending.Alike T .completed .completed
  | halted {reason reason' : Halt} :
      reason.Alike T reason' → Ending.Alike T (.halted reason) (.halted reason')

/-- Programs that are alike end alike, and leave machines behind that are alike. -/
theorem Machine.execute_alike (hT : ∀ t t', T t t' → t.SameWord t') (hctx : ctx.Agrees R ctx')
    {m m' : Machine} (h : m.Alike T R before m') {ss ss' : List Stmt}
    (hss : Stmt.AllAlike T R ss ss') :
    Ending.Alike T (m.execute ctx ss).1 (m'.execute ctx' ss').1 ∧
      (m.execute ctx ss).2.Alike T R before (m'.execute ctx' ss').2 := by
  have hend := twin_topLevel hT hctx hss m m' h
  unfold Machine.execute
  generalize execTopLevel ctx ss m = result at hend
  generalize execTopLevel ctx' ss' m' = result' at hend
  cases hend with
  | ok hm _ => exact ⟨.completed, hm⟩
  | error hm hreason => exact ⟨.halted hreason, hm⟩

end Trees

/-- One program behind another is run behind it. -/
theorem execTopLevel_append (ctx : Context) (ss ss' : List Stmt) :
    execTopLevel ctx (ss ++ ss') = execTopLevel ctx ss >>= fun _ => execTopLevel ctx ss' := by
  induction ss with
  | nil => rfl
  | cons s ss ih =>
      rw [List.cons_append, execTopLevel, execTopLevel, ih, bind_assoc]

/-- Where the first part of a program completes, the second one goes on. -/
theorem Machine.execute_append {ctx : Context} {m : Machine} {ss : List Stmt}
    (h : (m.execute ctx ss).1 = .completed) (ss' : List Stmt) :
    m.execute ctx (ss ++ ss') = (m.execute ctx ss).2.execute ctx ss' := by
  unfold Machine.execute at h ⊢
  rw [execTopLevel_append]
  cases hrun : execTopLevel ctx ss m with
  | ok _ m' => rw [Halt.bind_ok hrun]
  | error reason m' =>
      rw [hrun] at h
      cases h

end LoxLang
