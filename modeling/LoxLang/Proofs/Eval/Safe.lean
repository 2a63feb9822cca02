import LoxLang.Proofs.Eval.Behaves

/-!
# Linked programs do not fail

A linked program that runs on a sound machine halts with an error of the language, or not at all.

* `Runner.Safe` is what is assumed of calls while an expression or a statement is run.
* By induction on the number of nested calls it holds of every runner, see `runBody_safe`.
-/

namespace LoxLang

open Exec Layer

/-- Functions that can be called behave when they are, with the right number of arguments. -/
def Runner.Safe (A : Addresses) (G : String → Prop) (run : Runner) : Prop :=
  ∀ (m : Machine) (paren : Token) (f : Closure) (arguments : List Value), m.Sound A G →
    ClosureOk A m.store f → arguments.length = f.arity →
    Behaves A G m (run paren f arguments) fun _ _ => True

variable {A : Addresses} {G : String → Prop} {ctx : Context} {run : Runner} {env : Env}

/-! ## Calls -/

/-- Checking the number of arguments changes nothing, and what follows may rely on it. -/
theorem behaves_checkArity {m : Machine} (hm : m.Sound A G) (paren : Token) (expected got : Nat) :
    Behaves A G m (checkArity paren expected got) fun _ m' => got = expected ∧ m' = m := by
  unfold checkArity
  split
  · rename_i heq
    exact .pure hm ⟨heq, rfl⟩
  · exact .raise hm (by trivial) paren

/-- Making an object behaves, whether or not its class has an initializer. -/
theorem behaves_construct (hrun : Runner.Safe A G run) {m : Machine} (hm : m.Sound A G) (paren : Token)
    (classId : ClassId) {initializer : Option Closure}
    (hinit : ∀ f, initializer = some f → MethodOk A m.store f) {arguments : List Value}
    (hlength : arguments.length = initializer.elim 0 Closure.arity) :
    Behaves A G m (construct run paren classId initializer arguments) fun _ _ => True := by
  refine (behaves_newObject hm classId).bind ?_
  intro object m₁ hm₁ hkeeps₁ _
  cases initializer with
  | none => exact .pure hm₁ trivial
  | some method =>
      have hmethod := (hinit method rfl).mono A.le_refl hkeeps₁
      refine (behaves_bindMethod hm₁ hmethod object).bind ?_
      rintro f m₂ hm₂ - ⟨hf, hdecl⟩
      have harity : arguments.length = f.arity := by
        unfold Closure.arity
        rw [hdecl]
        exact hlength
      refine (hrun m₂ paren f arguments hm₂ hf harity).bind ?_
      intro _ m₃ hm₃ _ _
      exact .pure hm₃ trivial

/-- Whatever is called, what can go wrong is an error of the language. -/
theorem behaves_call (hrun : Runner.Safe A G run) {m : Machine} (hm : m.Sound A G) (paren : Token)
    (callee : Value) (arguments : List Value) :
    Behaves A G m (call ctx run paren callee arguments) fun _ _ => True := by
  cases callee with
  | native f =>
      cases f
      refine (behaves_checkArity hm paren 0 _).bind ?_
      intro _ m' hm' _ _
      exact behaves_readClock hm' ctx.host
  | function id =>
      refine (behaves_checkArity hm paren (m.function id).arity _).bind ?_
      rintro _ _ _ _ ⟨hlength, rfl⟩
      exact hrun _ paren _ arguments hm (hm.functions id) hlength
  | classRef id =>
      refine (behaves_checkArity hm paren ((m.initializer? id).elim 0 Closure.arity) _).bind ?_
      rintro _ _ _ _ ⟨hlength, rfl⟩
      exact behaves_construct hrun hm paren id (fun f hf => hm.findMethod? hf) hlength
  | _ => exact .raise hm (by trivial) paren

/-! ## Operators -/

/-- An operand of the wrong kind is an error that a program may run into, never a broken promise. -/
theorem Value.allowed_of_unary {operator : Kind} {v : Value} {fault : RuntimeFault}
    (h : Value.unary operator v = .error fault) : fault.Allowed := by
  unfold Value.unary at h
  split at h
  · split at h <;> cases h
    trivial
  · cases h
  · cases h
    trivial

/-- No operator fails but on operands that it is not made for. -/
theorem Value.allowed_of_binary {operator : Kind} {l r : Value} {fault : RuntimeFault}
    (h : Value.binary operator l r = .error fault) : fault.Allowed := by
  unfold Value.binary at h
  split at h
  · cases h
  · cases h
  · unfold Value.add at h
    split at h <;> cases h
    trivial
  · split at h
    · unfold Value.arithmetic at h
      split at h <;> cases h
      trivial
    · cases h
      trivial

/-! ## Expressions -/

mutual

/-- An expression that is linked behaves in an environment that matches its layers. -/
theorem behaves_eval (hrun : Runner.Safe A G run) (hlinks : ∀ id, A.find id = ctx.links[id]?)
    {Γ : List Layer} {self : Option String} (hself : self ≠ none → Γ ≠ []) :
    ∀ (e : Expr) {m : Machine}, m.Sound A G →
    Matches m.store env.chain Γ → e.Linked A Γ self →
    Behaves A G m (eval ctx run env e) fun _ _ => True
  -- Frames lose nothing along the way (`Store.Keeps`), so the environment goes on matching its
  -- layers.
  | .assign id name value, m, hm, henv, ⟨hvalue, hname, hid⟩ => by
      refine (behaves_eval hrun hlinks hself value hm henv hvalue).bind ?_
      intro v m₁ hm₁ hkeeps₁ _
      have hlink := (hlinks id).symm.trans hid.find_eq
      refine (behaves_assign hm₁ (henv.mono hkeeps₁) hname hself hlink v).bind ?_
      intro _ m₂ hm₂ _ _
      exact .pure hm₂ trivial
  | .binary _ left operator right, m, hm, henv, ⟨hleft, hright⟩ => by
      refine (behaves_eval hrun hlinks hself left hm henv hleft).bind ?_
      intro l m₁ hm₁ hkeeps₁ _
      refine (behaves_eval hrun hlinks hself right hm₁ (henv.mono hkeeps₁) hright).bind ?_
      intro r m₂ hm₂ _ _
      have hfault := fun fault => @Value.allowed_of_binary operator.kind l r fault
      exact (Behaves.orRaise hm₂ hfault operator).mono fun _ _ _ _ => trivial
  | .call _ callee paren arguments, m, hm, henv, ⟨hcallee, harguments⟩ => by
      refine (behaves_eval hrun hlinks hself callee hm henv hcallee).bind ?_
      intro f m₁ hm₁ hkeeps₁ _
      refine (behaves_evalAll hrun hlinks hself arguments hm₁ (henv.mono hkeeps₁) harguments).bind ?_
      intro vs m₂ hm₂ _ _
      exact behaves_call hrun hm₂ paren f vs
  | .get _ object name, m, hm, henv, h => by
      refine (behaves_eval hrun hlinks hself object hm henv h).bind ?_
      intro v m₁ hm₁ _ _
      exact behaves_getProperty hm₁ v name
  | .grouping _ inner, m, hm, henv, h => behaves_eval hrun hlinks hself inner hm henv h
  | .literal _ value, m, hm, henv, _ => .pure hm trivial
  | .logical _ left operator right, m, hm, henv, ⟨hleft, hright⟩ => by
      refine (behaves_eval hrun hlinks hself left hm henv hleft).bind ?_
      intro l m₁ hm₁ hkeeps₁ _
      split
      · exact .pure hm₁ trivial
      · exact behaves_eval hrun hlinks hself right hm₁ (henv.mono hkeeps₁) hright
  | .set _ object name value, m, hm, henv, ⟨hobject, hvalue⟩ => by
      refine (behaves_eval hrun hlinks hself object hm henv hobject).bind ?_
      intro o m₁ hm₁ hkeeps₁ _
      refine (behaves_asObject hm₁ o name).bind ?_
      intro id m₂ hm₂ hkeeps₂ _
      have henv₂ := henv.mono (hkeeps₁.trans hkeeps₂)
      refine (behaves_eval hrun hlinks hself value hm₂ henv₂ hvalue).bind ?_
      intro v m₃ hm₃ _ _
      refine (behaves_setField hm₃ id name.lexeme v).bind ?_
      intro _ m₄ hm₄ _ _
      exact .pure hm₄ trivial
  | .super id _ method, m, hm, henv, ⟨d, hid, hthis, hsuper⟩ =>
      behaves_superMethod hm henv ((hlinks id).symm.trans hid.find_eq) hthis hsuper method
  | .this id keyword, m, hm, henv, ⟨hkeyword, d, hid, hthis⟩ => by
      refine behaves_lookUp hm henv ?_
      rw [hkeyword, hthis.1]
      exact (hlinks id).symm.trans hid.find_eq
  | .unary _ operator right, m, hm, henv, h => by
      refine (behaves_eval hrun hlinks hself right hm henv h).bind ?_
      intro v m₁ hm₁ _ _
      have hfault := fun fault => @Value.allowed_of_unary operator.kind v fault
      exact (Behaves.orRaise hm₁ hfault operator).mono fun _ _ _ _ => trivial
  | .variable ref, m, hm, henv, h =>
      behaves_lookUp hm henv ((hlinks ref.id).symm.trans h.find_eq)

/-- By induction on the arguments: each of them is evaluated in a machine that is still sound. -/
theorem behaves_evalAll (hrun : Runner.Safe A G run) (hlinks : ∀ id, A.find id = ctx.links[id]?)
    {Γ : List Layer} {self : Option String} (hself : self ≠ none → Γ ≠ []) :
    ∀ (es : List Expr) {m : Machine}, m.Sound A G →
    Matches m.store env.chain Γ → Expr.AllLinked A Γ self es →
    Behaves A G m (evalAll ctx run env es) fun _ _ => True
  | [], m, hm, henv, _ => .pure hm trivial
  | e :: es, m, hm, henv, ⟨he, hes⟩ => by
      refine (behaves_eval hrun hlinks hself e hm henv he).bind ?_
      intro v m₁ hm₁ hkeeps₁ _
      refine (behaves_evalAll hrun hlinks hself es hm₁ (henv.mono hkeeps₁) hes).bind ?_
      intro vs m₂ hm₂ _ _
      exact .pure hm₂ trivial

end

theorem behaves_evalCondition (hrun : Runner.Safe A G run)
    (hlinks : ∀ id, A.find id = ctx.links[id]?) {Γ : List Layer} {e : Expr} {m : Machine}
    (hm : m.Sound A G) (henv : Matches m.store env.chain Γ) (h : e.Linked A Γ none) :
    Behaves A G m (evalCondition ctx run env e) fun _ _ => True := by
  refine (behaves_eval hrun hlinks (absurd rfl) e hm henv h).bind ?_
  intro v m₁ hm₁ _ _
  exact .pure hm₁ trivial

/-! ## Statements -/

/-- The layers behind a statement match the environment that it has run in, if it has not
returned, and the name that it declares is bound. -/
structure Follows (env : Env) (Γ : List Layer) (declared : Option String) (flow : Flow)
    (m : Machine) : Prop where
  layers : flow = .next → Matches m.store env.chain Γ
  bound : ∀ x, declared = some x → FrameOk m.store env.frame (.names [x])

/-- After a declaration, what follows is either resolved with the name declared or at the top
level. -/
theorem Follows.declares {Γ : List Layer} {x : String} {m : Machine}
    (henv : Matches m.store env.chain Γ) (hbound : FrameOk m.store env.frame (.names [x]))
    (flow : Flow) : Follows env Γ (some x) flow m := by
  refine ⟨fun _ => henv, ?_⟩
  rintro _ ⟨⟩
  exact hbound

/-- A statement that declares nothing leaves the layers as they are. -/
theorem Behaves.follows {m : Machine} {x : Exec Flow} {Γ : List Layer} {s : Stmt}
    (henv : Matches m.store env.chain Γ) (hdeclared : s.declared? = none)
    {Q : Flow → Machine → Prop} (hx : Behaves A G m x Q) :
    Behaves A G m x (Follows env (s.after Γ) s.declared?) := by
  rw [Stmt.after_eq hdeclared, hdeclared]
  exact hx.mono fun _ _ hkeeps _ => ⟨fun _ => henv.mono hkeeps, fun _ h => by cases h⟩

/-- Only a local variable is awaited. -/
theorem self_ne_nil (Γ : List Layer) (x : String) : Layer.self Γ x ≠ none → Γ ≠ [] := by
  rintro h rfl
  exact h rfl

/-- Whatever a statement declares at the top level may be global. -/
def Stmt.MayDeclare (G : String → Prop) (Γ : List Layer) (s : Stmt) : Prop :=
  Γ = [] → ∀ x, s.declared? = some x → G x

theorem Stmt.mayDeclare_of_ne_nil {Γ : List Layer} (hΓ : Γ ≠ []) (s : Stmt) : s.MayDeclare G Γ :=
  fun h => absurd h hΓ

/-- A statement that declares nothing may stand anywhere. -/
theorem Stmt.mayDeclare_of_declared? {s : Stmt} (h : s.declared? = none) (Γ : List Layer) :
    s.MayDeclare G Γ := by
  intro _ x hx
  rw [h] at hx
  cases hx

/-- A function declaration. When the function is made its name is not bound yet, so its body is not
linked to the frames around it before both steps are done. -/
theorem behaves_function {m : Machine} (hm : m.Sound A G) {Γ : List Layer}
    (henv : Matches m.store env.chain Γ) {decl : FunctionDecl} (hname : IsName decl.name.lexeme)
    (hG : Γ = [] → G decl.name.lexeme) (hdecl : decl.Linked A (add decl.name.lexeme Γ)) :
    Behaves A G m (exec ctx run env (.function decl))
      (Follows env (add decl.name.lexeme Γ) (some decl.name.lexeme)) := by
  have hdefine := behaves_define hm henv hname hG (.function m.functions.size)
  rcases hdefine with ⟨hsound, hkeeps, henv', hbound⟩
  have hclosure : ClosureOk A _ ⟨decl, env, false⟩ := ⟨_, henv', hdecl, fun h => by cases h⟩
  exact ⟨(behaves_newFunction hsound hclosure).1, hkeeps, fun _ => henv',
    (Follows.declares henv' hbound .next).bound⟩

/-- A variable declaration, whatever its first value is. -/
theorem behaves_variable {m : Machine} {Γ : List Layer} (henv : Matches m.store env.chain Γ)
    {name : Token} {value : Option Expr} (hname : IsName name.lexeme) (hG : Γ = [] → G name.lexeme)
    (hvalue : Behaves A G m (evalOptional ctx run env value) fun _ _ => True) :
    Behaves A G m (exec ctx run env (.varDecl name value))
      (Follows env (add name.lexeme Γ) (some name.lexeme)) := by
  refine hvalue.bind ?_
  intro v m₁ hm₁ hkeeps₁ _
  refine (behaves_define hm₁ (henv.mono hkeeps₁) hname hG v).bind ?_
  rintro _ m₂ hm₂ - ⟨henv₂, hbound⟩
  exact .pure hm₂ (.declares henv₂ hbound .next)

/-- The turns of a loop, none of which changes the layers. -/
theorem behaves_loop {Γ : List Layer} {condition : Exec Bool} {body : Exec Flow}
    (hcondition : ∀ m : Machine, m.Sound A G → Matches m.store env.chain Γ →
      Behaves A G m condition fun _ _ => True)
    (hbody : ∀ m : Machine, m.Sound A G → Matches m.store env.chain Γ →
      Behaves A G m body (Follows env Γ none)) (turns : Nat) {m : Machine} (hm : m.Sound A G)
    (henv : Matches m.store env.chain Γ) :
    Behaves A G m (loop condition body turns) fun _ _ => True := by
  induction turns generalizing m with
  | zero => exact ⟨hm, trivial⟩
  | succ turns ih =>
      refine (hcondition m hm henv).bind ?_
      intro holds m₁ hm₁ hkeeps₁ _
      cases holds with
      | false => exact .pure hm₁ trivial
      | true =>
          refine (hbody m₁ hm₁ (henv.mono hkeeps₁)).bind ?_
          intro flow m₂ hm₂ _ hflow
          cases flow with
          | next => exact ih hm₂ (hflow.layers rfl)
          | returned v => exact .pure hm₂ trivial

mutual

/-- The same of statements, which leave an environment that matches the layers behind them. -/
theorem behaves_exec (hrun : Runner.Safe A G run) (hlinks : ∀ id, A.find id = ctx.links[id]?) :
    ∀ (s : Stmt) {env : Env} {Γ : List Layer} {m : Machine}, m.Sound A G →
    Matches m.store env.chain Γ → s.Linked A Γ → s.MayDeclare G Γ →
    Behaves A G m (exec ctx run env s) (Follows env (s.after Γ) s.declared?)
  | .block body, env, Γ, m, hm, henv, h, _ => by
      have hblock : Behaves A G m (exec ctx run env (.block body)) fun _ _ => True := by
        refine (behaves_enter hm henv frameBinds_empty (frameApart_empty _)).bind ?_
        intro inner m₁ hm₁ _ hinner
        exact behaves_execAll hrun hlinks body hm₁ hinner (List.cons_ne_nil _ _) h
      exact hblock.follows henv rfl
  | .classDecl name superclass methods, env, Γ, m, hm, henv, h, hmay => by
      rcases Stmt.linked_classDecl h with ⟨hname, -, hsuperclass, hmethods⟩
      have hlink : ∀ ref, superclass = some ref → ctx.links[ref.id]? = depth? ref.name.lexeme Γ :=
        fun ref href => (hlinks ref.id).symm.trans (hsuperclass ref href).find_eq
      have hG : Γ = [] → G name.lexeme := fun hΓ => hmay hΓ _ rfl
      refine (behaves_declareClass hm henv hname hG hlink hmethods).bind ?_
      rintro _ m₁ hm₁ - ⟨henv₁, hbound⟩
      exact .pure hm₁ (.declares henv₁ hbound .next)
  | .expression e, env, Γ, m, hm, henv, h, _ => by
      have hrest : Behaves A G m (exec ctx run env (.expression e)) fun _ _ => True := by
        refine (behaves_eval hrun hlinks (absurd rfl) e hm henv h).bind ?_
        intro _ m₁ hm₁ _ _
        exact .pure hm₁ trivial
      exact hrest.follows henv rfl
  | .function decl, env, Γ, m, hm, henv, ⟨hname, _, hdecl⟩, hmay =>
      behaves_function hm henv hname (fun hΓ => hmay hΓ _ rfl) hdecl
  | .ifElse condition thenBranch none, env, Γ, m, hm, henv, ⟨hcondition, hthen, hdeclared⟩, _ => by
      have hrest : Behaves A G m (exec ctx run env (.ifElse condition thenBranch none))
          fun _ _ => True := by
        refine (behaves_evalCondition hrun hlinks hm henv hcondition).bind ?_
        intro holds m₁ hm₁ hkeeps₁ _
        cases holds with
        | false => exact .pure hm₁ trivial
        | true =>
            have hbranch := behaves_exec hrun hlinks thenBranch hm₁ (henv.mono hkeeps₁) hthen
              (Stmt.mayDeclare_of_declared? hdeclared Γ)
            exact hbranch.mono fun _ _ _ _ => trivial
      exact hrest.follows henv rfl
  | .ifElse condition thenBranch (some elseBranch), env, Γ, m, hm, henv,
      ⟨hcondition, ⟨hthen, hnone⟩, helse, hnone'⟩, _ => by
      have hrest : Behaves A G m (exec ctx run env (.ifElse condition thenBranch (some elseBranch)))
          fun _ _ => True := by
        refine (behaves_evalCondition hrun hlinks hm henv hcondition).bind ?_
        intro holds m₁ hm₁ hkeeps₁ _
        cases holds with
        | false =>
            have hbranch := behaves_exec hrun hlinks elseBranch hm₁ (henv.mono hkeeps₁) helse
              (Stmt.mayDeclare_of_declared? hnone' Γ)
            exact hbranch.mono fun _ _ _ _ => trivial
        | true =>
            have hbranch := behaves_exec hrun hlinks thenBranch hm₁ (henv.mono hkeeps₁) hthen
              (Stmt.mayDeclare_of_declared? hnone Γ)
            exact hbranch.mono fun _ _ _ _ => trivial
      exact hrest.follows henv rfl
  | .print e, env, Γ, m, hm, henv, h, _ => by
      have hrest : Behaves A G m (exec ctx run env (.print e)) fun _ _ => True := by
        refine (behaves_eval hrun hlinks (absurd rfl) e hm henv h).bind ?_
        intro v m₁ hm₁ _ _
        refine (behaves_print hm₁ v).bind ?_
        intro _ m₂ hm₂ _ _
        exact .pure hm₂ trivial
      exact hrest.follows henv rfl
  | .returnValue _ none, env, Γ, m, hm, henv, _, _ =>
      .pure hm ⟨fun h => (by cases h), fun _ h => (by cases h)⟩
  | .returnValue _ (some e), env, Γ, m, hm, henv, h, _ => by
      refine (behaves_eval hrun hlinks (absurd rfl) e hm henv h).bind ?_
      intro v m₁ hm₁ _ _
      exact .pure hm₁ ⟨fun h => (by cases h), fun _ h => (by cases h)⟩
  | .varDecl name none, env, Γ, m, hm, henv, ⟨hname, _⟩, hmay =>
      behaves_variable henv hname (fun hΓ => hmay hΓ _ rfl) (.pure hm trivial)
  | .varDecl name (some e), env, Γ, m, hm, henv, ⟨hname, _, he⟩, hmay => by
      -- In a local scope the initializer may assign to the variable that it is for.
      have hself := self_ne_nil Γ name.lexeme
      exact behaves_variable henv hname (fun hΓ => hmay hΓ _ rfl)
        (behaves_eval hrun hlinks hself e hm henv he)
  | .whileLoop condition body, env, Γ, m, hm, henv, ⟨hcondition, hbody, hdeclared⟩, _ => by
      have hturn : ∀ m : Machine, m.Sound A G → Matches m.store env.chain Γ →
          Behaves A G m (exec ctx run env body) (Follows env Γ none) := by
        intro m hm henv
        have hexec := behaves_exec hrun hlinks body hm henv hbody
          (Stmt.mayDeclare_of_declared? hdeclared Γ)
        rwa [Stmt.after_eq hdeclared, hdeclared] at hexec
      have hcheck : ∀ m : Machine, m.Sound A G → Matches m.store env.chain Γ →
          Behaves A G m (evalCondition ctx run env condition) fun _ _ => True :=
        fun m hm henv => behaves_evalCondition hrun hlinks hm henv hcondition
      exact (behaves_loop hcheck hturn ctx.host.maxTurns hm henv).follows henv rfl

/-- By induction on the statements: the declarations of those before are known to those behind. -/
theorem behaves_execAll (hrun : Runner.Safe A G run) (hlinks : ∀ id, A.find id = ctx.links[id]?) :
    ∀ (ss : List Stmt) {env : Env} {Γ : List Layer} {m : Machine}, m.Sound A G →
    Matches m.store env.chain Γ → Γ ≠ [] → Stmt.AllLinked A Γ ss →
    Behaves A G m (execAll ctx run env ss) fun _ _ => True
  | [], env, Γ, m, hm, henv, _, _ => .pure hm trivial
  | s :: ss, env, Γ, m, hm, henv, hΓ, ⟨hs, hss⟩ => by
      refine (behaves_exec hrun hlinks s hm henv hs (Stmt.mayDeclare_of_ne_nil hΓ s)).bind ?_
      intro flow m₁ hm₁ _ hflow
      cases flow with
      | next =>
          have hrest := hflow.layers rfl
          exact behaves_execAll hrun hlinks ss hm₁ hrest (s.after_ne_nil hΓ) hss
      | returned v => exact .pure hm₁ trivial

end

/-! ## Programs -/

/-- An initializer gives back the `this` that its frame is known to hold. -/
theorem behaves_callResult {m : Machine} (hm : m.Sound A G) {f : Closure} (hf : ClosureOk A m.store f)
    (flow : Flow) : Behaves A G m (callResult f flow) fun _ _ => True := by
  unfold callResult
  split
  · rename_i hinit
    rcases hf with ⟨_, henv, _, hthis⟩
    rcases hthis hinit with ⟨Γ, rfl⟩
    have hfirst : (Layer.this :: Γ)[0]? = some .this := rfl
    rcases henv.getAt_this hfirst with ⟨object, hobject⟩
    exact (behaves_getAt hm hobject).mono fun _ _ _ _ => trivial
  · exact .pure hm trivial

/-- Calls are safe, however many of them may be nested. -/
theorem runBody_safe (hlinks : ∀ id, A.find id = ctx.links[id]?) (calls : Nat) :
    Runner.Safe A G (runBody ctx calls) := by
  induction calls with
  | zero =>
      intro m paren f arguments hm _ _
      exact .raise hm (by trivial) paren
  | succ calls ih =>
      -- The calls in the body are one level further in, where `ih` says that they are safe.
      intro m paren f arguments hm hf hlength
      rcases bindParameters_ok f.decl.params arguments .empty [] frameBinds_empty hlength with
        ⟨frame, hbind, hframe⟩
      refine (Behaves.orDefect hm hbind).bind ?_
      rintro _ _ _ _ ⟨rfl, rfl⟩
      -- What the closure is linked in is needed twice: for its body, and for `this` at its end.
      have hclosure := hf
      rcases hf with ⟨Γ, henv, hlinked, -⟩
      rcases FunctionDecl.linked_iff.1 hlinked with ⟨hparams, -, hbody, -⟩
      refine (behaves_enter hm henv hframe
        (bindParameters_apart hparams (frameApart_empty _) hbind)).bind ?_
      intro inner m₁ hm₁ hkeeps₁ hinner
      refine (behaves_execAll ih hlinks f.decl.body hm₁ hinner (List.cons_ne_nil _ _) hbody).bind ?_
      intro flow m₂ hm₂ hkeeps₂ _
      exact behaves_callResult hm₂ (hclosure.mono A.le_refl (hkeeps₁.trans hkeeps₂)) flow

/-- A program whose statements are linked at the top level behaves, and leaves its globals bound. -/
theorem behaves_topLevel (hlinks : ∀ id, A.find id = ctx.links[id]?) : ∀ (ss : List Stmt)
    {m : Machine}, m.Sound A G → Stmt.AllLinked A [] ss →
    (∀ x ∈ ss.filterMap Stmt.declared?, G x) →
    Behaves A G m (execTopLevel ctx ss) fun _ m' =>
      ∀ x ∈ ss.filterMap Stmt.declared?, FrameOk m'.store 0 (.names [x])
  | [], m, hm, _, _ => .pure hm fun _ hx => by cases hx
  | s :: ss, m, hm, ⟨hs, hss⟩, hG => by
      have henv : Matches m.store Machine.globals.chain [] := .top hm.globals
      have hmay : s.MayDeclare G [] :=
        fun _ x hx => hG x (List.mem_filterMap.2 ⟨s, List.mem_cons_self, hx⟩)
      have hmore : ∀ x ∈ ss.filterMap Stmt.declared?, G x := by
        intro x hx
        rcases List.mem_filterMap.1 hx with ⟨s', hs', hx'⟩
        exact hG x (List.mem_filterMap.2 ⟨s', List.mem_cons_of_mem _ hs', hx'⟩)
      refine (behaves_exec (runBody_safe hlinks _) hlinks s hm henv hs hmay).bind ?_
      intro _ m₁ hm₁ _ hfollows
      rw [Stmt.after_nil] at hss
      refine (behaves_topLevel hlinks ss hm₁ hss hmore).mono ?_
      intro _ m₂ hkeeps₂ hrest x hx
      -- a name is declared by the first statement, and then stays bound, or by one of the others
      rcases List.mem_filterMap.1 hx with ⟨s', hs', hx'⟩
      rcases List.mem_cons.1 hs' with rfl | hs'
      · exact hkeeps₂.frames _ _ (hfollows.bound x hx')
      · exact hrest x (List.mem_filterMap.2 ⟨s', hs', hx'⟩)

/-- A linked program leaves a sound machine behind, and halts for a good reason if it does. If it
does not, then every name that it declares is bound. -/
theorem Machine.execute_safe (hlinks : ∀ id, A.find id = ctx.links[id]?) {m : Machine}
    (hm : m.Sound A G) {ss : List Stmt} (hss : Stmt.AllLinked A [] ss)
    (hG : ∀ x ∈ ss.filterMap Stmt.declared?, G x) :
    (m.execute ctx ss).2.Sound A G ∧
      (∀ reason, (m.execute ctx ss).1 = .halted reason → reason.Allowed) ∧
      ((m.execute ctx ss).1 = .completed → m.store.Keeps (m.execute ctx ss).2.store ∧
        ∀ x ∈ ss.filterMap Stmt.declared?,
          FrameOk (m.execute ctx ss).2.store 0 (.names [x])) := by
  have hrun := behaves_topLevel hlinks ss hm hss hG
  unfold Behaves at hrun
  unfold Machine.execute
  cases hend : execTopLevel ctx ss m with
  | ok _ m' =>
      rw [hend] at hrun
      exact ⟨hrun.1, fun _ hhalted => (by cases hhalted), fun _ => hrun.2⟩
  | error reason m' =>
      rw [hend] at hrun
      refine ⟨hrun.1, ?_, fun hcompleted => (by cases hcompleted)⟩
      rintro _ ⟨⟩
      exact hrun.2

end LoxLang
