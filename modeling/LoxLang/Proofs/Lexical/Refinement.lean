import LoxLang.Proofs.Lexical.Declare
import LoxLang.Proofs.Session.Basic

/-!
# Programs run as they are written

A program that passes all checks prints the same, and ends alike, whether its names are resolved to
frames or are looked up in the scopes that they are written in.

The two interpreters are run side by side on machines that stay related. What is assumed of calls is
`Runner.Agrees`, and `runBody_agrees` discharges it by induction on the number of nested calls.
-/

namespace LoxLang

open Exec Layer

/-- Calls of the same function with the same arguments agree. -/
def Runner.Agrees (A : Addresses) (run : Runner) (run' : Lexical.Runner) : Prop :=
  ∀ (β : Book) (m : Machine) (r : Lexical.Machine) (paren : Token) (f : Closure)
    (g : Lexical.Closure) (arguments : List Value), Related A β m r →
    FunctionRelated A β m.store f g → arguments.length = f.arity →
    Agree A none β m r (run paren f arguments) (run' paren g arguments) Same

variable {A : Addresses} {ctx : Context} {run : Runner} {run' : Lexical.Runner} {env : Env}
  {scope : Lexical.Scope}

/-! ## Calls -/

theorem agree_checkArity {own : Option FrameId} {β : Book} {m : Machine} {r : Lexical.Machine}
    (hrel : Related A β m r) (paren : Token) (expected got : Nat) :
    Agree A own β m r (checkArity paren expected got) (Lexical.Act.checkArity paren expected got)
      fun _ _ _ _ => got = expected := by
  unfold checkArity Lexical.Act.checkArity
  split
  · exact .pure hrel (by assumption)
  · exact .raise hrel _ paren

/-- An object is made, and the initializer is run on it if there is one. -/
theorem agree_construct (hrun : Runner.Agrees A run run') {β : Book} {m : Machine}
    {r : Lexical.Machine} (hrel : Related A β m r) (paren : Token) (classId : ClassId)
    {f : Option Closure} {g : Option Lexical.Closure}
    (hfg : Option.Rel (MethodRelated A β m.store) f g) {arguments : List Value}
    (hlength : arguments.length = f.elim 0 Closure.arity) :
    Agree A none β m r (construct run paren classId f arguments)
      (Lexical.construct run' paren classId g arguments) Same := by
  refine (agree_newObject hrel classId).bind ?_
  rintro β₁ m₁ r₁ object _ hrel₁ hlater₁ rfl
  cases hfg with
  | none => exact .pure hrel₁ rfl
  | @some method method' hmethod =>
      rcases bindMethod_run hrel₁ (hmethod.mono hlater₁) object with
        ⟨f', store, hbind, hrel₂, hlater₂, hf'⟩
      -- the method that is bound to the object is the same declaration, with as many parameters
      have hdecl : f'.decl = method.decl := hf'.decl_eq.symm.trans hmethod.decl_eq
      have harity : arguments.length = f'.arity := by
        unfold Closure.arity
        rw [hdecl]
        exact hlength
      refine Agree.left hbind hlater₂ ?_
      refine (hrun β₁ _ r₁ paren f' _ arguments hrel₂ hf' harity).bind ?_
      intro β₃ m₃ r₃ _ _ hrel₃ _ _
      exact .pure hrel₃ rfl

/-- A callee means the same call in both machines. -/
theorem agree_call (hrun : Runner.Agrees A run run') {β : Book} {m : Machine} {r : Lexical.Machine}
    (hrel : Related A β m r) (paren : Token) (callee : Value) (arguments : List Value) :
    Agree A none β m r (call ctx run paren callee arguments)
      (Lexical.call ctx.host run' paren callee arguments) Same := by
  cases callee with
  | native f =>
      cases f
      refine (agree_checkArity hrel paren 0 _).bind ?_
      intro β₁ m₁ r₁ _ _ hrel₁ _ _
      exact agree_readClock hrel₁ ctx.host
  | function id =>
      -- Both functions have the same declaration, so they ask for as many arguments.
      have hf := hrel.functions id
      have harity : (r.function id).arity = (m.function id).arity :=
        congrArg (fun decl => decl.params.length) hf.decl_eq
      change Agree A none β m r
        (checkArity paren (m.function id).arity _ >>= fun _ => run paren (m.function id) arguments)
        (Lexical.Act.checkArity paren (r.function id).arity _ >>= fun _ =>
          run' paren (r.function id) arguments) Same
      rw [harity]
      refine (agree_checkArity hrel paren _ _).bind ?_
      intro β₁ m₁ r₁ _ _ hrel₁ hlater₁ hlength
      exact hrun β₁ m₁ r₁ paren _ _ arguments hrel₁ (hf.mono hlater₁) hlength
  | classRef id =>
      -- Both classes have an initializer, or neither has.
      have hinit := hrel.findMethod? id "init"
      change Agree A none β m r
        (checkArity paren ((m.initializer? id).elim 0 Closure.arity) _ >>= fun _ =>
          construct run paren id (m.initializer? id) arguments)
        (Lexical.Act.checkArity paren ((r.initializer? id).elim 0 Lexical.Closure.arity) _ >>=
          fun _ => Lexical.construct run' paren id (r.initializer? id) arguments) Same
      have harity : (r.initializer? id).elim 0 Lexical.Closure.arity = _ :=
        arity_eq_of_rel (fun _ _ hf => congrArg (fun decl => decl.params.length) hf.decl_eq) hinit
      rw [harity]
      refine (agree_checkArity hrel paren _ _).bind ?_
      intro β₁ m₁ r₁ _ _ hrel₁ hlater₁ hlength
      exact agree_construct hrun hrel₁ paren id (rel_mono (fun _ _ hf => hf.mono hlater₁) hinit)
        hlength
  | _ => exact .raise hrel _ paren

/-! ## Expressions -/

mutual

/-- By induction on the expression: the tables of the first interpreter lead where the scope of the
second one does. -/
theorem agree_eval (hrun : Runner.Agrees A run run') (hlinks : ∀ id, A.find id = ctx.links[id]?)
    {Γ : List Layer} : ∀ (e : Expr) {β : Book} {m : Machine} {r : Lexical.Machine},
    Related A β m r → Sees β scope env.chain Γ → e.Linked A Γ none →
    Agree A none β m r (eval ctx run env e) (Lexical.eval ctx.host run' scope e) Same
  | .assign id name value, β, m, r, hrel, hsees, ⟨hvalue, hname, hid⟩ => by
      -- The book only grows, so what was seen before the value was found is seen after it.
      refine (agree_eval hrun hlinks value hrel hsees hvalue).bind ?_
      rintro β₁ m₁ r₁ v _ hrel₁ hlater₁ rfl
      have hlink := (hlinks id).symm.trans hid.find_eq
      refine (agree_assign hrel₁ (hsees.mono hlater₁) hname (by simpa using hlink) v).bind ?_
      intro β₂ m₂ r₂ _ _ hrel₂ _ _
      exact .pure hrel₂ rfl
  | .binary _ left operator right, β, m, r, hrel, hsees, ⟨hleft, hright⟩ => by
      refine (agree_eval hrun hlinks left hrel hsees hleft).bind ?_
      rintro β₁ m₁ r₁ l _ hrel₁ hlater₁ rfl
      refine (agree_eval hrun hlinks right hrel₁ (hsees.mono hlater₁) hright).bind ?_
      rintro β₂ m₂ r₂ v _ hrel₂ _ rfl
      exact .orRaise hrel₂ operator _
  | .call _ callee paren arguments, β, m, r, hrel, hsees, ⟨hcallee, harguments⟩ => by
      refine (agree_eval hrun hlinks callee hrel hsees hcallee).bind ?_
      rintro β₁ m₁ r₁ f _ hrel₁ hlater₁ rfl
      refine (agree_evalAll hrun hlinks arguments hrel₁ (hsees.mono hlater₁) harguments).bind ?_
      rintro β₂ m₂ r₂ vs _ hrel₂ _ rfl
      exact agree_call hrun hrel₂ paren f vs
  | .get _ object name, β, m, r, hrel, hsees, h => by
      refine (agree_eval hrun hlinks object hrel hsees h).bind ?_
      rintro β₁ m₁ r₁ v _ hrel₁ _ rfl
      exact agree_getProperty hrel₁ v name
  | .grouping _ inner, β, m, r, hrel, hsees, h => agree_eval hrun hlinks inner hrel hsees h
  | .literal _ value, β, m, r, hrel, hsees, _ => .pure hrel rfl
  | .logical _ left operator right, β, m, r, hrel, hsees, ⟨hleft, hright⟩ => by
      refine (agree_eval hrun hlinks left hrel hsees hleft).bind ?_
      rintro β₁ m₁ r₁ l _ hrel₁ hlater₁ rfl
      split
      · exact .pure hrel₁ rfl
      · exact agree_eval hrun hlinks right hrel₁ (hsees.mono hlater₁) hright
  | .set _ object name value, β, m, r, hrel, hsees, ⟨hobject, hvalue⟩ => by
      refine (agree_eval hrun hlinks object hrel hsees hobject).bind ?_
      rintro β₁ m₁ r₁ o _ hrel₁ hlater₁ rfl
      refine (agree_asObject hrel₁ o name).bind ?_
      rintro β₂ m₂ r₂ id _ hrel₂ hlater₂ rfl
      have hsees₂ := hsees.mono (hlater₁.trans hlater₂)
      refine (agree_eval hrun hlinks value hrel₂ hsees₂ hvalue).bind ?_
      rintro β₃ m₃ r₃ v _ hrel₃ _ rfl
      refine (agree_setField hrel₃ id name.lexeme v).bind ?_
      intro β₄ m₄ r₄ _ _ hrel₄ _ _
      exact .pure hrel₄ rfl
  | .super id keyword method, β, m, r, hrel, hsees, ⟨d, hid, hthis, hsuper⟩ =>
      agree_superMethod hrel hsees ((hlinks id).symm.trans hid.find_eq) hthis hsuper keyword method
  | .this id keyword, β, m, r, hrel, hsees, ⟨hkeyword, d, hid, hthis⟩ => by
      refine agree_lookUp hrel hsees ?_
      rw [hkeyword, hthis.1]
      exact (hlinks id).symm.trans hid.find_eq
  | .unary _ operator right, β, m, r, hrel, hsees, h => by
      refine (agree_eval hrun hlinks right hrel hsees h).bind ?_
      rintro β₁ m₁ r₁ v _ hrel₁ _ rfl
      exact .orRaise hrel₁ operator _
  | .variable ref, β, m, r, hrel, hsees, h =>
      agree_lookUp hrel hsees ((hlinks ref.id).symm.trans h.find_eq)

/-- By induction on the arguments: what one of them declares or calls is known to the next. -/
theorem agree_evalAll (hrun : Runner.Agrees A run run') (hlinks : ∀ id, A.find id = ctx.links[id]?)
    {Γ : List Layer} : ∀ (es : List Expr) {β : Book} {m : Machine} {r : Lexical.Machine},
    Related A β m r → Sees β scope env.chain Γ → Expr.AllLinked A Γ none es →
    Agree A none β m r (evalAll ctx run env es) (Lexical.evalAll ctx.host run' scope es) Same
  | [], β, m, r, hrel, hsees, _ => .pure hrel rfl
  | e :: es, β, m, r, hrel, hsees, ⟨he, hes⟩ => by
      refine (agree_eval hrun hlinks e hrel hsees he).bind ?_
      rintro β₁ m₁ r₁ v _ hrel₁ hlater₁ rfl
      refine (agree_evalAll hrun hlinks es hrel₁ (hsees.mono hlater₁) hes).bind ?_
      rintro β₂ m₂ r₂ vs _ hrel₂ _ rfl
      exact .pure hrel₂ rfl

end

theorem agree_evalCondition (hrun : Runner.Agrees A run run')
    (hlinks : ∀ id, A.find id = ctx.links[id]?) {Γ : List Layer} {e : Expr} {β : Book} {m : Machine}
    {r : Lexical.Machine} (hrel : Related A β m r) (hsees : Sees β scope env.chain Γ)
    (h : e.Linked A Γ none) :
    Agree A none β m r (evalCondition ctx run env e) (Lexical.evalCondition ctx.host run' scope e)
      Same := by
  refine (agree_eval hrun hlinks e hrel hsees h).bind ?_
  rintro β₁ m₁ r₁ v _ hrel₁ _ rfl
  exact .pure hrel₁ rfl

/-! ## Statements -/

/-- Both statements end alike, and the next one stands at related places. A statement that declares
nothing is left where it was entered. -/
def Continues (env : Env) (place : Lexical.Place) (Γ : List Layer) (s : Stmt) (β : Book)
    (store : Store) (flow : Flow) (result : Flow × Lexical.Place) : Prop :=
  flow = result.1 ∧ (flow = .next → Stands β store env result.2 (s.after Γ)) ∧
    (s.declared? = none → result.2 = place)

/-- A statement that declares nothing, and whose own steps leave the innermost frame alone. -/
theorem Agree.continues {β : Book} {m : Machine} {r : Lexical.Machine} {x : Exec Flow}
    {y : Lexical.Act (Flow × Lexical.Place)} {place : Lexical.Place} {Γ : List Layer} {s : Stmt}
    (hstands : Stands β m.store env place Γ) (hdeclared : s.declared? = none)
    (h : Agree A none β m r x y fun _ _ flow result => flow = result.1 ∧ result.2 = place) :
    Agree A (some env.frame) β m r x y (Continues env place Γ s) := by
  refine Agree.quiet (h.mono ?_)
  intro β' s' flow result hlater hresult
  refine ⟨hresult.1, fun _ => ?_, fun _ => hresult.2⟩
  rw [hresult.2, Stmt.after_eq hdeclared]
  exact hstands.mono hlater

/-- Where a branch that declares nothing is left, the statement that it belongs to is left too. -/
theorem Continues.branch {place : Lexical.Place} {Γ : List Layer} {branch s : Stmt} {β : Book}
    {store : Store} {flow : Flow} {result : Flow × Lexical.Place} (hbranch : branch.declared? = none)
    (hs : s.declared? = none) (h : Continues env place Γ branch β store flow result) :
    Continues env place Γ s β store flow result := by
  rw [Continues, Stmt.after_eq hbranch] at h
  rw [Continues, Stmt.after_eq hs]
  exact ⟨h.1, h.2.1, fun _ => h.2.2 hbranch⟩

/-- The turns of two loops, which end at the place where they began. -/
theorem agree_loop {place : Lexical.Place} {Γ : List Layer} {condition : Exec Bool}
    {condition' : Lexical.Act Bool} {body : Exec Flow} {body' : Lexical.Act Flow}
    (hcondition : ∀ (β : Book) (m : Machine) (r : Lexical.Machine), Related A β m r →
      Stands β m.store env place Γ → Agree A none β m r condition condition' Same)
    (hbody : ∀ (β : Book) (m : Machine) (r : Lexical.Machine), Related A β m r →
      Stands β m.store env place Γ → Agree A (some env.frame) β m r body body'
        fun β' s' flow flow' => flow = flow' ∧ (flow = .next → Stands β' s' env place Γ))
    (turns : Nat) {β : Book} {m : Machine} {r : Lexical.Machine} (hrel : Related A β m r)
    (hstands : Stands β m.store env place Γ) :
    Agree A (some env.frame) β m r (loop condition body turns)
      (Lexical.Act.loop condition' body' turns)
      fun β' s' flow flow' => flow = flow' ∧ (flow = .next → Stands β' s' env place Γ) := by
  induction turns generalizing β m r with
  | zero => exact .halt hrel _
  | succ turns ih =>
      refine (hcondition β m r hrel hstands).bindQuiet ?_
      rintro β₁ m₁ r₁ holds _ hrel₁ hlater₁ rfl
      have hstands₁ := hstands.mono hlater₁
      cases holds with
      | false => exact .pure hrel₁ ⟨rfl, fun _ => hstands₁⟩
      | true =>
          refine (hbody β₁ m₁ r₁ hrel₁ hstands₁).bind ?_
          rintro β₂ m₂ r₂ flow _ hrel₂ - ⟨rfl, hnext⟩
          cases flow with
          | next => exact ih hrel₂ (hnext rfl)
          | returned v => exact .pure hrel₂ ⟨rfl, fun h => by cases h⟩

/-- Whether declarations are local inside of some layers. -/
def Layer.isLocal (Γ : List Layer) : Bool := !Γ.isEmpty

theorem Layer.isLocal_after (Γ : List Layer) (s : Stmt) : isLocal (s.after Γ) = isLocal Γ := by
  unfold Stmt.after
  split
  · cases Γ with
    | nil => rfl
    | cons l Γ => cases l <;> rfl
  · rfl

/-- An initializer that does not assign to its own variable is linked like any expression. -/
theorem linked_initializer {Γ : List Layer} {x : String} {e : Expr}
    (h : e.Linked A Γ (Layer.self Γ x)) (hself : (!(isLocal Γ && e.assigns x)) = true) :
    e.Linked A Γ none := by
  cases Γ with
  | nil => exact h
  | cons l Γ =>
      refine Expr.linked_none e h ?_
      simpa [isLocal] using hself

/-- A variable is declared once its first value is there, so that value does not see it. -/
theorem agree_variable {place : Lexical.Place} {Γ : List Layer} {β : Book} {m : Machine}
    {r : Lexical.Machine} (hstands : Stands β m.store env place Γ) {name : Token} {value : Option Expr}
    (hname : IsName name.lexeme) (hfresh : Fresh name.lexeme Γ)
    (hvalue : Agree A none β m r (evalOptional ctx run env value)
      (Lexical.evalOptional ctx.host run' place.scope value) Same) :
    Agree A (some env.frame) β m r (exec ctx run env (.varDecl name value))
      (Lexical.exec ctx.host run' place (.varDecl name value))
      (Continues env place Γ (.varDecl name value)) := by
  refine hvalue.bindQuiet ?_
  rintro β₁ m₁ r₁ v _ hrel₁ hlater₁ rfl
  refine (agree_define hrel₁ (hstands.mono hlater₁) hname hfresh v).bind ?_
  rintro β₂ m₂ r₂ _ place₂ hrel₂ - ⟨hstands₂, -⟩
  exact .pure hrel₂ ⟨rfl, fun _ => hstands₂, fun h => by cases h⟩

mutual

/-- By induction on the statement: the book grows with every name that is declared. -/
theorem agree_exec (hrun : Runner.Agrees A run run') (hlinks : ∀ id, A.find id = ctx.links[id]?) :
    ∀ (s : Stmt) {env : Env} {place : Lexical.Place} {Γ : List Layer} {β : Book} {m : Machine}
      {r : Lexical.Machine}, Related A β m r → Stands β m.store env place Γ → s.Linked A Γ →
    s.selfFree (isLocal Γ) = true →
    Agree A (some env.frame) β m r (exec ctx run env s) (Lexical.exec ctx.host run' place s)
      (Continues env place Γ s)
  | .block body, env, place, Γ, β, m, r, hrel, hstands, h, hself => by
      -- The frame of the block is new, so nothing is added to the frame around it.
      have hvars := hrel.vars.pushFrame .empty
      have hinner := hrel.vars.stands_pushFrame hstands.sees
      have hbody := agree_execAll hrun hlinks body (hrel.withVars hvars) hinner h hself
      have hrun' : exec ctx run env (.block body) m =
          execAll ctx run ⟨m.store.frames.size, env.chain⟩ body
            { m with store := ⟨m.store.frames.push .empty⟩ } := rfl
      have hblock := Agree.resume hrun' rfl (fun _ _ => hvars.2.leave (Nat.le_refl _)) hbody
      refine Agree.continues hstands rfl (hblock.map ?_)
      rintro _ _ flow _ - rfl
      exact ⟨rfl, rfl⟩
  | .classDecl name superclass methods, env, place, Γ, β, m, r, hrel, hstands, h, hself => by
      rcases Stmt.linked_classDecl h with ⟨hname, hfresh, hsuperclass, hmethods⟩
      have hlink : ∀ ref, superclass = some ref → ctx.links[ref.id]? = depth? ref.name.lexeme Γ :=
        fun ref href => (hlinks ref.id).symm.trans (hsuperclass ref href).find_eq
      refine (agree_declareClass hrel hstands hname hfresh hlink hmethods hself).bind ?_
      intro β₁ m₁ r₁ _ place₁ hrel₁ _ hstands₁
      exact .pure hrel₁ ⟨rfl, fun _ => hstands₁, fun h => by cases h⟩
  | .expression e, env, place, Γ, β, m, r, hrel, hstands, h, _ => by
      refine Agree.continues hstands rfl ?_
      refine (agree_eval hrun hlinks e hrel hstands.sees h).bind ?_
      intro β₁ m₁ r₁ _ _ hrel₁ _ _
      exact .pure hrel₁ ⟨rfl, rfl⟩
  | .function decl, env, place, Γ, β, m, r, hrel, hstands, ⟨hname, hfresh, hdecl⟩, hself => by
      have hdeclare := agree_declareFunction hrel hstands hname hfresh hdecl hself
      have hrun' := newFunction_define ⟨decl, env, false⟩ env decl.name.lexeme (pure Flow.next) m
      refine Agree.resume hrun' rfl (fun _ _ h => h) (hdeclare.bind ?_)
      intro β₁ m₁ r₁ _ place₁ hrel₁ _ hstands₁
      exact .pure hrel₁ ⟨rfl, fun _ => hstands₁, fun h => by cases h⟩
  | .ifElse condition thenBranch none, env, place, Γ, β, m, r, hrel, hstands,
      ⟨hcondition, hthen, hdeclared⟩, hself => by
      refine (agree_evalCondition hrun hlinks hrel hstands.sees hcondition).bindQuiet ?_
      rintro β₁ m₁ r₁ holds _ hrel₁ hlater₁ rfl
      have hstands₁ := hstands.mono hlater₁
      cases holds with
      | false => exact .pure hrel₁ ⟨rfl, fun _ => hstands₁, fun _ => rfl⟩
      | true =>
          have hbranch := agree_exec hrun hlinks thenBranch hrel₁ hstands₁ hthen hself
          exact hbranch.mono fun _ _ _ _ _ hresult => hresult.branch hdeclared rfl
  | .ifElse condition thenBranch (some elseBranch), env, place, Γ, β, m, r, hrel, hstands,
      ⟨hcondition, ⟨hthen, hdeclared⟩, helse, hdeclared'⟩, hself => by
      rcases Bool.and_eq_true_iff.1 hself with ⟨hselfThen, hselfElse⟩
      refine (agree_evalCondition hrun hlinks hrel hstands.sees hcondition).bindQuiet ?_
      rintro β₁ m₁ r₁ holds _ hrel₁ hlater₁ rfl
      have hstands₁ := hstands.mono hlater₁
      cases holds with
      | false =>
          have hbranch := agree_exec hrun hlinks elseBranch hrel₁ hstands₁ helse hselfElse
          exact hbranch.mono fun _ _ _ _ _ hresult => hresult.branch hdeclared' rfl
      | true =>
          have hbranch := agree_exec hrun hlinks thenBranch hrel₁ hstands₁ hthen hselfThen
          exact hbranch.mono fun _ _ _ _ _ hresult => hresult.branch hdeclared rfl
  | .print e, env, place, Γ, β, m, r, hrel, hstands, h, _ => by
      refine Agree.continues hstands rfl ?_
      refine (agree_eval hrun hlinks e hrel hstands.sees h).bind ?_
      rintro β₁ m₁ r₁ v _ hrel₁ _ rfl
      refine (agree_print hrel₁ v).bind ?_
      intro β₂ m₂ r₂ _ _ hrel₂ _ _
      exact .pure hrel₂ ⟨rfl, rfl⟩
  | .returnValue _ none, env, place, Γ, β, m, r, hrel, hstands, _, _ =>
      Agree.continues hstands rfl (.pure hrel ⟨rfl, rfl⟩)
  | .returnValue _ (some e), env, place, Γ, β, m, r, hrel, hstands, h, _ => by
      refine Agree.continues hstands rfl ?_
      refine (agree_eval hrun hlinks e hrel hstands.sees h).bind ?_
      rintro β₁ m₁ r₁ v _ hrel₁ _ rfl
      exact .pure hrel₁ ⟨rfl, rfl⟩
  | .varDecl name none, env, place, Γ, β, m, r, hrel, hstands, ⟨hname, hfresh⟩, _ =>
      agree_variable hstands hname hfresh (.pure hrel rfl)
  | .varDecl name (some e), env, place, Γ, β, m, r, hrel, hstands, ⟨hname, hfresh, he⟩, hself =>
      agree_variable hstands hname hfresh
        (agree_eval hrun hlinks e hrel hstands.sees (linked_initializer he hself))
  | .whileLoop condition body, env, place, Γ, β, m, r, hrel, hstands,
      ⟨hcondition, hbody, hdeclared⟩, hself => by
      have hcheck : ∀ (β : Book) (m : Machine) (r : Lexical.Machine), Related A β m r →
          Stands β m.store env place Γ → Agree A none β m r (evalCondition ctx run env condition)
            (Lexical.evalCondition ctx.host run' place.scope condition) Same :=
        fun β m r hrel hstands =>
          agree_evalCondition hrun hlinks hrel hstands.sees hcondition
      have hturn : ∀ (β : Book) (m : Machine) (r : Lexical.Machine), Related A β m r →
          Stands β m.store env place Γ → Agree A (some env.frame) β m r (exec ctx run env body)
            (Prod.fst <$> Lexical.exec ctx.host run' place body)
            fun β' s' flow flow' => flow = flow' ∧ (flow = .next → Stands β' s' env place Γ) := by
        intro β m r hrel hstands
        have hexec := agree_exec hrun hlinks body hrel hstands hbody hself
        refine hexec.map ?_
        rintro β' s' flow ⟨flow', place'⟩ - ⟨hflow, hnext, hplace⟩
        rw [Stmt.after_eq hdeclared, hplace hdeclared] at hnext
        exact ⟨hflow, hnext⟩
      refine (agree_loop hcheck hturn ctx.host.maxTurns hrel hstands).map ?_
      intro β' s' flow flow' _ hresult
      exact ⟨hresult.1, hresult.2, fun _ => rfl⟩

/-- By induction on the statements: each is executed where the names of those before are
declared. -/
theorem agree_execAll (hrun : Runner.Agrees A run run') (hlinks : ∀ id, A.find id = ctx.links[id]?) :
    ∀ (ss : List Stmt) {env : Env} {place : Lexical.Place} {Γ : List Layer} {β : Book} {m : Machine}
      {r : Lexical.Machine}, Related A β m r → Stands β m.store env place Γ →
    Stmt.AllLinked A Γ ss → Stmt.allSelfFree (isLocal Γ) ss = true →
    Agree A (some env.frame) β m r (execAll ctx run env ss)
      (Lexical.execAll ctx.host run' place ss) Same
  | [], env, place, Γ, β, m, r, hrel, hstands, _, _ => .pure hrel rfl
  | s :: ss, env, place, Γ, β, m, r, hrel, hstands, ⟨hs, hss⟩, hself => by
      rcases Bool.and_eq_true_iff.1 hself with ⟨hselfFirst, hselfRest⟩
      rw [← isLocal_after Γ s] at hselfRest
      refine (agree_exec hrun hlinks s hrel hstands hs hselfFirst).bind ?_
      rintro β₁ m₁ r₁ flow ⟨_, place₁⟩ hrel₁ - ⟨rfl, hnext, -⟩
      cases flow with
      | next => exact agree_execAll hrun hlinks ss hrel₁ (hnext rfl) hss hselfRest
      | returned v => exact .pure hrel₁ rfl

end

/-! ## Programs -/

/-- An initializer gives back `this`, out of its frame or out of what it was closed over. -/
theorem agree_callResult {own : Option FrameId} {β : Book} {m : Machine} {r : Lexical.Machine}
    (hrel : Related A β m r) {f : Closure} {g : Lexical.Closure}
    (hf : FunctionRelated A β m.store f g) (flow : Flow) :
    Agree A own β m r (callResult f flow) (pure (Lexical.callResult g flow)) Same := by
  unfold callResult Lexical.callResult
  rw [hf.isInitializer_eq]
  split
  · rename_i hinit
    -- The object an initializer gives is read in the frame that binds `this` for its method.
    rcases hf.bound hinit with ⟨object, hobject⟩
    rcases hf.captures with ⟨Γ, hcaptures, -⟩
    have hget : m.store.getAt f.env 0 "this" = .ok (.object object) := by
      simp [Store.getAt, Env.ancestor, Env.ancestor?, hcaptures.get?_this hobject, bind,
        Except.bind]
    have hread : getAt f.env 0 "this" m = .ok (.object object) m := by
      change orDefect (m.store.getAt f.env 0 "this") m = _
      rw [hget]
      rfl
    rw [hinit, hobject]
    exact Agree.of_ok hread rfl hrel (.refl _ _ _) rfl
  · rename_i hinit
    rw [Bool.not_eq_true] at hinit
    rw [hinit]
    exact .pure hrel rfl

/-- A call runs the body in a new frame, which holds the parameters. -/
theorem runBody_run {calls : Nat} {f : Closure} {arguments : List Value} {frame : Frame}
    (hbind : bindParameters .empty f.decl.params arguments = .ok frame) (paren : Token)
    (m : Machine) :
    runBody ctx (calls + 1) paren f arguments m =
      (execAll ctx (runBody ctx calls) ⟨m.store.frames.size, f.env.chain⟩ f.decl.body >>=
        callResult f) { m with store := ⟨m.store.frames.push frame⟩ } := by
  unfold runBody
  rw [hbind]
  rfl

/-- A call of the second interpreter, step by step. -/
theorem Lexical.runBody_run {host : Host} {calls : Nat} {g : Lexical.Closure}
    {arguments : List Value} {scope₁ scope₂ scope₃ : Lexical.Scope} {r r₁ r₂ r₃ : Lexical.Machine}
    (hsuper : Lexical.Act.bind? g.scope "super" (g.superclass.map .classRef) r = .ok scope₁ r₁)
    (hthis : Lexical.Act.bind? scope₁ "this" (g.this.map .object) r₁ = .ok scope₂ r₂)
    (hbind : Lexical.Act.bindParameters scope₂ g.decl.params arguments r₂ = .ok scope₃ r₃)
    (paren : Token) :
    Lexical.runBody host (calls + 1) paren g arguments r =
      (Lexical.execAll host (Lexical.runBody host calls) (.inner scope₃) g.decl.body >>=
        fun flow => pure (Lexical.callResult g flow)) r₃ := by
  unfold Lexical.runBody
  rw [Halt.bind_ok hsuper, Halt.bind_ok hthis, Halt.bind_ok hbind]

/-- By induction on the calls left: calling a function opens a frame and new cells, for the same
names. -/
theorem runBody_agrees (hlinks : ∀ id, A.find id = ctx.links[id]?) (calls : Nat) :
    Runner.Agrees A (runBody ctx calls) (Lexical.runBody ctx.host calls) := by
  induction calls with
  | zero =>
      intro β m r paren f g arguments hrel _ _
      exact .raise hrel _ paren
  | succ calls ih =>
      intro β m r paren f g arguments hrel hf hlength
      rcases hf.captures with ⟨Γ, hcaptures, hlinked⟩
      rcases FunctionDecl.linked_iff.1 hlinked with ⟨hparams, hnodup, hbody, -⟩
      rcases captures_run hrel hcaptures with
        ⟨scope₁, r₁, β₁, scope₂, r₂, hsuper, hthis, hrel₁, hlater₁, hsees₁⟩
      -- The frame of the call begins empty, and then gets the parameters.
      have hvars := hrel₁.vars.pushFrame .empty
      have hstart := hrel₁.vars.stands_pushFrame hsees₁
      rcases bindParameters_run f.decl.params arguments .empty (hrel₁.withVars hvars) hstart hparams
        hnodup hlength with ⟨frame, β₂, scope₃, r₃, hbind, hbind', hrel₂, hlater₂, hstands⟩
      rw [← hf.decl_eq] at hbind'
      refine Agree.resume (runBody_run hbind paren m) (Lexical.runBody_run hsuper hthis hbind' paren)
        (fun _ _ hlater => (hlater₁.trans hvars.2).leave (Nat.le_refl _) (hlater₂.trans hlater)) ?_
      rw [hf.decl_eq]
      have hself := (FunctionDecl.selfFree_eq f.decl).symm.trans hf.selfFree
      refine (agree_execAll ih hlinks f.decl.body hrel₂ hstands hbody hself).bind ?_
      rintro β₃ m₃ r₄ flow _ hrel₃ hlater₃ rfl
      have hf' := ((hf.mono hlater₁).mono hvars.2).mono hlater₂
      exact agree_callResult hrel₃ (hf'.mono hlater₃) flow

/-- At the top level the innermost frame is the one of the globals, which has cells for all of its
names. -/
theorem agree_topLevel (hlinks : ∀ id, A.find id = ctx.links[id]?) : ∀ (ss : List Stmt) {β : Book}
    {m : Machine} {r : Lexical.Machine}, Related A β m r → Stmt.AllLinked A [] ss →
    Stmt.allSelfFree false ss = true →
    Agree A (some 0) β m r (execTopLevel ctx ss) (Lexical.execTopLevel ctx.host ss) Same
  | [], β, m, r, hrel, _, _ => .pure hrel rfl
  | s :: ss, β, m, r, hrel, ⟨hs, hss⟩, hself => by
      rcases Bool.and_eq_true_iff.1 hself with ⟨hselfFirst, hselfRest⟩
      rw [Stmt.after_nil] at hss
      have hcalls := runBody_agrees hlinks ctx.host.maxCalls
      refine (agree_exec hcalls hlinks s hrel .top hs hselfFirst).bind ?_
      intro β₁ m₁ r₁ _ _ hrel₁ _ _
      exact agree_topLevel hlinks ss hrel₁ hss hselfRest

theorem execute_eq (hlinks : ∀ id, A.find id = ctx.links[id]?) {ss : List Stmt}
    (hss : Stmt.AllLinked A [] ss) (hself : Stmt.allSelfFree false ss = true) :
    (Machine.start.execute ctx ss).1 = (Lexical.execute ctx.host ss).1 ∧
      (Machine.start.execute ctx ss).2.output.toList = (Lexical.execute ctx.host ss).2 := by
  have hagree := agree_topLevel hlinks ss (related_start A) hss hself
  unfold Agree at hagree
  unfold Machine.execute Lexical.execute
  cases hrun : execTopLevel ctx ss Machine.start <;>
    cases hrun' : Lexical.execTopLevel ctx.host ss Lexical.Machine.start <;>
    rw [hrun, hrun'] at hagree
  · rcases hagree with ⟨_, hrel, -, -⟩
    exact ⟨rfl, congrArg Array.toList hrel.output⟩
  · exact hagree.elim
  · exact hagree.elim
  · exact ⟨congrArg Ending.halted hagree.1, congrArg Array.toList hagree.2⟩

/-! ## Sources -/

/-- A source that passes all checks, and in which no initializer of a local variable assigns to that
variable, prints the same and ends alike under lexical scoping. Both interpreters are given the same
limits, and they reach them together. -/
theorem runSource_eq_lexical (host : Host) (source : String) (hcheck : check source = [])
    (hself : Stmt.allSelfFree false (Program.ofSource source 0).statements = true) :
    (runSource host source).ending = (Lexical.run host source).1 ∧
      (runSource host source).output = (Lexical.run host source).2 := by
  rw [check_eq host] at hcheck
  unfold runSource at hcheck ⊢
  rcases Session.start.run_cases host source with
    ⟨errors, stages, j, hne, -, hrun⟩ | ⟨ts, ss, j, stages, haccepts, hrun⟩
  · rw [hrun] at hcheck
    exact absurd hcheck hne
  -- what is checked is what the session runs
  · have hstatements : (Program.ofSource source 0).statements = ss := by
      rcases haccepts.scan_eq with ⟨eof, hscan, heof⟩
      have hread := haccepts.reading
      unfold Program.ofSource
      rw [hscan]
      have hprogram := (Program.ofTokens_eq_iff_reading heof
        fun t ht => (haccepts.spelled t ht).2).2 hread
      exact congrArg Program.statements hprogram
    rw [hstatements] at hself
    rcases resolve_linked haccepts.formed haccepts.resolved with ⟨hlinked, -⟩
    generalize resolve ss Session.start.globals.names = resolution at hlinked hrun
    -- a new session has no entries but those of this program
    have hlinks : ∀ id, (resolution.addresses Session.start.nextId j).find id =
        (Context.mk (Session.start.links ∪ resolution.links) host).links[id]? := by
      intro id
      change resolution.links[id]? = (∅ ∪ resolution.links)[id]?
      rw [Std.TreeMap.getElem?_union]
      simp
    rw [hrun]
    unfold Lexical.run
    rw [hstatements]
    exact execute_eq hlinks hlinked hself

/-- The hypotheses hold of a counter that is shared between a function and what it returns. -/
theorem runSource_eq_lexical_counter :
    let host : Host := .standard ⟨0⟩
    let source := "fun f(x) \x7b fun g() \x7b x = x + 1; return x; \x7d return g; \x7d" ++
      "\x7b var h = f(1); h(); print h(); \x7d"
    (runSource host source).ending = (Lexical.run host source).1 ∧
      (runSource host source).output = (Lexical.run host source).2 :=
  runSource_eq_lexical _ _ (by decide +kernel) (by decide +kernel)

end LoxLang
