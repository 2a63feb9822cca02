import LoxLang.Proofs.Eval.Reframed

/-!
# Programs do not depend on frames

A linked program does the same on two machines that differ in their frames.

* `Runner.Abreast` is what is assumed of calls while an expression or a statement is run. By
  induction on the number of nested calls it holds of every runner, see `runBody_abreast`.
* `abreast_eval` and `abreast_exec` go by the trees. A declaration, and the initializer of a local
  variable, need an innermost frame that stands for the one on the other side.
-/

namespace LoxLang

open Exec Layer

/-- A function does the same in environments that are parallel. -/
def Runner.Abreast (A : Addresses) (run : Runner) : Prop :=
  ∀ {ρ : Pairing} (paren : Token) {f f' : Closure} (arguments : List Value), f.Reframed A ρ f' →
    LoxLang.Abreast A ρ (run paren f arguments) (run paren f' arguments) Abreast.Equal

variable {A : Addresses} {ctx : Context} {run : Runner}

/-! ## Calls -/

section Calls

variable {ρ : Pairing}

/-- Both sides make their object at the same place, and run initializers that are kept alike. -/
theorem abreast_construct (hrun : run.Abreast A) (paren : Token) (classId : ClassId)
    {initializer initializer' : Option Closure}
    (hinit : Option.Rel (Closure.Kept A ρ) initializer initializer') (arguments : List Value) :
    Abreast A ρ (construct run paren classId initializer arguments)
      (construct run paren classId initializer' arguments) Abreast.Equal := by
  refine (abreast_newObject classId).bind ?_
  rintro ρ₁ object _ hle₁ rfl
  cases hinit with
  | none => exact .pure rfl
  | some hmethod =>
      refine (abreast_bindMethod (hmethod.mono hle₁) object).bind ?_
      intro ρ₂ f f' _ hf
      refine (hrun paren arguments hf).bind ?_
      rintro ρ₃ _ _ _ -
      exact .pure rfl

/-- A value is called with the same outcome on both sides, whatever it is. -/
theorem abreast_call (hrun : run.Abreast A) (paren : Token) (callee : Value)
    (arguments : List Value) :
    Abreast A ρ (call ctx run paren callee arguments) (call ctx run paren callee arguments)
      Abreast.Equal := by
  cases callee with
  | native f =>
      cases f
      refine (abreast_checkArity paren 0 _).bind ?_
      rintro ρ₁ _ _ _ -
      exact abreast_readClock ctx.host
  | function id =>
      refine .get_bind ?_
      intro m m' hm
      -- The two functions differ at most in the frames they close over.
      have hf := hm.functions id
      dsimp only
      rw [hf.arity]
      refine (abreast_checkArity paren _ _).bind ?_
      rintro ρ₁ _ _ hle₁ -
      exact hrun paren arguments (hf.mono hle₁)
  | classRef id =>
      refine .get_bind ?_
      intro m m' hm
      have hinit := hm.findMethod? id "init"
      have harity : (m'.initializer? id).elim 0 Closure.arity = _ :=
        arity_eq_of_rel (fun _ _ hf => hf.arity) hinit
      dsimp only
      rw [harity]
      refine (abreast_checkArity paren _ _).bind ?_
      rintro ρ₁ _ _ hle₁ -
      exact abreast_construct hrun paren id (rel_mono (fun _ _ hf => hf.mono hle₁) hinit) arguments
  | _ => exact .raise _ paren

end Calls

/-! ## Expressions -/

mutual

/-- Expressions that are linked come to the same in parallel environments, by induction on the
expression. -/
theorem abreast_eval (hrun : run.Abreast A) (hlinks : ∀ id, A.find id = ctx.links[id]?)
    {env env' : Env} {Γ : List Layer} {self : Option String} :
    ∀ (e : Expr) {ρ : Pairing}, Parallel ρ env.chain env'.chain Γ →
    (self ≠ none → ρ env.frame env'.frame) → e.Linked A Γ self →
    Abreast A ρ (eval ctx run env e) (eval ctx run env' e) Abreast.Equal
  -- The pairing only grows along the way, so what is known of the environments is carried along.
  | .assign id name value, ρ, henv, hself, ⟨hvalue, _, hid⟩ => by
      refine (abreast_eval hrun hlinks value henv hself hvalue).bind ?_
      rintro ρ₁ v _ hle₁ rfl
      have hlink := (hlinks id).symm.trans hid.find_eq
      refine (abreast_assign (henv.mono hle₁) (fun h => hle₁ _ _ (hself h)) hlink v).bind ?_
      rintro ρ₂ _ _ _ -
      exact .pure rfl
  | .binary _ left operator right, ρ, henv, hself, ⟨hleft, hright⟩ => by
      refine (abreast_eval hrun hlinks left henv hself hleft).bind ?_
      rintro ρ₁ l _ hle₁ rfl
      refine (abreast_eval hrun hlinks right (henv.mono hle₁) (fun h => hle₁ _ _ (hself h))
        hright).bind ?_
      rintro ρ₂ r _ _ rfl
      exact .orRaise operator _
  | .call _ callee paren arguments, ρ, henv, hself, ⟨hcallee, harguments⟩ => by
      refine (abreast_eval hrun hlinks callee henv hself hcallee).bind ?_
      rintro ρ₁ f _ hle₁ rfl
      refine (abreast_evalAll hrun hlinks arguments (henv.mono hle₁)
        (fun h => hle₁ _ _ (hself h)) harguments).bind ?_
      rintro ρ₂ vs _ _ rfl
      exact abreast_call hrun paren f vs
  | .get _ object name, ρ, henv, hself, h => by
      refine (abreast_eval hrun hlinks object henv hself h).bind ?_
      rintro ρ₁ v _ _ rfl
      exact abreast_getProperty v name
  | .grouping _ inner, ρ, henv, hself, h => abreast_eval hrun hlinks inner henv hself h
  | .literal _ value, ρ, _, _, _ => .pure rfl
  | .logical _ left operator right, ρ, henv, hself, ⟨hleft, hright⟩ => by
      refine (abreast_eval hrun hlinks left henv hself hleft).bind ?_
      rintro ρ₁ l _ hle₁ rfl
      split
      · exact .pure rfl
      · exact abreast_eval hrun hlinks right (henv.mono hle₁) (fun h => hle₁ _ _ (hself h)) hright
  | .set _ object name value, ρ, henv, hself, ⟨hobject, hvalue⟩ => by
      refine (abreast_eval hrun hlinks object henv hself hobject).bind ?_
      rintro ρ₁ o _ hle₁ rfl
      refine (abreast_asObject o name).bind ?_
      rintro ρ₂ id _ hle₂ rfl
      have hle := le_trans hle₁ hle₂
      refine (abreast_eval hrun hlinks value (henv.mono hle) (fun h => hle _ _ (hself h))
        hvalue).bind ?_
      rintro ρ₃ v _ _ rfl
      refine (abreast_setField id name.lexeme v).bind ?_
      rintro ρ₄ _ _ _ -
      exact .pure rfl
  | .super id _ method, ρ, henv, _, ⟨d, hid, hthis, hsuper⟩ =>
      abreast_superMethod henv ((hlinks id).symm.trans hid.find_eq) hthis hsuper method
  | .this id keyword, ρ, henv, _, ⟨hkeyword, d, hid, hthis⟩ => by
      refine abreast_lookUp henv ?_
      rw [hkeyword, hthis.1]
      exact (hlinks id).symm.trans hid.find_eq
  | .unary _ operator right, ρ, henv, hself, h => by
      refine (abreast_eval hrun hlinks right henv hself h).bind ?_
      rintro ρ₁ v _ _ rfl
      exact .orRaise operator _
  | .variable ref, ρ, henv, _, h =>
      abreast_lookUp henv ((hlinks ref.id).symm.trans h.find_eq)

theorem abreast_evalAll (hrun : run.Abreast A) (hlinks : ∀ id, A.find id = ctx.links[id]?)
    {env env' : Env} {Γ : List Layer} {self : Option String} :
    ∀ (es : List Expr) {ρ : Pairing}, Parallel ρ env.chain env'.chain Γ →
    (self ≠ none → ρ env.frame env'.frame) → Expr.AllLinked A Γ self es →
    Abreast A ρ (evalAll ctx run env es) (evalAll ctx run env' es) Abreast.Equal
  | [], _, _, _, _ => .pure rfl
  | e :: es, ρ, henv, hself, ⟨he, hes⟩ => by
      refine (abreast_eval hrun hlinks e henv hself he).bind ?_
      rintro ρ₁ v _ hle₁ rfl
      refine (abreast_evalAll hrun hlinks es (henv.mono hle₁) (fun h => hle₁ _ _ (hself h))
        hes).bind ?_
      rintro ρ₂ vs _ _ rfl
      exact .pure rfl

end

theorem abreast_evalCondition (hrun : run.Abreast A) (hlinks : ∀ id, A.find id = ctx.links[id]?)
    {env env' : Env} {Γ : List Layer} {ρ : Pairing} (henv : Parallel ρ env.chain env'.chain Γ)
    {e : Expr} (h : e.Linked A Γ none) :
    Abreast A ρ (evalCondition ctx run env e) (evalCondition ctx run env' e) Abreast.Equal := by
  refine (abreast_eval hrun hlinks e henv (absurd rfl) h).bind ?_
  rintro ρ₁ v _ _ rfl
  exact .pure rfl

/-! ## Statements -/

/-- A variable declaration, whatever its first value is. -/
theorem abreast_variable {ρ : Pairing} {env env' : Env} (hlead : ρ env.frame env'.frame) (name : Token)
    {value : Option Expr}
    (hvalue : Abreast A ρ (evalOptional ctx run env value) (evalOptional ctx run env' value)
      Abreast.Equal) :
    Abreast A ρ (exec ctx run env (.varDecl name value)) (exec ctx run env' (.varDecl name value))
      Abreast.Equal := by
  refine hvalue.bind ?_
  rintro ρ₁ v _ hle₁ rfl
  refine (abreast_bindIn (hle₁ _ _ hlead) name.lexeme v).bind ?_
  rintro ρ₂ _ _ _ -
  exact .pure rfl

/-- The turns of a loop. Scopes may be opened in each of them, so its parts are to be abreast
whatever frames stand for each other by then. -/
theorem abreast_loop {ρ : Pairing} {condition condition' : Exec Bool} {body body' : Exec Flow}
    (hcondition : ∀ ρ', ρ ≤ ρ' → Abreast A ρ' condition condition' Abreast.Equal)
    (hbody : ∀ ρ', ρ ≤ ρ' → Abreast A ρ' body body' Abreast.Equal) (turns : Nat) :
    Abreast A ρ (loop condition body turns) (loop condition' body' turns) Abreast.Equal := by
  induction turns generalizing ρ with
  | zero => exact .halt .unfinished
  | succ turns ih =>
      refine (hcondition ρ le_rfl).bind ?_
      rintro ρ₁ holds _ hle₁ rfl
      cases holds with
      | false => exact .pure rfl
      | true =>
          refine (hbody ρ₁ hle₁).bind ?_
          rintro ρ₂ flow _ hle₂ rfl
          have hle := le_trans hle₁ hle₂
          cases flow with
          | next =>
              exact ih (fun ρ' hle' => hcondition ρ' (le_trans hle hle'))
                fun ρ' hle' => hbody ρ' (le_trans hle hle')
          | returned v => exact .pure rfl

mutual

/-- The same of statements. What a statement declares is bound in frames that stand for each
other. -/
theorem abreast_exec (hrun : run.Abreast A) (hlinks : ∀ id, A.find id = ctx.links[id]?) :
    ∀ (s : Stmt) {env env' : Env} {Γ : List Layer} {ρ : Pairing},
    Parallel ρ env.chain env'.chain Γ → (s.declared? ≠ none → ρ env.frame env'.frame) →
    s.Linked A Γ → Abreast A ρ (exec ctx run env s) (exec ctx run env' s) Abreast.Equal
  | .block body, env, env', Γ, ρ, henv, _, h => by
      -- The frames of the block need not have the same number; from here on they are a pair.
      refine (abreast_enter henv .empty (.names [])).bind ?_
      rintro ρ₁ inner inner' _ ⟨hlead, hinner⟩
      exact abreast_execAll hrun hlinks body hinner hlead h
  | .classDecl name superclass methods, env, env', Γ, ρ, henv, hlead, h => by
      rcases Stmt.linked_classDecl h with ⟨-, -, hsuperclass, hmethods⟩
      have hlink : ∀ ref, superclass = some ref → ctx.links[ref.id]? = depth? ref.name.lexeme Γ :=
        fun ref href => (hlinks ref.id).symm.trans (hsuperclass ref href).find_eq
      refine (abreast_declareClass henv (hlead nofun) name hlink hmethods).bind ?_
      rintro ρ₁ _ _ _ -
      exact .pure rfl
  | .expression e, env, env', Γ, ρ, henv, _, h => by
      refine (abreast_eval hrun hlinks e henv (absurd rfl) h).bind ?_
      rintro ρ₁ _ _ _ -
      exact .pure rfl
  | .function decl, env, env', Γ, ρ, henv, hlead, ⟨_, _, hdecl⟩ => by
      have hframe := hlead nofun
      have hclosure : Closure.Reframed A ρ ⟨decl, env, false⟩ ⟨decl, env', false⟩ :=
        ⟨rfl, rfl, ⟨_, henv.add hframe decl.name.lexeme, hdecl⟩, nofun⟩
      refine (abreast_newFunction hclosure).bind ?_
      rintro ρ₁ v _ hle₁ rfl
      refine (abreast_bindIn (hle₁ _ _ hframe) decl.name.lexeme v).bind ?_
      rintro ρ₂ _ _ _ -
      exact .pure rfl
  | .ifElse condition thenBranch none, env, env', Γ, ρ, henv, _,
      ⟨hcondition, hthen, hdeclared⟩ => by
      refine (abreast_evalCondition hrun hlinks henv hcondition).bind ?_
      rintro ρ₁ holds _ hle₁ rfl
      cases holds with
      | false => exact .pure rfl
      | true =>
          exact abreast_exec hrun hlinks thenBranch (henv.mono hle₁) (absurd hdeclared) hthen
  | .ifElse condition thenBranch (some elseBranch), env, env', Γ, ρ, henv, _,
      ⟨hcondition, ⟨hthen, hnone⟩, helse, hnone'⟩ => by
      refine (abreast_evalCondition hrun hlinks henv hcondition).bind ?_
      rintro ρ₁ holds _ hle₁ rfl
      cases holds with
      | false => exact abreast_exec hrun hlinks elseBranch (henv.mono hle₁) (absurd hnone') helse
      | true => exact abreast_exec hrun hlinks thenBranch (henv.mono hle₁) (absurd hnone) hthen
  | .print e, env, env', Γ, ρ, henv, _, h => by
      refine (abreast_eval hrun hlinks e henv (absurd rfl) h).bind ?_
      rintro ρ₁ v _ _ rfl
      refine (abreast_print v).bind ?_
      rintro ρ₂ _ _ _ -
      exact .pure rfl
  | .returnValue _ none, env, env', Γ, ρ, _, _, _ => .pure rfl
  | .returnValue _ (some e), env, env', Γ, ρ, henv, _, h => by
      refine (abreast_eval hrun hlinks e henv (absurd rfl) h).bind ?_
      rintro ρ₁ v _ _ rfl
      exact .pure rfl
  | .varDecl name none, env, env', Γ, ρ, _, hlead, _ => abreast_variable (hlead nofun) name (.pure rfl)
  | .varDecl name (some e), env, env', Γ, ρ, henv, hlead, ⟨_, _, he⟩ =>
      -- The initializer may assign to the variable before it is declared.
      have hframe := hlead nofun
      abreast_variable hframe name (abreast_eval hrun hlinks e henv (fun _ => hframe) he)
  | .whileLoop condition body, env, env', Γ, ρ, henv, _, ⟨hcondition, hbody, hdeclared⟩ => by
      have hcheck : ∀ ρ', ρ ≤ ρ' → Abreast A ρ' (evalCondition ctx run env condition)
          (evalCondition ctx run env' condition) Abreast.Equal :=
        fun ρ' hle => abreast_evalCondition hrun hlinks (henv.mono hle) hcondition
      have hturn : ∀ ρ', ρ ≤ ρ' → Abreast A ρ' (exec ctx run env body) (exec ctx run env' body)
          Abreast.Equal :=
        fun ρ' hle => abreast_exec hrun hlinks body (henv.mono hle) (absurd hdeclared) hbody
      exact abreast_loop hcheck hturn ctx.host.maxTurns

theorem abreast_execAll (hrun : run.Abreast A) (hlinks : ∀ id, A.find id = ctx.links[id]?) :
    ∀ (ss : List Stmt) {env env' : Env} {Γ : List Layer} {ρ : Pairing},
    Parallel ρ env.chain env'.chain Γ → ρ env.frame env'.frame → Stmt.AllLinked A Γ ss →
    Abreast A ρ (execAll ctx run env ss) (execAll ctx run env' ss) Abreast.Equal
  | [], env, env', Γ, ρ, _, _, _ => .pure rfl
  | s :: ss, env, env', Γ, ρ, henv, hlead, ⟨hs, hss⟩ => by
      refine (abreast_exec hrun hlinks s henv (fun _ => hlead) hs).bind ?_
      rintro ρ₁ flow _ hle₁ rfl
      have hlead₁ := hle₁ _ _ hlead
      cases flow with
      | next =>
          -- What the statement declares is in the innermost frame, which is still paired.
          exact abreast_execAll hrun hlinks ss ((henv.mono hle₁).after fun _ => hlead₁) hlead₁ hss
      | returned v => exact .pure rfl

end

/-! ## Function bodies and programs -/

theorem abreast_callResult {ρ : Pairing} {f f' : Closure} (hf : f.Reframed A ρ f') (flow : Flow) :
    Abreast A ρ (callResult f flow) (callResult f' flow) Abreast.Equal := by
  unfold callResult
  rw [hf.isInitializer]
  split
  · rename_i hinit
    refine .get_bind ?_
    intro m m' hm
    have hget : m'.store.getAt f'.env 0 "this" = m.store.getAt f.env 0 "this" := by
      simp [Store.getAt, Env.ancestor, Env.ancestor?, bind, Except.bind,
        hm.store.frame_eq _ _ (hf.this hinit)]
    rw [hget]
    exact .orDefect _
  · exact .pure rfl

/-- The same of the bodies of functions, by induction on the calls that may still be nested. -/
theorem runBody_abreast (hlinks : ∀ id, A.find id = ctx.links[id]?) (calls : Nat) :
    (runBody ctx calls).Abreast A := by
  induction calls with
  | zero => exact fun paren _ _ _ _ => .raise _ paren
  | succ calls ih =>
      intro ρ paren f f' arguments hf
      unfold runBody
      rw [hf.decl]
      refine (Abreast.orDefect _).bind ?_
      rintro ρ₁ frame _ hle₁ rfl
      have hf₁ := hf.mono hle₁
      rcases hf₁.linked with ⟨Γ, henv, hlinked⟩
      rcases FunctionDecl.linked_iff.1 hlinked with ⟨-, -, hbody, -⟩
      refine (abreast_enter henv frame (.names (f.decl.params.map Token.lexeme))).bind ?_
      rintro ρ₂ inner inner' hle₂ ⟨hlead, hinner⟩
      refine (abreast_execAll ih hlinks f.decl.body hinner hlead hbody).bind ?_
      rintro ρ₃ flow _ hle₃ rfl
      exact abreast_callResult ((hf₁.mono hle₂).mono hle₃) flow

/-- The same of a program, whose environment is that of the globals on both sides. -/
theorem abreast_topLevel (hlinks : ∀ id, A.find id = ctx.links[id]?) :
    ∀ (ss : List Stmt) {ρ : Pairing}, ρ 0 0 → Stmt.AllLinked A [] ss →
    Abreast A ρ (execTopLevel ctx ss) (execTopLevel ctx ss) Abreast.Equal
  | [], _, _, _ => .pure rfl
  | s :: ss, ρ, hglobals, ⟨hs, hss⟩ => by
      have henv : Parallel ρ Machine.globals.chain Machine.globals.chain [] := .top
      refine (abreast_exec (runBody_abreast hlinks _) hlinks s henv (fun _ => hglobals) hs).bind ?_
      rintro ρ₁ _ _ hle₁ -
      rw [Stmt.after_nil] at hss
      exact abreast_topLevel hlinks ss (hle₁ _ _ hglobals) hss

end LoxLang
