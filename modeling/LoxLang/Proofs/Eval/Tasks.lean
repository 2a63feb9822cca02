import LoxLang.Proofs.Eval.Safe
import LoxLang.Proofs.Scope.Visits
import Mathlib.Logic.Relation

/-!
# Tasks of a run

Which parts of a program a run comes to, and in which environments.

* A `Task` is a node that is about to be run, in some environment and on some machine.
* `Task.Next`: running one task involves running another one. Loops start over, and a call goes on
  to the body of the function that is called, wherever that was declared. `Task.Leads` is any number
  of such steps.
* `Task.Tracked`: the resolver has visited the node of a task, with scopes whose layers the
  environment of the task matches. One step keeps this (`Task.Tracked.next`), and so does a run
  (`Task.Tracked.leads`).
* `Env.Mirrors`: scopes and an environment have the same number of parts, and what the scopes
  declare is bound.
-/

namespace LoxLang

open Exec Layer Resolver

/-- A node that is about to be run. -/
structure Task where
  /-- How many calls may still be nested. -/
  calls : Nat
  env : Env
  node : Node
  machine : Machine

/-! ## The order of tasks -/

/-- The function that a call runs once callee and arguments are there, and the machine it runs
on. -/
inductive Invokes : Value → List Value → Machine → Closure → Machine → Prop where
  | function {id : FunctionId} {arguments : List Value} {m : Machine} :
      arguments.length = (m.function id).arity →
      Invokes (.function id) arguments m (m.function id) m
  | initializer {id : ClassId} {arguments : List Value} {m m₁ m₂ : Machine} {method f : Closure}
      {object : ObjectId} :
      m.initializer? id = some method → arguments.length = method.arity →
      newObject id m = .ok object m₁ → bindMethod method object m₁ = .ok f m₂ →
      Invokes (.classRef id) arguments m f m₂

/-- Running one task involves running another one. -/
inductive Task.Next (ctx : LoxLang.Context) : Task → Task → Prop where
  | assigned {n : Nat} {env : Env} {id : NodeId} {name : Token} {value : Expr} {m : Machine} :
      Next ctx ⟨n, env, .expr (.assign id name value), m⟩ ⟨n, env, .expr value, m⟩
  | left {n : Nat} {env : Env} {id : NodeId} {left right : Expr} {operator : Token} {m : Machine} :
      Next ctx ⟨n, env, .expr (.binary id left operator right), m⟩ ⟨n, env, .expr left, m⟩
  | right {n : Nat} {env : Env} {id : NodeId} {left right : Expr} {operator : Token}
      {m m₁ : Machine} {l : Value} :
      eval ctx (runBody ctx n) env left m = .ok l m₁ →
      Next ctx ⟨n, env, .expr (.binary id left operator right), m⟩ ⟨n, env, .expr right, m₁⟩
  | callee {n : Nat} {env : Env} {id : NodeId} {callee : Expr} {paren : Token}
      {arguments : List Expr} {m : Machine} :
      Next ctx ⟨n, env, .expr (.call id callee paren arguments), m⟩ ⟨n, env, .expr callee, m⟩
  | arguments {n : Nat} {env : Env} {id : NodeId} {callee : Expr} {paren : Token}
      {arguments : List Expr} {m m₁ : Machine} {f : Value} :
      eval ctx (runBody ctx n) env callee m = .ok f m₁ →
      Next ctx ⟨n, env, .expr (.call id callee paren arguments), m⟩ ⟨n, env, .exprs arguments, m₁⟩
  /-- The body runs with one call fewer. If it is empty there is nothing to come to. -/
  | body {n : Nat} {env inner : Env} {id : NodeId} {callee : Expr} {paren : Token}
      {arguments : List Expr} {m m₁ m₂ m₃ m₄ : Machine} {f : Value} {vs : List Value}
      {closure : Closure} {frame : Frame} :
      eval ctx (runBody ctx (n + 1)) env callee m = .ok f m₁ →
      evalAll ctx (runBody ctx (n + 1)) env arguments m₁ = .ok vs m₂ →
      Invokes f vs m₂ closure m₃ →
      bindParameters .empty closure.decl.params vs = .ok frame →
      enter closure.env frame m₃ = .ok inner m₄ → closure.decl.body ≠ [] →
      Next ctx ⟨n + 1, env, .expr (.call id callee paren arguments), m⟩
        ⟨n, inner, .stmts closure.decl.body, m₄⟩
  | object {n : Nat} {env : Env} {id : NodeId} {object : Expr} {name : Token} {m : Machine} :
      Next ctx ⟨n, env, .expr (.get id object name), m⟩ ⟨n, env, .expr object, m⟩
  | inner {n : Nat} {env : Env} {id : NodeId} {inner : Expr} {m : Machine} :
      Next ctx ⟨n, env, .expr (.grouping id inner), m⟩ ⟨n, env, .expr inner, m⟩
  | logicalLeft {n : Nat} {env : Env} {id : NodeId} {left right : Expr} {operator : Token}
      {m : Machine} :
      Next ctx ⟨n, env, .expr (.logical id left operator right), m⟩ ⟨n, env, .expr left, m⟩
  | logicalRight {n : Nat} {env : Env} {id : NodeId} {left right : Expr} {operator : Token}
      {m m₁ : Machine} {l : Value} :
      eval ctx (runBody ctx n) env left m = .ok l m₁ → l.settles operator.kind = false →
      Next ctx ⟨n, env, .expr (.logical id left operator right), m⟩ ⟨n, env, .expr right, m₁⟩
  | setObject {n : Nat} {env : Env} {id : NodeId} {object value : Expr} {name : Token}
      {m : Machine} :
      Next ctx ⟨n, env, .expr (.set id object name value), m⟩ ⟨n, env, .expr object, m⟩
  | setValue {n : Nat} {env : Env} {id : NodeId} {object value : Expr} {name : Token}
      {m m₁ : Machine} {o : ObjectId} :
      eval ctx (runBody ctx n) env object m = .ok (.object o) m₁ →
      Next ctx ⟨n, env, .expr (.set id object name value), m⟩ ⟨n, env, .expr value, m₁⟩
  | operand {n : Nat} {env : Env} {id : NodeId} {operator : Token} {right : Expr} {m : Machine} :
      Next ctx ⟨n, env, .expr (.unary id operator right), m⟩ ⟨n, env, .expr right, m⟩
  | firstExpr {n : Nat} {env : Env} {e : Expr} {es : List Expr} {m : Machine} :
      Next ctx ⟨n, env, .exprs (e :: es), m⟩ ⟨n, env, .expr e, m⟩
  | moreExprs {n : Nat} {env : Env} {e : Expr} {es : List Expr} {m m₁ : Machine} {v : Value} :
      eval ctx (runBody ctx n) env e m = .ok v m₁ →
      Next ctx ⟨n, env, .exprs (e :: es), m⟩ ⟨n, env, .exprs es, m₁⟩
  | block {n : Nat} {env inner : Env} {body : List Stmt} {m m₁ : Machine} :
      enter env .empty m = .ok inner m₁ →
      Next ctx ⟨n, env, .stmt (.block body), m⟩ ⟨n, inner, .stmts body, m₁⟩
  | superclass {n : Nat} {env : Env} {name : Token} {ref : Reference}
      {methods : List FunctionDecl} {m : Machine} :
      Next ctx ⟨n, env, .stmt (.classDecl name (some ref) methods), m⟩
        ⟨n, env, .superclass name ref, m⟩
  | expression {n : Nat} {env : Env} {e : Expr} {m : Machine} :
      Next ctx ⟨n, env, .stmt (.expression e), m⟩ ⟨n, env, .expr e, m⟩
  | print {n : Nat} {env : Env} {e : Expr} {m : Machine} :
      Next ctx ⟨n, env, .stmt (.print e), m⟩ ⟨n, env, .expr e, m⟩
  | condition {n : Nat} {env : Env} {condition : Expr} {thenBranch : Stmt}
      {elseBranch : Option Stmt} {m : Machine} :
      Next ctx ⟨n, env, .stmt (.ifElse condition thenBranch elseBranch), m⟩
        ⟨n, env, .expr condition, m⟩
  | thenBranch {n : Nat} {env : Env} {condition : Expr} {thenBranch : Stmt}
      {elseBranch : Option Stmt} {m m₁ : Machine} {v : Value} :
      eval ctx (runBody ctx n) env condition m = .ok v m₁ → v.isTruthy = true →
      Next ctx ⟨n, env, .stmt (.ifElse condition thenBranch elseBranch), m⟩
        ⟨n, env, .stmt thenBranch, m₁⟩
  | elseBranch {n : Nat} {env : Env} {condition : Expr} {thenBranch elseBranch : Stmt}
      {m m₁ : Machine} {v : Value} :
      eval ctx (runBody ctx n) env condition m = .ok v m₁ → v.isTruthy = false →
      Next ctx ⟨n, env, .stmt (.ifElse condition thenBranch (some elseBranch)), m⟩
        ⟨n, env, .stmt elseBranch, m₁⟩
  | returned {n : Nat} {env : Env} {keyword : Token} {e : Expr} {m : Machine} :
      Next ctx ⟨n, env, .stmt (.returnValue keyword (some e)), m⟩ ⟨n, env, .expr e, m⟩
  | initializer {n : Nat} {env : Env} {name : Token} {e : Expr} {m : Machine} :
      Next ctx ⟨n, env, .stmt (.varDecl name (some e)), m⟩ ⟨n, env, .expr e, m⟩
  | loopCondition {n : Nat} {env : Env} {condition : Expr} {body : Stmt} {m : Machine} :
      Next ctx ⟨n, env, .stmt (.whileLoop condition body), m⟩ ⟨n, env, .expr condition, m⟩
  | loopBody {n : Nat} {env : Env} {condition : Expr} {body : Stmt} {m m₁ : Machine} {v : Value} :
      eval ctx (runBody ctx n) env condition m = .ok v m₁ → v.isTruthy = true →
      Next ctx ⟨n, env, .stmt (.whileLoop condition body), m⟩ ⟨n, env, .stmt body, m₁⟩
  /-- Behind a turn, the loop starts over. -/
  | turn {n : Nat} {env : Env} {condition : Expr} {body : Stmt} {m m₁ m₂ : Machine} {v : Value} :
      eval ctx (runBody ctx n) env condition m = .ok v m₁ → v.isTruthy = true →
      exec ctx (runBody ctx n) env body m₁ = .ok .next m₂ →
      Next ctx ⟨n, env, .stmt (.whileLoop condition body), m⟩
        ⟨n, env, .stmt (.whileLoop condition body), m₂⟩
  | firstStmt {n : Nat} {env : Env} {st : Stmt} {ss : List Stmt} {m : Machine} :
      Next ctx ⟨n, env, .stmts (st :: ss), m⟩ ⟨n, env, .stmt st, m⟩
  /-- The top level goes on behind a `return`, which has nothing to return from there. -/
  | moreStmts {n : Nat} {env : Env} {st : Stmt} {ss : List Stmt} {m m₁ : Machine} {flow : Flow} :
      exec ctx (runBody ctx n) env st m = .ok flow m₁ → flow = .next ∨ env = Machine.globals →
      Next ctx ⟨n, env, .stmts (st :: ss), m⟩ ⟨n, env, .stmts ss, m₁⟩

/-- One task in the course of another one. -/
inductive Task.Leads (ctx : LoxLang.Context) : Task → Task → Prop where
  | here {t : Task} : Leads ctx t t
  | next {t u v : Task} : t.Next ctx u → Leads ctx u v → Leads ctx t v

/-- A task that leads to a second one leads to the next tasks of the second one. -/
theorem Task.Leads.snoc {ctx : LoxLang.Context} {t u v : Task} (h : Leads ctx t u)
    (hnext : u.Next ctx v) : Leads ctx t v := by
  induction h with
  | here => exact .next hnext .here
  | next hfirst _ ih => exact .next hfirst (ih hnext)

/-- One task leads to another one without a call in between. -/
def Task.SameCall (ctx : LoxLang.Context) : Task → Task → Prop :=
  Relation.ReflTransGen fun t u => t.Next ctx u ∧ u.calls = t.calls

/-- Without a call, nothing leaves the scopes that are open. -/
theorem Task.Next.chain_suffix {ctx : LoxLang.Context} {t u : Task} (h : t.Next ctx u)
    (hcalls : u.calls = t.calls) : t.env.chain <:+ u.env.chain := by
  cases h with
  | body _ _ _ _ _ _ => exact absurd hcalls (Nat.ne_of_lt (Nat.lt_succ_self _))
  | block henter =>
      cases henter
      exact List.suffix_cons _ _
  | _ => exact List.suffix_rfl

/-- Inside of one call, environments only ever get longer on the inside. -/
theorem Task.SameCall.chain_suffix {ctx : LoxLang.Context} {t u : Task} (h : t.SameCall ctx u) :
    t.env.chain <:+ u.env.chain := by
  induction h with
  | refl => exact List.suffix_rfl
  | tail _ hnext ih => exact ih.trans (hnext.1.chain_suffix hnext.2)

/-! ## Tracked tasks -/

/-- The uses of names in a node have their distances. -/
def Node.Linked (A : Addresses) (self : Option String) (Γ : List Layer) : Node → Prop
  | .expr e => e.Linked A Γ self
  | .exprs es => Expr.AllLinked A Γ self es
  | .stmt st => st.Linked A Γ
  | .stmts ss => Stmt.AllLinked A Γ ss
  | .superclass _ ref => ref.Linked A Γ
  | .function decl => decl.Linked A Γ
  | .methods decls => FunctionDecl.AllLinked A Γ decls

/-- A task on a sound machine, in an environment that matches the layers with which its node has
been visited. -/
structure Task.Tracked (V : Visit → Prop) (A : Addresses) (t : Task) (own : Option String)
    (Γ : List Layer) : Prop where
  sound : t.machine.Sound A fun _ => True
  chain : Matches t.machine.store t.env.chain Γ
  linked : t.node.Linked A own Γ
  seen : t.node.Seen V own Γ

/-- Visits that hold all that follow them, and addresses that know of no other functions. -/
structure Follow (ctx : LoxLang.Context) (V : Visit → Prop) (A : Addresses) : Prop where
  links : ∀ id, A.find id = ctx.links[id]?
  next : ∀ {v w : Visit}, V v → v.Next w → V w
  known : ∀ Γ decl, A.known Γ decl → (Node.function decl).Seen V none Γ

/-- What is known of an action that behaves, where it comes to a result. -/
theorem Behaves.ok {α : Type} {A : Addresses} {G : String → Prop} {m m' : Machine} {x : Exec α}
    {Q : α → Machine → Prop} (h : Behaves A G m x Q) {a : α} (hrun : x m = .ok a m') :
    m'.Sound A G ∧ m.store.Keeps m'.store ∧ Q a m' := by
  unfold Behaves at h
  rwa [hrun] at h

/-- The parts of an `if` that it has in any case. -/
theorem Stmt.Linked.branch {A : Addresses} {Γ : List Layer} {condition : Expr} {thenBranch : Stmt}
    {elseBranch : Option Stmt} (h : (Stmt.ifElse condition thenBranch elseBranch).Linked A Γ) :
    condition.Linked A Γ none ∧ thenBranch.Linked A Γ := by
  cases elseBranch with
  | none => exact ⟨h.1, h.2.1⟩
  | some _ => exact ⟨h.1, h.2.1.1⟩

/-- Only a local variable has an initializer of its own. -/
theorem Resolver.Visit.Clear.ne_nil {v : Visit} {self : Option String} {Γ : List Layer}
    (h : v.Clear self Γ) : self ≠ none → Γ ≠ [] := by
  have hviews : ∀ scopes, Views self scopes Γ → self ≠ none → Γ ≠ [] := by
    intro scopes hviews hself
    cases hviews with
    | plain _ => exact absurd rfl hself
    | initializer _ _ _ _ => exact List.cons_ne_nil _ _
  cases h with
  | expr _ _ hready => exact hviews _ hready.scopes
  | exprs _ _ hready => exact hviews _ hready.scopes
  | _ => exact absurd rfl

namespace Task.Tracked

variable {ctx : LoxLang.Context} {V : Visit → Prop} {A : Addresses} {n : Nat} {env : Env}
  {m m₁ : Machine} {self : Option String} {Γ : List Layer}

/-- What follows an expression, in the same environment. -/
theorem behindExpr {node : Node} (hF : Follow ctx V A)
    (h : Tracked V A ⟨n, env, node, m⟩ self Γ) {e : Expr} (he : e.Linked A Γ self) {v : Value}
    (hrun : eval ctx (runBody ctx n) env e m = .ok v m₁) {node' : Node}
    (hlinked : node'.Linked A self Γ) (hseen : node'.Seen V self Γ) :
    Tracked V A ⟨n, env, node', m₁⟩ self Γ := by
  rcases h.seen with ⟨_, _, _, hclear⟩
  have hbehaves := behaves_eval (runBody_safe hF.links n) hF.links hclear.ne_nil e h.sound h.chain he
  rcases hbehaves.ok hrun with ⟨hsound, hkeeps, -⟩
  exact ⟨hsound, h.chain.mono hkeeps, hlinked, hseen⟩

/-- What comes first, on the same machine. -/
theorem first {node node' : Node} (h : Tracked V A ⟨n, env, node, m⟩ self Γ) {self' : Option String}
    (hlinked : node'.Linked A self' Γ) (hseen : node'.Seen V self' Γ) :
    Tracked V A ⟨n, env, node', m⟩ self' Γ := ⟨h.sound, h.chain, hlinked, hseen⟩

/-- What follows a statement that declares nothing, in the same environment. -/
theorem behindStmt {node : Node} (hF : Follow ctx V A)
    (h : Tracked V A ⟨n, env, node, m⟩ self Γ) {st : Stmt} (hst : st.Linked A Γ) {flow : Flow}
    (hrun : exec ctx (runBody ctx n) env st m = .ok flow m₁)
    (hflow : flow = .next ∨ env = Machine.globals) {node' : Node}
    (hlinked : node'.Linked A none (st.after Γ)) (hseen : node'.Seen V none (st.after Γ)) :
    Tracked V A ⟨n, env, node', m₁⟩ none (st.after Γ) := by
  have hbehaves := behaves_exec (runBody_safe hF.links n) hF.links st h.sound h.chain hst
    fun _ _ _ => trivial
  rcases hbehaves.ok hrun with ⟨hsound, -, hfollows⟩
  refine ⟨hsound, ?_, hlinked, hseen⟩
  rcases hflow with rfl | rfl
  · exact hfollows.layers rfl
  · -- At the top level there are no layers, whatever has been declared.
    rw [h.chain.eq_nil rfl, Stmt.after_nil]
    exact .top hsound.globals

/-- The function that a call runs can be called. -/
theorem invoked {f : Value} {vs : List Value} {closure : Closure} (hm : m.Sound A fun _ => True)
    (h : Invokes f vs m closure m₁) :
    m₁.Sound A (fun _ => True) ∧ ClosureOk A m₁.store closure ∧ vs.length = closure.arity := by
  cases h with
  | @function id _ _ hlength => exact ⟨hm, hm.functions id, hlength⟩
  | @initializer id _ _ m' _ method _ object hmethod hlength hobject hbind =>
      rcases (behaves_newObject hm id).ok hobject with ⟨hsound, hkeeps, -⟩
      have hok := (hm.findMethod? hmethod).mono A.le_refl hkeeps
      rcases (behaves_bindMethod hsound hok object).ok hbind with ⟨hsound', -, hclosure, hdecl⟩
      refine ⟨hsound', hclosure, ?_⟩
      unfold Closure.arity at hlength ⊢
      rw [hdecl]
      exact hlength

/-- A call goes on to a body that has been visited where its function was declared. -/
theorem called (hF : Follow ctx V A) {id : NodeId} {callee : Expr} {paren : Token}
    {arguments : List Expr} (h : Tracked V A ⟨n + 1, env, .expr (.call id callee paren arguments), m⟩
      self Γ) {m₂ m₃ m₄ : Machine} {f : Value} {vs : List Value} {closure : Closure} {frame : Frame}
    {inner : Env} (hcallee : eval ctx (runBody ctx (n + 1)) env callee m = .ok f m₁)
    (harguments : evalAll ctx (runBody ctx (n + 1)) env arguments m₁ = .ok vs m₂)
    (hinvokes : Invokes f vs m₂ closure m₃)
    (hparams : bindParameters .empty closure.decl.params vs = .ok frame)
    (henter : enter closure.env frame m₃ = .ok inner m₄) (hbody : closure.decl.body ≠ []) :
    ∃ own Γ', Tracked V A ⟨n, inner, .stmts closure.decl.body, m₄⟩ own Γ' := by
  rcases h.seen with ⟨_, _, _, hclear⟩
  have hrun : Runner.Safe A (fun _ => True) (runBody ctx (n + 1)) := runBody_safe hF.links (n + 1)
  rcases (behaves_eval hrun hF.links hclear.ne_nil callee h.sound h.chain h.linked.1).ok hcallee with
    ⟨hsound₁, hkeeps₁, -⟩
  rcases (behaves_evalAll hrun hF.links hclear.ne_nil arguments hsound₁ (h.chain.mono hkeeps₁)
    h.linked.2).ok harguments with ⟨hsound₂, -, -⟩
  rcases invoked hsound₂ hinvokes with ⟨hsound₃, ⟨Γ', hchain, hdecl, -⟩, hlength⟩
  rcases FunctionDecl.linked_iff.1 hdecl with ⟨hnames, -, hlinked, hknown⟩
  rcases bindParameters_ok closure.decl.params vs .empty [] frameBinds_empty hlength with
    ⟨frame', hparams', hframe⟩
  obtain rfl : frame' = frame := Except.ok.inj (hparams'.symm.trans hparams)
  rcases (behaves_enter hsound₃ hchain hframe
    (bindParameters_apart hnames (frameApart_empty _) hparams)).ok henter with ⟨hsound₄, -, hinner⟩
  -- That the resolver has come to the body is part of what is known of a linked function.
  rcases hF.known _ _ (hknown hbody) with ⟨rctx, s, hv, hdeclared⟩
  exact ⟨none, _, hsound₄, hinner, hlinked, rctx, _, hF.next hv .body, hdeclared.body⟩

/-- One step of a run leads from a tracked task to a tracked task. -/
theorem next (hF : Follow ctx V A) {t u : Task} (hnext : t.Next ctx u)
    (h : t.Tracked V A self Γ) : ∃ own Γ', u.Tracked V A own Γ' := by
  rcases h.seen with ⟨rctx, s, hv, hclear⟩
  -- Each case pairs a step of the run with the step of the resolver to the same node. What has been
  -- run in between keeps the machine sound (`behindExpr`, `behindStmt`), and what the resolver has
  -- done in between left it without faults (`hclear`).
  cases hnext with
  | assigned => exact ⟨_, _, h.first h.linked.1 ⟨rctx, s, hF.next hv .assigned, hclear.assigned⟩⟩
  | left => exact ⟨_, _, h.first h.linked.1 ⟨rctx, s, hF.next hv .left, hclear.binary.1⟩⟩
  | right hrun =>
      exact ⟨_, _, h.behindExpr hF h.linked.1 hrun h.linked.2
        ⟨rctx, _, hF.next hv .right, hclear.binary.2⟩⟩
  | callee => exact ⟨_, _, h.first h.linked.1 ⟨rctx, s, hF.next hv .callee, hclear.call.1⟩⟩
  | arguments hrun =>
      exact ⟨_, _, h.behindExpr hF h.linked.1 hrun h.linked.2
        ⟨rctx, _, hF.next hv .arguments, hclear.call.2⟩⟩
  | object => exact ⟨_, _, h.first h.linked ⟨rctx, s, hF.next hv .object, hclear.get⟩⟩
  | inner => exact ⟨_, _, h.first h.linked ⟨rctx, s, hF.next hv .inner, hclear.grouping⟩⟩
  | logicalLeft =>
      exact ⟨_, _, h.first h.linked.1 ⟨rctx, s, hF.next hv .logicalLeft, hclear.logical.1⟩⟩
  | logicalRight hrun _ =>
      exact ⟨_, _, h.behindExpr hF h.linked.1 hrun h.linked.2
        ⟨rctx, _, hF.next hv .logicalRight, hclear.logical.2⟩⟩
  | setObject =>
      exact ⟨_, _, h.first h.linked.1 ⟨rctx, _, hF.next hv .setObject, hclear.set.2⟩⟩
  | setValue hrun =>
      exact ⟨_, _, h.behindExpr hF h.linked.1 hrun h.linked.2
        ⟨rctx, s, hF.next hv .setValue, hclear.set.1⟩⟩
  | operand => exact ⟨_, _, h.first h.linked ⟨rctx, s, hF.next hv .operand, hclear.unary⟩⟩
  | firstExpr =>
      exact ⟨_, _, h.first h.linked.1 ⟨rctx, s, hF.next hv .firstExpr, hclear.consExprs.1⟩⟩
  | moreExprs hrun =>
      exact ⟨_, _, h.behindExpr hF h.linked.1 hrun h.linked.2
        ⟨rctx, _, hF.next hv .moreExprs, hclear.consExprs.2⟩⟩
  | body hcallee harguments hinvokes hparams henter hbody =>
      exact h.called hF hcallee harguments hinvokes hparams henter hbody
  | superclass =>
      exact ⟨_, _, h.first h.linked.2.2.1 ⟨rctx, _, hF.next hv .superclass, hclear.derived.1⟩⟩
  | expression =>
      exact ⟨_, _, h.first h.linked ⟨rctx, s, hF.next hv .expression, hclear.expression⟩⟩
  | print => exact ⟨_, _, h.first h.linked ⟨rctx, s, hF.next hv .print, hclear.print⟩⟩
  | block hrun =>
      rcases (behaves_enter h.sound h.chain frameBinds_empty (frameApart_empty _)).ok hrun with
        ⟨hsound, -, hchain⟩
      exact ⟨_, _, hsound, hchain, h.linked, rctx, _, hF.next hv .block, hclear.block⟩
  | condition =>
      exact ⟨_, _, h.first (Stmt.Linked.branch h.linked).1
        ⟨rctx, s, hF.next hv .condition, hclear.condition⟩⟩
  | thenBranch hrun _ =>
      obtain rfl := hclear.eq_none
      have hlinked := Stmt.Linked.branch h.linked
      exact ⟨_, _, h.behindExpr hF hlinked.1 hrun hlinked.2
        ⟨rctx, _, hF.next hv .thenBranch, hclear.thenBranch⟩⟩
  | elseBranch hrun _ =>
      obtain rfl := hclear.eq_none
      exact ⟨_, _, h.behindExpr hF h.linked.1 hrun h.linked.2.2.1
        ⟨rctx, _, hF.next hv .elseBranch, hclear.ifElse.2.2⟩⟩
  | returned =>
      exact ⟨_, _, h.first h.linked ⟨rctx, _, hF.next hv .returned, hclear.returned⟩⟩
  | initializer =>
      exact ⟨_, _, h.first h.linked.2.2 ⟨rctx, _, hF.next hv .initializer, hclear.initializer⟩⟩
  | loopCondition =>
      exact ⟨_, _, h.first h.linked.1 ⟨rctx, s, hF.next hv .loopCondition, hclear.whileLoop.1⟩⟩
  | loopBody hrun _ =>
      obtain rfl := hclear.eq_none
      exact ⟨_, _, h.behindExpr hF h.linked.1 hrun h.linked.2.1
        ⟨rctx, _, hF.next hv .loopBody, hclear.whileLoop.2⟩⟩
  | @turn n env condition body m m₁ m₂ v hcondition _ hbody =>
      obtain rfl := hclear.eq_none
      have hturn : Tracked V A ⟨n, env, .stmt body, m₁⟩ none Γ :=
        h.behindExpr hF h.linked.1 hcondition h.linked.2.1
          ⟨rctx, _, hF.next hv .loopBody, hclear.whileLoop.2⟩
      have hagain : Tracked V A ⟨n, env, .stmt (.whileLoop condition body), m₂⟩ none
          (body.after Γ) := by
        refine hturn.behindStmt hF h.linked.2.1 hbody (.inl rfl) ?_ ?_
        · rw [Stmt.after_eq h.linked.2.2]
          exact h.linked
        · rw [Stmt.after_eq h.linked.2.2]
          exact h.seen
      exact ⟨_, _, hagain⟩
  | firstStmt =>
      exact ⟨_, _, h.first h.linked.1 ⟨rctx, s, hF.next hv .firstStmt, hclear.consStmts.1⟩⟩
  | moreStmts hrun hflow =>
      exact ⟨_, _, h.behindStmt hF h.linked.1 hrun hflow h.linked.2
        ⟨rctx, _, hF.next hv .moreStmts, hclear.consStmts.2⟩⟩

/-- Whatever a run comes to is tracked, if its start is. -/
theorem leads (hF : Follow ctx V A) {t u : Task} (hleads : t.Leads ctx u)
    (h : t.Tracked V A self Γ) : ∃ own Γ', u.Tracked V A own Γ' := by
  induction hleads generalizing self Γ with
  | here => exact ⟨self, Γ, h⟩
  | next hnext _ ih =>
      rcases h.next hF hnext with ⟨own, Γ', hu⟩
      exact ih hu

end Task.Tracked

/-! ## Scopes and environments -/

/-- The scopes of a program and an environment that it runs in have as many parts, one for each: the
last part of the environment holds the globals, and every name that a scope declares as initialized
is bound in the part of the same number. The exception is a name that the innermost scope declares
too early. -/
structure Env.Mirrors (env : Env) (store : Store) (scopes : List Scope) (early : Option String) :
    Prop where
  top : env.ancestor scopes.length = .ok Machine.globals
  bound : ∀ (i : Nat) (scope : Scope) (x : String), scopes[i]? = some scope →
    scope.get? x = some true → ¬ (i = 0 ∧ early = some x) →
    ∃ ancestor v, env.ancestor i = .ok ancestor ∧ (store.frame ancestor.frame).get? x = some v

/-- The name of a class that is declared already, although its superclass comes first. -/
def Node.early? : Node → Option String
  | .superclass name _ => some name.lexeme
  | _ => none

/-- The distances at which a node itself reads or writes a variable. A use of `super` also reads
`this`, in the scope just inside. -/
def Node.distances (links : Links) : Node → List Nat
  | .expr (.assign id _ _) | .expr (.this id _) | .expr (.variable ⟨id, _⟩)
  | .superclass _ ⟨id, _⟩ => links[id]?.toList
  | .expr (.super id _ _) => links[id]?.toList.flatMap fun distance => [distance, distance - 1]
  | _ => []

/-- Layers that declare what scopes declare as initialized, one for each scope. -/
structure Covers (scopes : List Scope) (early : Option String) (Γ : List Layer) : Prop where
  length : scopes.length = Γ.length
  declares : ∀ (i : Nat) (scope : Scope) (x : String), scopes[i]? = some scope →
    scope.get? x = some true → ¬ (i = 0 ∧ early = some x) →
    ∃ l, Γ[i]? = some l ∧ l.declares x = true

namespace Covers

theorem cons {scope : Scope} {scopes : List Scope} {l : Layer} {Γ : List Layer}
    {early : Option String} (hscope : ∀ x, scope.get? x = some true → early ≠ some x →
      l.declares x = true) (h : Covers scopes none Γ) : Covers (scope :: scopes) early (l :: Γ) where
  length := congrArg (· + 1) h.length
  declares := by
    intro i scope' x hi hx hearly
    cases i with
    | zero =>
        cases hi
        exact ⟨l, rfl, hscope x hx fun heq => hearly ⟨rfl, heq⟩⟩
    | succ i => exact h.declares i scope' x hi hx fun hnone => nomatch hnone.2

/-- A name whose initializer is behind is declared in the layer. -/
theorem declares_of_shows {scope : Scope} {l : Layer} (h : ScopeShows scope l) {x : String}
    (hx : scope.get? x = some true) : l.declares x = true := by
  have hshows := h x
  rw [hx] at hshows
  split at hshows
  · assumption
  · cases hshows

theorem of_shows {scopes : List Scope} {Γ : List Layer} (h : Shows scopes Γ) :
    Covers scopes none Γ := by
  induction h with
  | nil => exact ⟨rfl, fun _ _ _ hi => nomatch hi⟩
  | cons hscope _ ih => exact ih.cons fun x hx _ => declares_of_shows hscope hx

theorem of_views {self : Option String} {scopes : List Scope} {Γ : List Layer}
    (h : Views self scopes Γ) : Covers scopes none Γ := by
  cases h with
  | plain hshows => exact of_shows hshows
  | @initializer x xs scope outer Γ _ _ hscope houter =>
      refine (of_shows houter).cons ?_
      intro y hy _
      -- The variable whose initializer this is has not been initialized.
      have hne : x ≠ y := by
        rintro rfl
        simp at hy
      rw [Bindings.get?_insert_of_ne _ _ hne] at hy
      exact declares_of_shows hscope hy

/-- A class that is declared early. -/
theorem of_add {scopes : List Scope} {Γ : List Layer} {x : String}
    (h : Shows scopes (add x Γ)) : Covers scopes (some x) Γ := by
  match Γ with
  | [] =>
      cases h
      exact ⟨rfl, fun _ _ _ hi => nomatch hi⟩
  | .names xs :: Γ =>
      cases h with
      | cons hscope houter =>
          refine (of_shows houter).cons ?_
          intro y hy hne
          have hdeclares := declares_of_shows hscope hy
          have hyx : y ≠ x := fun heq => hne (congrArg some heq.symm)
          simpa [Layer.declares, hyx] using hdeclares
  | .this :: Γ | .super :: Γ =>
      cases h with
      | cons hscope houter => exact (of_shows houter).cons fun y hy _ => declares_of_shows hscope hy

/-- In front of a visit without faults, whatever is initialized is declared in the layers. -/
theorem of_clear {v : Visit} {self : Option String} {Γ : List Layer} (h : v.Clear self Γ) :
    Covers v.state.scopes v.node.early? Γ := by
  cases h with
  | expr _ _ hready | exprs _ _ hready => exact of_views hready.scopes
  | stmt _ _ _ hready | stmts _ _ _ hready => exact of_shows hready.scopes
  | function _ _ hready | methods _ _ hready => exact of_shows hready.scopes
  | superclass hshows => exact of_add hshows

/-- What layers declare is bound in the frames that match them. -/
theorem mirrors {scopes : List Scope} {early : Option String} {Γ : List Layer} {env : Env}
    {store : Store} (h : Covers scopes early Γ) (hchain : Matches store env.chain Γ) :
    env.Mirrors store scopes early where
  top := by
    rw [h.length]
    exact hchain.ancestor_length
  bound := by
    intro i scope x hi hx hearly
    rcases h.declares i scope x hi hx hearly with ⟨l, hl, hdeclares⟩
    rcases hchain.ancestor hl with ⟨ancestor, hancestor, hframe, -⟩
    rcases hframe.binds.get? hdeclares with ⟨v, hv⟩
    exact ⟨ancestor, v, hancestor, hv⟩

end Covers

namespace Task.Tracked

variable {ctx : LoxLang.Context} {V : Visit → Prop} {A : Addresses} {t : Task}
  {self : Option String} {Γ : List Layer}

/-- No layer is that of the globals. -/
theorem ancestor_ne_globals (h : t.Tracked V A self Γ) {d : Nat} {l : Layer}
    (hd : Γ[d]? = some l) :
    ∃ ancestor, t.env.ancestor d = .ok ancestor ∧ ancestor.frame ≠ Machine.globals.frame := by
  rcases h.chain.ancestor hd with ⟨ancestor, hancestor, -, hne⟩
  exact ⟨ancestor, hancestor, hne⟩

/-- A name that is declared in some layer is found in a frame other than that of the globals. -/
theorem ancestor_of_depth (h : t.Tracked V A self Γ) {x : String} {d : Nat}
    (hd : depth? x Γ = some d) :
    ∃ ancestor, t.env.ancestor d = .ok ancestor ∧ ancestor.frame ≠ Machine.globals.frame := by
  rcases getElem?_of_depth? hd with ⟨l, hl, -⟩
  exact h.ancestor_ne_globals hl

/-- A variable at a distance is not a global. -/
theorem distances (hlinks : ∀ id, A.find id = ctx.links[id]?) (h : t.Tracked V A self Γ) :
    ∀ d ∈ t.node.distances ctx.links,
      ∃ ancestor, t.env.ancestor d = .ok ancestor ∧ ancestor.frame ≠ Machine.globals.frame := by
  intro d hd
  rcases t with ⟨n, env, node, m⟩
  -- A name that has been found is declared in one of the layers.
  have hread : ∀ {id : NodeId} {x : String}, A.Has id (depth? x Γ) → d ∈ ctx.links[id]?.toList →
      ∃ ancestor, env.ancestor d = .ok ancestor ∧ ancestor.frame ≠ Machine.globals.frame := by
    intro id x hid hd
    rw [← hlinks id, hid.find_eq, Option.mem_toList] at hd
    exact h.ancestor_of_depth hd
  cases node with
  | superclass name ref => exact hread h.linked hd
  | expr e =>
      cases e with
      | «variable» ref => exact hread h.linked hd
      | assign id name value =>
          rcases h.linked with ⟨-, -, hid⟩
          by_cases hown : self = some name.lexeme
          · -- The assignment is to the variable that is being initialized, in the innermost frame.
            rcases h.seen with ⟨_, _, _, hclear⟩
            have hne := hclear.ne_nil (by rw [hown]; exact Option.some_ne_none _)
            rw [if_pos hown] at hid
            have hzero : d ∈ ctx.links[id]?.toList := hd
            rw [← hlinks id, hid.find_eq, Option.mem_toList] at hzero
            obtain rfl := Option.some.inj hzero
            exact h.ancestor_ne_globals (List.getElem?_eq_getElem (List.length_pos_iff.2 hne))
          · rw [if_neg hown] at hid
            exact hread hid hd
      | this id keyword =>
          rcases h.linked with ⟨-, d', hid, hthis⟩
          rw [← hthis.1] at hid
          exact hread hid hd
      | super id keyword method =>
          rcases h.linked with ⟨d', hid, hthis, hsuper⟩
          have hlink : ctx.links[id]? = some (d' + 1) := (hlinks id).symm.trans hid.find_eq
          simp only [Node.distances, hlink, Option.toList_some, List.flatMap_cons, List.flatMap_nil,
            List.append_nil, List.mem_cons, List.not_mem_nil, or_false,
            Nat.add_sub_cancel] at hd
          rcases hd with rfl | rfl
          · exact h.ancestor_ne_globals hsuper.2
          · exact h.ancestor_ne_globals hthis.2
      | _ => cases hd
  | _ => cases hd

end Task.Tracked

end LoxLang
