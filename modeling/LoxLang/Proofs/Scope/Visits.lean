import LoxLang.Proofs.Scope.Resolution

/-!
# Visits of the resolver

With which scopes the resolver comes to the single parts of a program.

* A `Node` is a part of a program that is walked over by itself, and a `Visit` is the moment at
  which the walk comes to one, with the scopes that surround it.
* `Visit.Next`: the walk over a node goes on to one of its parts. `Visit.Leads` is any number of
  such steps.
* `Visit.Clear v self Γ`: the scopes at the visit are those of the layers `Γ`, and no fault is found
  behind it. It is handed on from a node to its parts, with the layers that they add.
* `linked_stmts`: in a program that is linked, every function is one that has been visited with the
  layers that it is linked in.
-/

namespace LoxLang

/-- A part of a program that is walked over, or run, by itself. -/
inductive Node where
  | expr (e : Expr)
  | exprs (es : List Expr)
  | stmt (st : Stmt)
  | stmts (ss : List Stmt)
  /-- What a class of some name is to inherit from. -/
  | superclass (name : Token) (ref : Reference)
  | function (decl : FunctionDecl)
  | methods (decls : List FunctionDecl)

def Node.id? : Node → Option NodeId
  | .expr e => some e.id
  | .superclass _ ref => some ref.id
  | _ => none

namespace Resolver

open Layer

/-- The moment at which a walk comes to a node. -/
structure Visit where
  context : Context
  node : Node
  state : State

/-- The state in which a scope has just been entered. -/
def State.enter (s : State) (scope : Scope) : State := { s with scopes := scope :: s.scopes }

/-! ## The order of visits -/

/-- The walk over a node goes on to one of its parts. -/
inductive Visit.Next : Visit → Visit → Prop where
  | assigned {ctx : Context} {id : NodeId} {name : Token} {value : Expr} {s : State} :
      Next ⟨ctx, .expr (.assign id name value), s⟩ ⟨ctx, .expr value, s⟩
  | left {ctx : Context} {id : NodeId} {left right : Expr} {operator : Token} {s : State} :
      Next ⟨ctx, .expr (.binary id left operator right), s⟩ ⟨ctx, .expr left, s⟩
  | right {ctx : Context} {id : NodeId} {left right : Expr} {operator : Token} {s : State} :
      Next ⟨ctx, .expr (.binary id left operator right), s⟩
        ⟨ctx, .expr right, (expr ctx left s).2⟩
  | callee {ctx : Context} {id : NodeId} {callee : Expr} {paren : Token} {arguments : List Expr}
      {s : State} :
      Next ⟨ctx, .expr (.call id callee paren arguments), s⟩ ⟨ctx, .expr callee, s⟩
  | arguments {ctx : Context} {id : NodeId} {callee : Expr} {paren : Token}
      {arguments : List Expr} {s : State} :
      Next ⟨ctx, .expr (.call id callee paren arguments), s⟩
        ⟨ctx, .exprs arguments, (expr ctx callee s).2⟩
  | object {ctx : Context} {id : NodeId} {object : Expr} {name : Token} {s : State} :
      Next ⟨ctx, .expr (.get id object name), s⟩ ⟨ctx, .expr object, s⟩
  | inner {ctx : Context} {id : NodeId} {inner : Expr} {s : State} :
      Next ⟨ctx, .expr (.grouping id inner), s⟩ ⟨ctx, .expr inner, s⟩
  | logicalLeft {ctx : Context} {id : NodeId} {left right : Expr} {operator : Token} {s : State} :
      Next ⟨ctx, .expr (.logical id left operator right), s⟩ ⟨ctx, .expr left, s⟩
  | logicalRight {ctx : Context} {id : NodeId} {left right : Expr} {operator : Token} {s : State} :
      Next ⟨ctx, .expr (.logical id left operator right), s⟩
        ⟨ctx, .expr right, (expr ctx left s).2⟩
  | setValue {ctx : Context} {id : NodeId} {object value : Expr} {name : Token} {s : State} :
      Next ⟨ctx, .expr (.set id object name value), s⟩ ⟨ctx, .expr value, s⟩
  | setObject {ctx : Context} {id : NodeId} {object value : Expr} {name : Token} {s : State} :
      Next ⟨ctx, .expr (.set id object name value), s⟩
        ⟨ctx, .expr object, (expr ctx value s).2⟩
  | operand {ctx : Context} {id : NodeId} {operator : Token} {right : Expr} {s : State} :
      Next ⟨ctx, .expr (.unary id operator right), s⟩ ⟨ctx, .expr right, s⟩
  | firstExpr {ctx : Context} {e : Expr} {es : List Expr} {s : State} :
      Next ⟨ctx, .exprs (e :: es), s⟩ ⟨ctx, .expr e, s⟩
  | moreExprs {ctx : Context} {e : Expr} {es : List Expr} {s : State} :
      Next ⟨ctx, .exprs (e :: es), s⟩ ⟨ctx, .exprs es, (expr ctx e s).2⟩
  | block {ctx : Context} {body : List Stmt} {s : State} :
      Next ⟨ctx, .stmt (.block body), s⟩ ⟨ctx, .stmts body, s.enter .empty⟩
  | classBody {ctx : Context} {name : Token} {methods : List FunctionDecl} {s : State} :
      Next ⟨ctx, .stmt (.classDecl name none methods), s⟩
        ⟨{ ctx with classKind := .base }, .methods methods, (introduce name s).2.enter thisScope⟩
  | superclass {ctx : Context} {name : Token} {ref : Reference} {methods : List FunctionDecl}
      {s : State} :
      Next ⟨ctx, .stmt (.classDecl name (some ref) methods), s⟩
        ⟨ctx, .superclass name ref, (checkInheritance name ref (introduce name s).2).2⟩
  | derivedBody {ctx : Context} {name : Token} {ref : Reference} {methods : List FunctionDecl}
      {s : State} :
      Next ⟨ctx, .stmt (.classDecl name (some ref) methods), s⟩
        ⟨{ ctx with classKind := .derived }, .methods methods,
          ((read ctx ref (checkInheritance name ref (introduce name s).2).2).2.enter
            superScope).enter thisScope⟩
  | expression {ctx : Context} {e : Expr} {s : State} :
      Next ⟨ctx, .stmt (.expression e), s⟩ ⟨ctx, .expr e, s⟩
  | print {ctx : Context} {e : Expr} {s : State} :
      Next ⟨ctx, .stmt (.print e), s⟩ ⟨ctx, .expr e, s⟩
  | declared {ctx : Context} {decl : FunctionDecl} {s : State} :
      Next ⟨ctx, .stmt (.function decl), s⟩
        ⟨{ ctx with function := .function }, .function decl, (introduce decl.name s).2⟩
  | condition {ctx : Context} {condition : Expr} {thenBranch : Stmt} {elseBranch : Option Stmt}
      {s : State} :
      Next ⟨ctx, .stmt (.ifElse condition thenBranch elseBranch), s⟩ ⟨ctx, .expr condition, s⟩
  | thenBranch {ctx : Context} {condition : Expr} {thenBranch : Stmt} {elseBranch : Option Stmt}
      {s : State} :
      Next ⟨ctx, .stmt (.ifElse condition thenBranch elseBranch), s⟩
        ⟨ctx, .stmt thenBranch, (expr ctx condition s).2⟩
  | elseBranch {ctx : Context} {condition : Expr} {thenBranch elseBranch : Stmt} {s : State} :
      Next ⟨ctx, .stmt (.ifElse condition thenBranch (some elseBranch)), s⟩
        ⟨ctx, .stmt elseBranch, (stmt ctx thenBranch (expr ctx condition s).2).2⟩
  | returned {ctx : Context} {keyword : Token} {e : Expr} {s : State} :
      Next ⟨ctx, .stmt (.returnValue keyword (some e)), s⟩
        ⟨ctx, .expr e, (checkReturn ctx keyword (some e) s).2⟩
  | initializer {ctx : Context} {name : Token} {e : Expr} {s : State} :
      Next ⟨ctx, .stmt (.varDecl name (some e)), s⟩ ⟨ctx, .expr e, (declare name s).2⟩
  | loopCondition {ctx : Context} {condition : Expr} {body : Stmt} {s : State} :
      Next ⟨ctx, .stmt (.whileLoop condition body), s⟩ ⟨ctx, .expr condition, s⟩
  | loopBody {ctx : Context} {condition : Expr} {body : Stmt} {s : State} :
      Next ⟨ctx, .stmt (.whileLoop condition body), s⟩
        ⟨ctx, .stmt body, (expr ctx condition s).2⟩
  | firstStmt {ctx : Context} {st : Stmt} {ss : List Stmt} {s : State} :
      Next ⟨ctx, .stmts (st :: ss), s⟩ ⟨ctx, .stmt st, s⟩
  | moreStmts {ctx : Context} {st : Stmt} {ss : List Stmt} {s : State} :
      Next ⟨ctx, .stmts (st :: ss), s⟩ ⟨ctx, .stmts ss, (stmt ctx st s).2⟩
  | body {ctx : Context} {decl : FunctionDecl} {s : State} :
      Next ⟨ctx, .function decl, s⟩
        ⟨ctx, .stmts decl.body, (parameters decl.params (s.enter .empty)).2⟩
  | firstMethod {ctx : Context} {decl : FunctionDecl} {decls : List FunctionDecl} {s : State} :
      Next ⟨ctx, .methods (decl :: decls), s⟩
        ⟨{ ctx with function := methodKind decl.name }, .function decl, s⟩
  | moreMethods {ctx : Context} {decl : FunctionDecl} {decls : List FunctionDecl} {s : State} :
      Next ⟨ctx, .methods (decl :: decls), s⟩
        ⟨ctx, .methods decls, (function { ctx with function := methodKind decl.name } decl s).2⟩

/-- One visit in the course of another one. -/
inductive Visit.Leads : Visit → Visit → Prop where
  | here {v : Visit} : Leads v v
  | next {u v w : Visit} : u.Next v → Leads v w → Leads u w

theorem Visit.Leads.trans {u v w : Visit} (h : u.Leads v) (h' : v.Leads w) : u.Leads w := by
  induction h with
  | here => exact h'
  | next hnext _ ih => exact .next hnext (ih h')

/-- The visit of a whole program, given the globals that have a value before it runs. -/
def Visit.program (statements : List Stmt) (knownGlobals : List String) : Visit :=
  ⟨⟨.none, .none⟩, .stmts statements, start knownGlobals⟩

/-! ## Clear visits -/

/-- All that a walk over a range of numbers needs to find the distances of its names. -/
structure Ready (pre : List Scope → Prop) (i j : Nat) (walk : Resolver Unit) (s : State) :
    Prop where
  scopes : pre s.scopes
  unlinked : Unlinked s i j
  quiet : Quiet walk s

namespace Ready

variable {pre mid : List Scope → Prop} {first next i j k l : Nat} {walk rest : Resolver Unit}
  {s : State} {L : Addresses → Prop} {Γ : List Layer}

/-- What is ready for a range is ready for every part of it. -/
theorem mono (h : Ready pre first next walk s) (hi : first ≤ i) (hj : j ≤ next) :
    Ready pre i j walk s := ⟨h.scopes, h.unlinked.mono hi hj, h.quiet⟩

/-- The first of two walks. -/
theorem left (h : Ready pre first next (walk >>= fun _ => rest) s) (hwalk : Adds walk)
    (hrest : Adds rest) (hi : first ≤ i) (hj : j ≤ next) : Ready pre i j walk s :=
  ⟨h.scopes, h.unlinked.mono hi hj, (h.quiet.of_bind hwalk hrest).1⟩

/-- The second of two walks, whose ranges are apart. -/
theorem right (h : Ready pre first next (walk >>= fun _ => rest) s)
    (hresolves : Resolves pre mid i j walk L) (hwalk : Adds walk) (hrest : Adds rest)
    (hapart : j ≤ k ∨ l ≤ i) (hi : first ≤ i) (hk : first ≤ k) (hj : j ≤ next) (hl : l ≤ next) :
    Ready mid k l rest (walk s).2 := by
  have hquiet := h.quiet.of_bind hwalk hrest
  rcases hresolves s h.scopes (h.unlinked.mono hi hj) hquiet.1 with ⟨hmid, henters⟩
  exact ⟨hmid, henters.links.unlinked (h.unlinked.mono hk hl) hapart, hquiet.2⟩

/-- The second of two walks, of which the first one enters nothing. -/
theorem behind (h : Ready pre i j (walk >>= fun _ => rest) s)
    (hresolves : Resolves pre mid i i walk L) (hwalk : Adds walk) (hrest : Adds rest)
    (hij : i ≤ j) : Ready mid i j rest (walk s).2 :=
  h.right hresolves hwalk hrest (.inl (Nat.le_refl i)) (Nat.le_refl i) (Nat.le_refl i) hij
    (Nat.le_refl j)

/-- Two walks over parts that are apart, in whichever order they are numbered. -/
theorem apart {P Q : NodeId → NodeId → Prop} (h : Ready pre i j (walk >>= fun _ => rest) s)
    (hapart : Apart P Q i j) (hresolves : ∀ {i j : Nat}, P i j → Resolves pre mid i j walk L)
    (hwalk : Adds walk) (hrest : Adds rest) (hP : ∀ {i j}, P i j → i ≤ j)
    (hQ : ∀ {i j}, Q i j → i ≤ j) :
    (∃ i j, P i j ∧ Ready pre i j walk s) ∧ ∃ i j, Q i j ∧ Ready mid i j rest (walk s).2 := by
  rcases hapart with ⟨k, ⟨hfirst, hsecond⟩ | ⟨hsecond, hfirst⟩⟩
  · exact ⟨⟨i, k, hfirst, h.left hwalk hrest (Nat.le_refl i) (hQ hsecond)⟩, k, j, hsecond,
      h.right (hresolves hfirst) hwalk hrest (.inl (Nat.le_refl k)) (Nat.le_refl i) (hP hfirst)
        (hQ hsecond) (Nat.le_refl j)⟩
  · exact ⟨⟨k, j, hfirst, h.left hwalk hrest (hQ hsecond) (Nat.le_refl j)⟩, i, k, hsecond,
      h.right (hresolves hfirst) hwalk hrest (.inr (Nat.le_refl k)) (hQ hsecond) (Nat.le_refl i)
        (Nat.le_refl j) (hP hfirst)⟩

/-- A walk inside a scope of its own. -/
theorem enter {scope : Scope} {layer : Layer}
    (h : Ready (Shows · Γ) i j (inScope scope walk) s) (hscope : ScopeShows scope layer) :
    Ready (Shows · (layer :: Γ)) i j walk (s.enter scope) :=
  ⟨.cons hscope h.scopes, h.unlinked, h.quiet⟩

end Ready

/-- A visit with the scopes of some layers, behind which no fault is found. -/
inductive Visit.Clear : Visit → Option String → List Layer → Prop where
  | expr {ctx : Context} {e : Expr} {s : State} {self : Option String} {Γ : List Layer}
      {i j : NodeId} :
      Fits ctx.classKind Γ → e.Formed i j → Ready (Views self · Γ) i j (expr ctx e) s →
      Clear ⟨ctx, .expr e, s⟩ self Γ
  | exprs {ctx : Context} {es : List Expr} {s : State} {self : Option String} {Γ : List Layer}
      {i j : NodeId} :
      Fits ctx.classKind Γ → Expr.AllFormed es i j →
      Ready (Views self · Γ) i j (exprs ctx es) s → Clear ⟨ctx, .exprs es, s⟩ self Γ
  | stmt {ctx : Context} {st : Stmt} {s : State} {Γ : List Layer} {i j : NodeId} :
      Open Γ → Fits ctx.classKind Γ → st.Formed i j → Ready (Shows · Γ) i j (stmt ctx st) s →
      Clear ⟨ctx, .stmt st, s⟩ none Γ
  | stmts {ctx : Context} {ss : List Stmt} {s : State} {Γ : List Layer} {i j : NodeId} :
      Open Γ → Fits ctx.classKind Γ → Stmt.AllFormed ss i j →
      Ready (Shows · Γ) i j (stmts ctx ss) s → Clear ⟨ctx, .stmts ss, s⟩ none Γ
  /-- The class is declared by then, which it is not when the superclass is evaluated. -/
  | superclass {ctx : Context} {name : Token} {ref : Reference} {s : State} {Γ : List Layer} :
      Shows s.scopes (add name.lexeme Γ) → Clear ⟨ctx, .superclass name ref, s⟩ none Γ
  | function {ctx : Context} {decl : FunctionDecl} {s : State} {Γ : List Layer} {i j : NodeId} :
      Fits ctx.classKind Γ → decl.Formed i j →
      Ready (Shows · Γ) i j (function ctx decl) s → Clear ⟨ctx, .function decl, s⟩ none Γ
  | methods {ctx : Context} {decls : List FunctionDecl} {s : State} {Γ : List Layer}
      {i j : NodeId} :
      Fits ctx.classKind Γ → FunctionDecl.AllFormed decls i j →
      Ready (Shows · Γ) i j (methods ctx decls) s → Clear ⟨ctx, .methods decls, s⟩ none Γ

namespace Visit.Clear

variable {ctx : Context} {s : State} {self : Option String} {Γ : List Layer} {id : NodeId}

/-! ### Expressions -/

/-- The value of an assignment is visited without an error, if the assignment is. -/
theorem assigned {name : Token} {value : Expr}
    (h : Clear ⟨ctx, .expr (.assign id name value), s⟩ self Γ) :
    Clear ⟨ctx, .expr value, s⟩ self Γ := by
  cases h with
  | expr hfits hformed hready =>
      rcases hformed with ⟨-, hvalue, hid⟩
      exact .expr hfits hvalue (hready.left (Mild.expr ctx value).adds (Mild.link _ _).adds
        (Nat.le_refl _) (Nat.le_of_lt hid))

/-- The two operands of an operator, in the order in which they are numbered. -/
theorem operands {left right : Expr} {i j k : NodeId} (hfits : Fits ctx.classKind Γ)
    (hleft : left.Formed i k) (hright : right.Formed k id) (hid : id < j)
    (hready : Ready (Views self · Γ) i j (Resolver.expr ctx left >>= fun _ => Resolver.expr ctx right)
      s) :
    Clear ⟨ctx, .expr left, s⟩ self Γ ∧
      Clear ⟨ctx, .expr right, (Resolver.expr ctx left s).2⟩ self Γ := by
  have hadds := (Mild.expr ctx left).adds
  have hadds' := (Mild.expr ctx right).adds
  have hkj : k ≤ j := Nat.le_trans hright.le (Nat.le_of_lt hid)
  refine ⟨.expr hfits hleft (hready.left hadds hadds' (Nat.le_refl i) hkj), ?_⟩
  exact .expr hfits hright (hready.right (resolves_expr ctx self hfits left hleft) hadds hadds'
    (.inl (Nat.le_refl k)) (Nat.le_refl i) hleft.le hkj (Nat.le_of_lt hid))

/-- The right operand is visited where the left one has left the walk. -/
theorem binary {left right : Expr} {operator : Token}
    (h : Clear ⟨ctx, .expr (.binary id left operator right), s⟩ self Γ) :
    Clear ⟨ctx, .expr left, s⟩ self Γ ∧
      Clear ⟨ctx, .expr right, (Resolver.expr ctx left s).2⟩ self Γ := by
  cases h with
  | expr hfits hformed hready =>
      rcases hformed with ⟨k, hleft, hright, hid⟩
      exact operands hfits hleft hright hid hready

theorem logical {left right : Expr} {operator : Token}
    (h : Clear ⟨ctx, .expr (.logical id left operator right), s⟩ self Γ) :
    Clear ⟨ctx, .expr left, s⟩ self Γ ∧
      Clear ⟨ctx, .expr right, (Resolver.expr ctx left s).2⟩ self Γ := by
  cases h with
  | expr hfits hformed hready =>
      rcases hformed with ⟨k, hleft, hright, hid⟩
      exact operands hfits hleft hright hid hready

theorem call {callee : Expr} {paren : Token} {arguments : List Expr}
    (h : Clear ⟨ctx, .expr (.call id callee paren arguments), s⟩ self Γ) :
    Clear ⟨ctx, .expr callee, s⟩ self Γ ∧
      Clear ⟨ctx, .exprs arguments, (Resolver.expr ctx callee s).2⟩ self Γ := by
  cases h with
  | @expr _ _ _ _ _ i j hfits hformed hready =>
      rcases hformed with ⟨k, hcallee, harguments, hid⟩
      have hadds := (Mild.expr ctx callee).adds
      have hadds' := (Mild.exprs ctx arguments).adds
      have hkj : k ≤ j := Nat.le_trans (Expr.le_of_allFormed harguments) (Nat.le_of_lt hid)
      refine ⟨.expr hfits hcallee (hready.left hadds hadds' (Nat.le_refl i) hkj), ?_⟩
      exact .exprs hfits harguments (hready.right (resolves_expr ctx self hfits callee hcallee)
        hadds hadds' (.inl (Nat.le_refl k)) (Nat.le_refl i) hcallee.le hkj (Nat.le_of_lt hid))

/-- The value is walked over first, although its numbers are the later ones. -/
theorem set {object value : Expr} {name : Token}
    (h : Clear ⟨ctx, .expr (.set id object name value), s⟩ self Γ) :
    Clear ⟨ctx, .expr value, s⟩ self Γ ∧
      Clear ⟨ctx, .expr object, (Resolver.expr ctx value s).2⟩ self Γ := by
  cases h with
  | @expr _ _ _ _ _ i j hfits hformed hready =>
      rcases hformed with ⟨k, hobject, hvalue, hid⟩
      have hadds := (Mild.expr ctx value).adds
      have hadds' := (Mild.expr ctx object).adds
      have hkj : k ≤ j := Nat.le_trans hvalue.le (Nat.le_of_lt hid)
      refine ⟨.expr hfits hvalue (hready.left hadds hadds' hobject.le (Nat.le_of_lt hid)), ?_⟩
      exact .expr hfits hobject (hready.right (resolves_expr ctx self hfits value hvalue) hadds
        hadds' (.inr (Nat.le_refl k)) hobject.le (Nat.le_refl i) (Nat.le_of_lt hid) hkj)

theorem get {object : Expr} {name : Token} (h : Clear ⟨ctx, .expr (.get id object name), s⟩ self Γ) :
    Clear ⟨ctx, .expr object, s⟩ self Γ := by
  cases h with
  | expr hfits hformed hready =>
      exact .expr hfits hformed.1 (hready.mono (Nat.le_refl _) (Nat.le_of_lt hformed.2))

theorem grouping {inner : Expr} (h : Clear ⟨ctx, .expr (.grouping id inner), s⟩ self Γ) :
    Clear ⟨ctx, .expr inner, s⟩ self Γ := by
  cases h with
  | expr hfits hformed hready =>
      exact .expr hfits hformed.1 (hready.mono (Nat.le_refl _) (Nat.le_of_lt hformed.2))

theorem unary {operator : Token} {right : Expr}
    (h : Clear ⟨ctx, .expr (.unary id operator right), s⟩ self Γ) :
    Clear ⟨ctx, .expr right, s⟩ self Γ := by
  cases h with
  | expr hfits hformed hready =>
      exact .expr hfits hformed.1 (hready.mono (Nat.le_refl _) (Nat.le_of_lt hformed.2))

theorem consExprs {e : Expr} {es : List Expr} (h : Clear ⟨ctx, .exprs (e :: es), s⟩ self Γ) :
    Clear ⟨ctx, .expr e, s⟩ self Γ ∧
      Clear ⟨ctx, .exprs es, (Resolver.expr ctx e s).2⟩ self Γ := by
  cases h with
  | @exprs _ _ _ _ _ i j hfits hformed hready =>
      rcases hformed with ⟨k, he, hes⟩
      have hadds := (Mild.expr ctx e).adds
      have hadds' := (Mild.exprs ctx es).adds
      have hkj := Expr.le_of_allFormed hes
      refine ⟨.expr hfits he (hready.left hadds hadds' (Nat.le_refl i) hkj), ?_⟩
      exact .exprs hfits hes (hready.right (resolves_expr ctx self hfits e he) hadds hadds'
        (.inl (Nat.le_refl k)) (Nat.le_refl i) he.le hkj (Nat.le_refl j))

/-! ### Statements -/

/-- A statement is no part of an initializer. -/
theorem eq_none {st : Stmt} (h : Clear ⟨ctx, .stmt st, s⟩ self Γ) : self = none := by
  cases h with
  | stmt _ _ _ _ => rfl

theorem plain {e : Expr} {i j : NodeId} (hfits : Fits ctx.classKind Γ) (he : e.Formed i j)
    (hready : Ready (Shows · Γ) i j (Resolver.expr ctx e) s) : Clear ⟨ctx, .expr e, s⟩ none Γ :=
  .expr hfits he ⟨.plain hready.scopes, hready.unlinked, hready.quiet⟩

theorem expression {e : Expr} (h : Clear ⟨ctx, .stmt (.expression e), s⟩ self Γ) :
    Clear ⟨ctx, .expr e, s⟩ none Γ := by
  cases h with
  | stmt _ hfits hformed hready => exact plain hfits hformed hready

theorem print {e : Expr} (h : Clear ⟨ctx, .stmt (.print e), s⟩ self Γ) :
    Clear ⟨ctx, .expr e, s⟩ none Γ := by
  cases h with
  | stmt _ hfits hformed hready => exact plain hfits hformed hready

theorem block {body : List Stmt} (h : Clear ⟨ctx, .stmt (.block body), s⟩ self Γ) :
    Clear ⟨ctx, .stmts body, s.enter .empty⟩ none (.names [] :: Γ) := by
  cases h with
  | stmt _ hfits hformed hready =>
      have hopen : Open (.names [] :: Γ) := trivial
      have hnone : ∀ x ∈ ([] : List String), IsName x := fun _ hx => by cases hx
      exact .stmts hopen (.names hnone hfits) hformed (hready.enter scopeShows_empty)

/-- The methods are visited inside the layer of `this`. -/
theorem classBody {name : Token} {methods : List FunctionDecl}
    (h : Clear ⟨ctx, .stmt (.classDecl name none methods), s⟩ self Γ) :
    Clear ⟨{ ctx with classKind := .base }, .methods methods, (introduce name s).2.enter thisScope⟩
      none (.this :: add name.lexeme Γ) := by
  cases h with
  | @stmt _ _ _ _ i _ hopen _ hformed hready =>
      rcases hformed with ⟨hname, hmethods⟩
      have hbody := hready.behind (resolves_introduce hopen i hname) (adds.introduce name)
        (adds.inScope _ (adds.methods _ methods)) (FunctionDecl.le_of_allFormed hmethods)
      exact .methods .base hmethods (hbody.enter scopeShows_this)

/-- With a superclass, the methods are visited inside the layers of `super` and `this`. -/
theorem derived {name : Token} {ref : Reference} {methods : List FunctionDecl}
    (h : Clear ⟨ctx, .stmt (.classDecl name (some ref) methods), s⟩ self Γ) :
    Clear ⟨ctx, .superclass name ref, (checkInheritance name ref (introduce name s).2).2⟩ none Γ ∧
      Clear ⟨{ ctx with classKind := .derived }, .methods methods,
        ((read ctx ref (checkInheritance name ref (introduce name s).2).2).2.enter
          superScope).enter thisScope⟩ none (.this :: .super :: add name.lexeme Γ) := by
  cases h with
  | @stmt _ _ _ _ i j hopen _ hformed hready =>
      rcases hformed with ⟨hname, k, href, hmethods⟩
      have hik : i ≤ k := Nat.le_trans href.1 (Nat.le_of_lt href.2)
      have hkj : k ≤ j := FunctionDecl.le_of_allFormed hmethods
      have hmethods' := adds.methods { ctx with classKind := .derived } methods
      have hbody := adds.inScope superScope (adds.inScope thisScope hmethods')
      have hrest : Adds (read ctx ref >>= fun _ => inScope superScope (inScope thisScope
        (Resolver.methods { ctx with classKind := .derived } methods))) :=
        (Mild.read ctx ref).adds.bind hbody
      -- The steps of the declaration, one after the other: the name, the check, the superclass, and
      -- the body with a range of its own behind that of the superclass.
      have hcheck := hready.behind (resolves_introduce hopen i hname) (adds.introduce name)
        ((Mild.checkInheritance name ref).adds.bind hrest) (Nat.le_trans hik hkj)
      have hread := hcheck.behind (resolves_checkInheritance name ref i)
        (Mild.checkInheritance name ref).adds hrest (Nat.le_trans hik hkj)
      have hwalk := hread.right (resolves_read ctx href) (Mild.read ctx ref).adds hbody
        (.inl (Nat.le_refl k)) (Nat.le_refl i) hik hkj (Nat.le_refl j)
      exact ⟨.superclass hread.scopes,
        .methods .derived hmethods ((hwalk.enter scopeShows_super).enter scopeShows_this)⟩

/-- The body of a function is visited with the name of the function declared. -/
theorem declared {decl : FunctionDecl} (h : Clear ⟨ctx, .stmt (.function decl), s⟩ self Γ) :
    Clear ⟨{ ctx with function := .function }, .function decl, (introduce decl.name s).2⟩ none
      (add decl.name.lexeme Γ) := by
  cases h with
  | @stmt _ _ _ _ i _ hopen hfits hformed hready =>
      rcases hformed with ⟨hname, hdecl⟩
      exact .function (hfits.add hname) hdecl (hready.behind (resolves_introduce hopen i hname)
        (adds.introduce decl.name) (adds.function _ decl) (FunctionDecl.le_of_formed hdecl))

/-- The branch is visited behind the condition, although the numbers may be given otherwise. -/
theorem ifThen {condition : Expr} {thenBranch : Stmt}
    (h : Clear ⟨ctx, .stmt (.ifElse condition thenBranch none), s⟩ self Γ) :
    Clear ⟨ctx, .expr condition, s⟩ none Γ ∧
      Clear ⟨ctx, .stmt thenBranch, (Resolver.expr ctx condition s).2⟩ none Γ := by
  cases h with
  | @stmt _ _ _ _ i j hopen hfits hformed hready =>
      rcases hformed with ⟨-, k, hcondition, hthen⟩
      have hadds := (Mild.expr ctx condition).adds
      have hadds' := adds.stmt ctx thenBranch
      have hkj := Stmt.le_of_formed hthen
      refine ⟨plain hfits hcondition (hready.left hadds hadds' (Nat.le_refl i) hkj), ?_⟩
      exact .stmt hopen hfits hthen (hready.right (resolves_plain ctx hfits condition hcondition)
        hadds hadds' (.inl (Nat.le_refl k)) (Nat.le_refl i) hcondition.le hkj (Nat.le_refl j))

theorem ifElse {condition : Expr} {thenBranch elseBranch : Stmt}
    (h : Clear ⟨ctx, .stmt (.ifElse condition thenBranch (some elseBranch)), s⟩ self Γ) :
    Clear ⟨ctx, .expr condition, s⟩ none Γ ∧
      Clear ⟨ctx, .stmt thenBranch, (Resolver.expr ctx condition s).2⟩ none Γ ∧
      Clear ⟨ctx, .stmt elseBranch,
        (Resolver.stmt ctx thenBranch (Resolver.expr ctx condition s).2).2⟩ none Γ := by
  cases h with
  | @stmt _ _ _ _ i j hopen hfits hformed hready =>
      rcases hformed with ⟨hdeclared, -, k, l, hcondition, hthen, helse⟩
      have hadds := (Mild.expr ctx condition).adds
      have hadds' := adds.stmt ctx thenBranch
      have hadds'' := adds.stmt ctx elseBranch
      have hkl := Stmt.le_of_formed hthen
      have hlj := Stmt.le_of_formed helse
      have hkj := Nat.le_trans hkl hlj
      have hbranches := hready.right (resolves_plain ctx hfits condition hcondition) hadds
        (hadds'.bind hadds'') (.inl (Nat.le_refl k)) (Nat.le_refl i) hcondition.le hkj
        (Nat.le_refl j)
      have hresolves := resolves_stmt ctx hopen hfits thenBranch hthen
      rw [Stmt.after_eq hdeclared] at hresolves
      refine ⟨plain hfits hcondition (hready.left hadds (hadds'.bind hadds'') (Nat.le_refl i) hkj),
        .stmt hopen hfits hthen (hbranches.left hadds' hadds'' (Nat.le_refl k) hlj), ?_⟩
      exact .stmt hopen hfits helse (hbranches.right hresolves hadds' hadds''
        (.inl (Nat.le_refl l)) (Nat.le_refl k) hkl hlj (Nat.le_refl j))

theorem condition {condition : Expr} {thenBranch : Stmt} {elseBranch : Option Stmt}
    (h : Clear ⟨ctx, .stmt (.ifElse condition thenBranch elseBranch), s⟩ self Γ) :
    Clear ⟨ctx, .expr condition, s⟩ none Γ := by
  cases elseBranch with
  | none => exact h.ifThen.1
  | some _ => exact h.ifElse.1

theorem thenBranch {condition : Expr} {thenBranch : Stmt} {elseBranch : Option Stmt}
    (h : Clear ⟨ctx, .stmt (.ifElse condition thenBranch elseBranch), s⟩ self Γ) :
    Clear ⟨ctx, .stmt thenBranch, (Resolver.expr ctx condition s).2⟩ none Γ := by
  cases elseBranch with
  | none => exact h.ifThen.2
  | some _ => exact h.ifElse.2.1

theorem returned {keyword : Token} {e : Expr}
    (h : Clear ⟨ctx, .stmt (.returnValue keyword (some e)), s⟩ self Γ) :
    Clear ⟨ctx, .expr e, (checkReturn ctx keyword (some e) s).2⟩ none Γ := by
  cases h with
  | @stmt _ _ _ _ i _ _ hfits hformed hready =>
      have hmild := Mild.checkReturn ctx keyword (some e)
      have hcheck : Resolves (Shows · Γ) (Shows · Γ) i i (checkReturn ctx keyword (some e)) _ :=
        .of_check hmild (links_checkReturn ctx keyword (some e)) i
      exact plain hfits hformed
        (hready.behind hcheck hmild.adds (Mild.expr ctx e).adds (Expr.Formed.le hformed))

/-- The initializer is visited while its own name is awaited. -/
theorem initializer {name : Token} {e : Expr}
    (h : Clear ⟨ctx, .stmt (.varDecl name (some e)), s⟩ self Γ) :
    Clear ⟨ctx, .expr e, (declare name s).2⟩ (Layer.self Γ name.lexeme) Γ := by
  cases h with
  | @stmt _ _ _ _ i _ hopen hfits hformed hready =>
      rcases hformed with ⟨hname, he⟩
      have hadds := (Mild.expr ctx e).adds
      have hvalue := hready.behind (resolves_declare hopen i hname) (Adds.declare name)
        (hadds.bind (Adds.define name)) he.le
      exact .expr hfits he (hvalue.left hadds (Adds.define name) (Nat.le_refl i) (Nat.le_refl _))

theorem whileLoop {condition : Expr} {body : Stmt}
    (h : Clear ⟨ctx, .stmt (.whileLoop condition body), s⟩ self Γ) :
    Clear ⟨ctx, .expr condition, s⟩ none Γ ∧
      Clear ⟨ctx, .stmt body, (Resolver.expr ctx condition s).2⟩ none Γ := by
  cases h with
  | stmt hopen hfits hformed hready =>
      rcases hready.apart hformed.2 (resolves_plain ctx hfits condition)
        (Mild.expr ctx condition).adds (adds.stmt ctx body) Expr.Formed.le Stmt.le_of_formed with
        ⟨⟨i, j, hcondition, hready⟩, i', j', hbody, hready'⟩
      exact ⟨plain hfits hcondition hready, .stmt hopen hfits hbody hready'⟩

/-- The statements behind are visited with what this one declares. -/
theorem consStmts {st : Stmt} {ss : List Stmt} (h : Clear ⟨ctx, .stmts (st :: ss), s⟩ self Γ) :
    Clear ⟨ctx, .stmt st, s⟩ none Γ ∧
      Clear ⟨ctx, .stmts ss, (Resolver.stmt ctx st s).2⟩ none (st.after Γ) := by
  cases h with
  | stmts hopen hfits hformed hready =>
      rcases hready.apart hformed (resolves_stmt ctx hopen hfits st) (adds.stmt ctx st)
        (adds.stmts ctx ss) Stmt.le_of_formed Stmt.le_of_allFormed with
        ⟨⟨i, j, hst, hready⟩, i', j', hss, hready'⟩
      exact ⟨.stmt hopen hfits hst hready,
        .stmts (hopen.after st) (hfits.after hst) hss hready'⟩

/-! ### Functions -/

/-- The body is visited with the parameters declared. -/
theorem body {decl : FunctionDecl} (h : Clear ⟨ctx, .function decl, s⟩ self Γ) :
    Clear ⟨ctx, .stmts decl.body, (parameters decl.params (s.enter .empty)).2⟩ none
      (.names (decl.params.map Token.lexeme) :: Γ) := by
  cases h with
  | @function _ _ _ _ i _ hfits hformed hready =>
      rcases decl with ⟨name, params, body⟩
      rcases hformed with ⟨hparams, hbody⟩
      have hopen : Open (.names (params.map Token.lexeme) :: Γ) := trivial
      exact .stmts hopen (hfits.params hparams) hbody ((hready.enter scopeShows_empty).behind
        (resolves_parameters i params hparams) (adds.parameters params) (adds.stmts ctx body)
        (Stmt.le_of_allFormed hbody))

theorem consMethods {decl : FunctionDecl} {decls : List FunctionDecl}
    (h : Clear ⟨ctx, .methods (decl :: decls), s⟩ self Γ) :
    Clear ⟨{ ctx with function := methodKind decl.name }, .function decl, s⟩ none Γ ∧
      Clear ⟨ctx, .methods decls,
        (Resolver.function { ctx with function := methodKind decl.name } decl s).2⟩ none Γ := by
  cases h with
  | @methods _ _ _ _ i j hfits hformed hready =>
      rcases hformed with ⟨k, hdecl, hdecls⟩
      have hadds := adds.function { ctx with function := methodKind decl.name } decl
      have hadds' := adds.methods ctx decls
      have hkj := FunctionDecl.le_of_allFormed hdecls
      have hresolves := resolves_function { ctx with function := methodKind decl.name } hfits decl
        hdecl
      refine ⟨.function hfits hdecl (hready.left hadds hadds' (Nat.le_refl i) hkj), ?_⟩
      exact .methods hfits hdecls (hready.right hresolves hadds hadds' (.inl (Nat.le_refl k))
        (Nat.le_refl i) (FunctionDecl.le_of_formed hdecl) hkj (Nat.le_refl j))

end Visit.Clear

/-- A program that is resolved without a fault is clear from the start. -/
theorem Visit.clear_program {statements : List Stmt} {knownGlobals : List String} {i j : NodeId}
    (hformed : Stmt.AllFormed statements i j) (h : (resolve statements knownGlobals).errors = []) :
    (Visit.program statements knownGlobals).Clear none [] := by
  have hlength := congrArg List.length h
  simp only [resolve, List.length_mergeSort, List.length_append, List.length_nil] at hlength
  have hopen : Open [] := trivial
  have hunlinked : Unlinked (start knownGlobals) i j := by
    intro id _ _
    change (∅ : Links)[id]? = none
    simp
  exact .stmts hopen .none hformed
    ⟨.nil, hunlinked, Nat.le_of_eq (Nat.eq_zero_of_add_eq_zero_right hlength)⟩

end Resolver

/-! ## Functions that have been visited -/

open Resolver Layer

/-- One of some visits is that of a node inside some layers. -/
def Node.Seen (V : Visit → Prop) (self : Option String) (Γ : List Layer) (node : Node) : Prop :=
  ∃ ctx s, V ⟨ctx, node, s⟩ ∧ Visit.Clear ⟨ctx, node, s⟩ self Γ

namespace Resolver

/-- Addresses that know the functions among some visits, with those visits all that follow. -/
structure Visit.Taught (V : Visit → Prop) (A A' : Addresses) : Prop where
  next : ∀ {v w : Visit}, V v → v.Next w → V w
  within : A.Within A'
  known : ∀ Γ decl, (Node.function decl).Seen V none Γ → A'.known Γ decl

variable {V : Visit → Prop} {A A' : Addresses}

mutual

/-- By induction on the statement: what a walk has learned of its visits links the statement by
another table. -/
theorem linked_stmt (hT : Visit.Taught V A A') : ∀ (st : Stmt) {ctx : Context} {s : State}
    {Γ : List Layer}, V ⟨ctx, .stmt st, s⟩ → Visit.Clear ⟨ctx, .stmt st, s⟩ none Γ →
    st.Linked A Γ → st.Linked A' Γ
  -- What is visited inside a statement is linked by what was learned there; what is not visited
  -- again keeps its links, as the table only grows.
  | .block body, _, _, _, hv, hclear, h => by
      have hbody := hT.next hv .block
      exact linked_stmts hT body hbody hclear.block h
  | .classDecl _ none methods, _, _, _, hv, hclear, ⟨hname, hfresh, hmethods⟩ => by
      have hbody := hT.next hv .classBody
      have hmethods' := linked_methods hT methods hbody hclear.classBody hmethods
      exact ⟨hname, hfresh, hmethods'⟩
  | .classDecl _ (some _) methods, _, _, _, hv, hclear, ⟨hname, hfresh, href, hmethods⟩ => by
      have hbody := hT.next hv .derivedBody
      have hmethods' := linked_methods hT methods hbody hclear.derived.2 hmethods
      exact ⟨hname, hfresh, hT.within href, hmethods'⟩
  | .expression e, _, _, _, _, _, h | .print e, _, _, _, _, _, h => Expr.linked_mono hT.within e h
  | .function decl, _, _, _, hv, hclear, ⟨hname, hfresh, hdecl⟩ => by
      have hbody := hT.next hv .declared
      have hdecl' := linked_function hT decl hbody hclear.declared hdecl
      exact ⟨hname, hfresh, hdecl'⟩
  | .ifElse condition thenBranch none, _, _, _, hv, hclear, ⟨hcondition, hthen, hdeclared⟩ => by
      have hcondition' := Expr.linked_mono hT.within condition hcondition
      have hbranch := hT.next hv .thenBranch
      have hthen' := linked_stmt hT thenBranch hbranch hclear.thenBranch hthen
      exact ⟨hcondition', hthen', hdeclared⟩
  | .ifElse condition thenBranch (some elseBranch), _, _, _, hv, hclear,
      ⟨hcondition, ⟨hthen, hdeclared⟩, helse, hdeclared'⟩ => by
      have hcondition' := Expr.linked_mono hT.within condition hcondition
      have hbranch := hT.next hv .thenBranch
      have hthen' := linked_stmt hT thenBranch hbranch hclear.thenBranch hthen
      have hbranch' := hT.next hv .elseBranch
      have helse' := linked_stmt hT elseBranch hbranch' hclear.ifElse.2.2 helse
      exact ⟨hcondition', ⟨hthen', hdeclared⟩, helse', hdeclared'⟩
  | .returnValue _ none, _, _, _, _, _, _ => trivial
  | .returnValue _ (some e), _, _, _, _, _, h => Expr.linked_mono hT.within e h
  | .varDecl _ none, _, _, _, _, _, h => h
  | .varDecl _ (some e), _, _, _, _, _, ⟨hname, hfresh, he⟩ =>
      ⟨hname, hfresh, Expr.linked_mono hT.within e he⟩
  | .whileLoop condition body, _, _, _, hv, hclear, ⟨hcondition, hbody, hdeclared⟩ => by
      have hcondition' := Expr.linked_mono hT.within condition hcondition
      have hloop := hT.next hv .loopBody
      have hbody' := linked_stmt hT body hloop hclear.whileLoop.2 hbody
      exact ⟨hcondition', hbody', hdeclared⟩

theorem linked_stmts (hT : Visit.Taught V A A') : ∀ (ss : List Stmt) {ctx : Context} {s : State}
    {Γ : List Layer}, V ⟨ctx, .stmts ss, s⟩ → Visit.Clear ⟨ctx, .stmts ss, s⟩ none Γ →
    Stmt.AllLinked A Γ ss → Stmt.AllLinked A' Γ ss
  | [], _, _, _, _, _, _ => trivial
  | st :: ss, _, _, _, hv, hclear, ⟨hst, hss⟩ => by
      have hfirst := hT.next hv .firstStmt
      have hmore := hT.next hv .moreStmts
      have hst' := linked_stmt hT st hfirst hclear.consStmts.1 hst
      exact ⟨hst', linked_stmts hT ss hmore hclear.consStmts.2 hss⟩

theorem linked_function (hT : Visit.Taught V A A') : ∀ (decl : FunctionDecl) {ctx : Context}
    {s : State} {Γ : List Layer}, V ⟨ctx, .function decl, s⟩ →
    Visit.Clear ⟨ctx, .function decl, s⟩ none Γ → decl.Linked A Γ → decl.Linked A' Γ
  | ⟨_, _, body⟩, ctx, s, _, hv, hclear, ⟨hparams, hnodup, hbody, _⟩ => by
      have hinside := hT.next hv .body
      have hbody' := linked_stmts hT body hinside hclear.body hbody
      exact ⟨hparams, hnodup, hbody', fun _ => hT.known _ _ ⟨ctx, s, hv, hclear⟩⟩

theorem linked_methods (hT : Visit.Taught V A A') : ∀ (decls : List FunctionDecl) {ctx : Context}
    {s : State} {Γ : List Layer}, V ⟨ctx, .methods decls, s⟩ →
    Visit.Clear ⟨ctx, .methods decls, s⟩ none Γ → FunctionDecl.AllLinked A Γ decls →
    FunctionDecl.AllLinked A' Γ decls
  | [], _, _, _, _, _, _ => trivial
  | decl :: decls, _, _, _, hv, hclear, ⟨hdecl, hdecls⟩ => by
      have hfirst := hT.next hv .firstMethod
      have hmore := hT.next hv .moreMethods
      have hdecl' := linked_function hT decl hfirst hclear.consMethods.1 hdecl
      exact ⟨hdecl', linked_methods hT decls hmore hclear.consMethods.2 hdecls⟩

end

end Resolver

end LoxLang
