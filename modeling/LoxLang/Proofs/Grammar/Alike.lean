import LoxLang.Proofs.Scope.Linked

/-!
# Trees that differ in their tokens and numbers

Two trees of one shape, with the same literals.

* `Expr.Alike T R` and `Stmt.Alike T R`: the tokens of the two trees are related by `T`, and the
  numbers that an address may be looked up for by `R`. Of what is declared only the spelling has to
  be the same.
* `mono`: both relations may be weakened.
* `restrict`: in a linked tree, the numbers have every property that the linked range has.
-/

namespace LoxLang

/-- Two tokens that are spelled alike and mean the same. -/
structure Token.SameWord (t t' : Token) : Prop where
  kind : t'.kind = t.kind
  lexeme : t'.lexeme = t.lexeme

/-! ## Expressions -/

mutual

inductive Expr.Alike (T : Token → Token → Prop) (R : NodeId → NodeId → Prop) :
    Expr → Expr → Prop where
  | assign {id id' : NodeId} {name name' : Token} {value value' : Expr} :
      R id id' → T name name' → Expr.Alike T R value value' →
      Expr.Alike T R (.assign id name value) (.assign id' name' value')
  | binary {id id' : NodeId} {left left' right right' : Expr} {operator operator' : Token} :
      Expr.Alike T R left left' → T operator operator' → Expr.Alike T R right right' →
      Expr.Alike T R (.binary id left operator right) (.binary id' left' operator' right')
  | call {id id' : NodeId} {callee callee' : Expr} {paren paren' : Token}
      {arguments arguments' : List Expr} :
      Expr.Alike T R callee callee' → T paren paren' →
      Expr.AllAlike T R arguments arguments' →
      Expr.Alike T R (.call id callee paren arguments) (.call id' callee' paren' arguments')
  | get {id id' : NodeId} {object object' : Expr} {name name' : Token} :
      Expr.Alike T R object object' → T name name' →
      Expr.Alike T R (.get id object name) (.get id' object' name')
  | grouping {id id' : NodeId} {inner inner' : Expr} :
      Expr.Alike T R inner inner' → Expr.Alike T R (.grouping id inner) (.grouping id' inner')
  | literal {id id' : NodeId} {value : Literal} :
      Expr.Alike T R (.literal id value) (.literal id' value)
  | logical {id id' : NodeId} {left left' right right' : Expr} {operator operator' : Token} :
      Expr.Alike T R left left' → T operator operator' → Expr.Alike T R right right' →
      Expr.Alike T R (.logical id left operator right) (.logical id' left' operator' right')
  | set {id id' : NodeId} {object object' value value' : Expr} {name name' : Token} :
      Expr.Alike T R object object' → T name name' → Expr.Alike T R value value' →
      Expr.Alike T R (.set id object name value) (.set id' object' name' value')
  | super {id id' : NodeId} {keyword keyword' method method' : Token} :
      R id id' → T keyword keyword' → T method method' →
      Expr.Alike T R (.super id keyword method) (.super id' keyword' method')
  | this {id id' : NodeId} {keyword keyword' : Token} :
      R id id' → T keyword keyword' → Expr.Alike T R (.this id keyword) (.this id' keyword')
  | unary {id id' : NodeId} {operator operator' : Token} {right right' : Expr} :
      T operator operator' → Expr.Alike T R right right' →
      Expr.Alike T R (.unary id operator right) (.unary id' operator' right')
  | variable {id id' : NodeId} {name name' : Token} :
      R id id' → T name name' → Expr.Alike T R (.variable ⟨id, name⟩) (.variable ⟨id', name'⟩)

inductive Expr.AllAlike (T : Token → Token → Prop) (R : NodeId → NodeId → Prop) :
    List Expr → List Expr → Prop where
  | nil : Expr.AllAlike T R [] []
  | cons {e e' : Expr} {es es' : List Expr} :
      Expr.Alike T R e e' → Expr.AllAlike T R es es' → Expr.AllAlike T R (e :: es) (e' :: es')

end

/-! ## Statements -/

mutual

inductive Stmt.Alike (T : Token → Token → Prop) (R : NodeId → NodeId → Prop) :
    Stmt → Stmt → Prop where
  | block {body body' : List Stmt} :
      Stmt.AllAlike T R body body' → Stmt.Alike T R (.block body) (.block body')
  | classDecl {name name' : Token} {methods methods' : List FunctionDecl} :
      T name name' → FunctionDecl.AllAlike T R methods methods' →
      Stmt.Alike T R (.classDecl name none methods) (.classDecl name' none methods')
  | subclass {id id' : NodeId} {name name' parent parent' : Token}
      {methods methods' : List FunctionDecl} :
      T name name' → R id id' → T parent parent' → FunctionDecl.AllAlike T R methods methods' →
      Stmt.Alike T R (.classDecl name (some ⟨id, parent⟩) methods)
        (.classDecl name' (some ⟨id', parent'⟩) methods')
  | expression {e e' : Expr} :
      Expr.Alike T R e e' → Stmt.Alike T R (.expression e) (.expression e')
  | function {decl decl' : FunctionDecl} :
      FunctionDecl.Alike T R decl decl' → Stmt.Alike T R (.function decl) (.function decl')
  | ifOnly {condition condition' : Expr} {thenBranch thenBranch' : Stmt} :
      Expr.Alike T R condition condition' → Stmt.Alike T R thenBranch thenBranch' →
      Stmt.Alike T R (.ifElse condition thenBranch none) (.ifElse condition' thenBranch' none)
  | ifElse {condition condition' : Expr} {thenBranch thenBranch' elseBranch elseBranch' : Stmt} :
      Expr.Alike T R condition condition' → Stmt.Alike T R thenBranch thenBranch' →
      Stmt.Alike T R elseBranch elseBranch' →
      Stmt.Alike T R (.ifElse condition thenBranch (some elseBranch))
        (.ifElse condition' thenBranch' (some elseBranch'))
  | print {e e' : Expr} : Expr.Alike T R e e' → Stmt.Alike T R (.print e) (.print e')
  | returnValue {keyword keyword' : Token} {value value' : Option Expr} :
      T keyword keyword' → Option.Rel (Expr.Alike T R) value value' →
      Stmt.Alike T R (.returnValue keyword value) (.returnValue keyword' value')
  | varDecl {name name' : Token} {value value' : Option Expr} :
      name'.lexeme = name.lexeme → Option.Rel (Expr.Alike T R) value value' →
      Stmt.Alike T R (.varDecl name value) (.varDecl name' value')
  | whileLoop {condition condition' : Expr} {body body' : Stmt} :
      Expr.Alike T R condition condition' → Stmt.Alike T R body body' →
      Stmt.Alike T R (.whileLoop condition body) (.whileLoop condition' body')

inductive Stmt.AllAlike (T : Token → Token → Prop) (R : NodeId → NodeId → Prop) :
    List Stmt → List Stmt → Prop where
  | nil : Stmt.AllAlike T R [] []
  | cons {s s' : Stmt} {ss ss' : List Stmt} :
      Stmt.Alike T R s s' → Stmt.AllAlike T R ss ss' → Stmt.AllAlike T R (s :: ss) (s' :: ss')

inductive FunctionDecl.Alike (T : Token → Token → Prop) (R : NodeId → NodeId → Prop) :
    FunctionDecl → FunctionDecl → Prop where
  | mk {name name' : Token} {params params' : List Token} {body body' : List Stmt} :
      name'.lexeme = name.lexeme → params'.map Token.lexeme = params.map Token.lexeme →
      Stmt.AllAlike T R body body' →
      FunctionDecl.Alike T R ⟨name, params, body⟩ ⟨name', params', body'⟩

inductive FunctionDecl.AllAlike (T : Token → Token → Prop) (R : NodeId → NodeId → Prop) :
    List FunctionDecl → List FunctionDecl → Prop where
  | nil : FunctionDecl.AllAlike T R [] []
  | cons {decl decl' : FunctionDecl} {decls decls' : List FunctionDecl} :
      FunctionDecl.Alike T R decl decl' → FunctionDecl.AllAlike T R decls decls' →
      FunctionDecl.AllAlike T R (decl :: decls) (decl' :: decls')

end

/-! ## Weaker relations -/

section Mono

variable {T T' : Token → Token → Prop} {R R' : NodeId → NodeId → Prop}

mutual

/-- Trees that are alike for two relations are so for weaker ones. -/
theorem Expr.Alike.mono (hT : ∀ t t', T t t' → T' t t')
    (hR : ∀ id id', R id id' → R' id id') {e e' : Expr} :
    Expr.Alike T R e e' → Expr.Alike T' R' e e'
  | .assign hid hname hvalue => .assign (hR _ _ hid) (hT _ _ hname) (hvalue.mono hT hR)
  | .binary hleft hop hright => .binary (hleft.mono hT hR) (hT _ _ hop) (hright.mono hT hR)
  | .call hcallee hparen hargs => .call (hcallee.mono hT hR) (hT _ _ hparen) (hargs.mono hT hR)
  | .get hobject hname => .get (hobject.mono hT hR) (hT _ _ hname)
  | .grouping h => .grouping (h.mono hT hR)
  | .literal => .literal
  | .logical hleft hop hright => .logical (hleft.mono hT hR) (hT _ _ hop) (hright.mono hT hR)
  | .set hobject hname hvalue => .set (hobject.mono hT hR) (hT _ _ hname) (hvalue.mono hT hR)
  | .super hid hkeyword hmethod => .super (hR _ _ hid) (hT _ _ hkeyword) (hT _ _ hmethod)
  | .this hid hkeyword => .this (hR _ _ hid) (hT _ _ hkeyword)
  | .unary hop h => .unary (hT _ _ hop) (h.mono hT hR)
  | .variable hid hname => .variable (hR _ _ hid) (hT _ _ hname)

theorem Expr.AllAlike.mono (hT : ∀ t t', T t t' → T' t t')
    (hR : ∀ id id', R id id' → R' id id')
    {es es' : List Expr} : Expr.AllAlike T R es es' → Expr.AllAlike T' R' es es'
  | .nil => .nil
  | .cons h hs => .cons (h.mono hT hR) (hs.mono hT hR)

end

theorem Expr.Alike.rel_mono (hT : ∀ t t', T t t' → T' t t')
    (hR : ∀ id id', R id id' → R' id id')
    {e e' : Option Expr} (h : Option.Rel (Expr.Alike T R) e e') :
    Option.Rel (Expr.Alike T' R') e e' := by
  cases h with
  | none => exact .none
  | some h => exact .some (h.mono hT hR)

mutual

/-- The same for statements, by induction on the evidence that they are alike. -/
theorem Stmt.Alike.mono (hT : ∀ t t', T t t' → T' t t')
    (hR : ∀ id id', R id id' → R' id id') {s s' : Stmt} :
    Stmt.Alike T R s s' → Stmt.Alike T' R' s s'
  | .block h => .block (h.mono hT hR)
  | .classDecl hname h => .classDecl (hT _ _ hname) (h.mono hT hR)
  | .subclass hname hid hparent h =>
      .subclass (hT _ _ hname) (hR _ _ hid) (hT _ _ hparent) (h.mono hT hR)
  | .expression h => .expression (h.mono hT hR)
  | .function h => .function (h.mono hT hR)
  | .ifOnly hcondition h => .ifOnly (hcondition.mono hT hR) (h.mono hT hR)
  | .ifElse hcondition h h' => .ifElse (hcondition.mono hT hR) (h.mono hT hR) (h'.mono hT hR)
  | .print h => .print (h.mono hT hR)
  | .returnValue hkeyword h => .returnValue (hT _ _ hkeyword) (Expr.Alike.rel_mono hT hR h)
  | .varDecl hname h => .varDecl hname (Expr.Alike.rel_mono hT hR h)
  | .whileLoop hcondition h => .whileLoop (hcondition.mono hT hR) (h.mono hT hR)

theorem Stmt.AllAlike.mono (hT : ∀ t t', T t t' → T' t t')
    (hR : ∀ id id', R id id' → R' id id')
    {ss ss' : List Stmt} : Stmt.AllAlike T R ss ss' → Stmt.AllAlike T' R' ss ss'
  | .nil => .nil
  | .cons h hs => .cons (h.mono hT hR) (hs.mono hT hR)

theorem FunctionDecl.Alike.mono (hT : ∀ t t', T t t' → T' t t')
    (hR : ∀ id id', R id id' → R' id id')
    {decl decl' : FunctionDecl} :
    FunctionDecl.Alike T R decl decl' → FunctionDecl.Alike T' R' decl decl'
  | .mk hname hparams h => .mk hname hparams (h.mono hT hR)

theorem FunctionDecl.AllAlike.mono (hT : ∀ t t', T t t' → T' t t')
    (hR : ∀ id id', R id id' → R' id id')
    {decls decls' : List FunctionDecl} :
    FunctionDecl.AllAlike T R decls decls' → FunctionDecl.AllAlike T' R' decls decls'
  | .nil => .nil
  | .cons h hs => .cons (h.mono hT hR) (hs.mono hT hR)

end

end Mono

/-! ## Linked trees -/

section Restrict

variable {T : Token → Token → Prop} {R R' : NodeId → NodeId → Prop} {A : Addresses}

/-- Linked numbers that are related by `R` are also related by `R'`. -/
def Addresses.Refines (A : Addresses) (R R' : NodeId → NodeId → Prop) : Prop :=
  ∀ id id' distance, A.Has id distance → R id id' → R' id id'

mutual

/-- In a tree that is linked, numbers have to be related only where the table is asked for them. -/
theorem Expr.Alike.restrict (hA : A.Refines R R') {Γ : List Layer}
    {self : Option String} {e e' : Expr} :
    Expr.Alike T R e e' → e.Linked A Γ self → Expr.Alike T R' e e'
  | .assign hid hname hvalue, h => .assign (hA _ _ _ h.2.2 hid) hname (hvalue.restrict hA h.1)
  | .binary hleft hop hright, h => .binary (hleft.restrict hA h.1) hop (hright.restrict hA h.2)
  | .call hcallee hparen hargs, h =>
      .call (hcallee.restrict hA h.1) hparen (hargs.restrict hA h.2)
  | .get hobject hname, h => .get (hobject.restrict hA h) hname
  | .grouping hinner, h => .grouping (hinner.restrict hA h)
  | .literal, _ => .literal
  | .logical hleft hop hright, h => .logical (hleft.restrict hA h.1) hop (hright.restrict hA h.2)
  | .set hobject hname hvalue, h => .set (hobject.restrict hA h.1) hname (hvalue.restrict hA h.2)
  | .super hid hkeyword hmethod, ⟨_, hhas, _⟩ => .super (hA _ _ _ hhas hid) hkeyword hmethod
  | .this hid hkeyword, ⟨_, _, hhas, _⟩ => .this (hA _ _ _ hhas hid) hkeyword
  | .unary hop hright, h => .unary hop (hright.restrict hA h)
  | .variable hid hname, h => .variable (hA _ _ _ h hid) hname

theorem Expr.AllAlike.restrict (hA : A.Refines R R') {Γ : List Layer}
    {self : Option String} {es es' : List Expr} :
    Expr.AllAlike T R es es' → Expr.AllLinked A Γ self es → Expr.AllAlike T R' es es'
  | .nil, _ => .nil
  | .cons h hs, hlinked => .cons (h.restrict hA hlinked.1) (hs.restrict hA hlinked.2)

end

mutual

/-- Linked statements that are alike are so for the relation of what the table says. -/
theorem Stmt.Alike.restrict (hA : A.Refines R R') {Γ : List Layer}
    {s s' : Stmt} : Stmt.Alike T R s s' → s.Linked A Γ → Stmt.Alike T R' s s'
  | .block hbody, h => .block (hbody.restrict hA h)
  | .classDecl hname hmethods, h => .classDecl hname (hmethods.restrict hA h.2.2)
  | .subclass hname hid hparent hmethods, h =>
      .subclass hname (hA _ _ _ h.2.2.1 hid) hparent (hmethods.restrict hA h.2.2.2)
  | .expression he, h => .expression (he.restrict hA h)
  | .function hdecl, h => .function (hdecl.restrict hA h.2.2)
  | .ifOnly hcondition hthen, h =>
      .ifOnly (hcondition.restrict hA h.1) (hthen.restrict hA h.2.1)
  | .ifElse hcondition hthen helse, h =>
      .ifElse (hcondition.restrict hA h.1) (hthen.restrict hA h.2.1.1) (helse.restrict hA h.2.2.1)
  | .print he, h => .print (he.restrict hA h)
  | .returnValue hkeyword .none, _ => .returnValue hkeyword .none
  | .returnValue hkeyword (.some he), h => .returnValue hkeyword (.some (he.restrict hA h))
  | .varDecl hname .none, _ => .varDecl hname .none
  | .varDecl hname (.some he), h => .varDecl hname (.some (he.restrict hA h.2.2))
  | .whileLoop hcondition hbody, h =>
      .whileLoop (hcondition.restrict hA h.1) (hbody.restrict hA h.2.1)

theorem Stmt.AllAlike.restrict (hA : A.Refines R R') {Γ : List Layer}
    {ss ss' : List Stmt} :
    Stmt.AllAlike T R ss ss' → Stmt.AllLinked A Γ ss → Stmt.AllAlike T R' ss ss'
  | .nil, _ => .nil
  | .cons h hs, hlinked => .cons (h.restrict hA hlinked.1) (hs.restrict hA hlinked.2)

theorem FunctionDecl.Alike.restrict (hA : A.Refines R R')
    {Γ : List Layer} {decl decl' : FunctionDecl} :
    FunctionDecl.Alike T R decl decl' → decl.Linked A Γ → FunctionDecl.Alike T R' decl decl'
  | .mk hname hparams hbody, h => .mk hname hparams (hbody.restrict hA h.2.2.1)

theorem FunctionDecl.AllAlike.restrict (hA : A.Refines R R')
    {Γ : List Layer} {decls decls' : List FunctionDecl} :
    FunctionDecl.AllAlike T R decls decls' → FunctionDecl.AllLinked A Γ decls →
    FunctionDecl.AllAlike T R' decls decls'
  | .nil, _ => .nil
  | .cons h hs, hlinked => .cons (h.restrict hA hlinked.1) (hs.restrict hA hlinked.2)

end

end Restrict

end LoxLang
