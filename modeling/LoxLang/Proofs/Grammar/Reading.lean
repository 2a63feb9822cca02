import LoxLang.Syntax.Tree

/-!
# Readings

Which tree a list of tokens stands for, and how its expressions are numbered: `R ts i a j` says that
the tokens `ts` read as `a`, that the first number given out is `i`, and that `j` is the next one.

* `Precedence` is the table of the operators that associate to the left. An `or` or `and` makes a
  logical expression of its operands, every other operator a binary one; `=` associates to the
  right.
* What stands left of `=` is a name or a property. It has been given a number of its own before it
  became part of an assignment.
* An `else` belongs to the nearest `if` that has none: the first branch of an `if` with an `else`
  never ends in an `if` without one. The first argument of `Statement` tells whether it does.
* A `for` is a `while`, with the increment behind the body and the initializer in front of the loop.
* A call has at most 255 arguments, and a function as many parameters.

Nothing here depends on how programs are read.
-/

namespace LoxLang

namespace Reading

/-! ## Precedence -/

/-- The operators that associate to the left, by how tightly they bind. -/
inductive Precedence where
  | logicOr | logicAnd | equality | comparison | term | factor
  deriving DecidableEq

namespace Precedence

def all : List Precedence := [logicOr, logicAnd, equality, comparison, term, factor]

def operators : Precedence → List Kind
  | logicOr => [.orWord]
  | logicAnd => [.andWord]
  | equality => [.bangEqual, .equalEqual]
  | comparison => [.greater, .greaterEqual, .less, .lessEqual]
  | term => [.minus, .plus]
  | factor => [.slash, .star]

def node : Precedence → NodeId → Expr → Token → Expr → Expr
  | logicOr | logicAnd => .logical
  | equality | comparison | term | factor => .binary

end Precedence

/-! ## Expressions -/

mutual

inductive Expression : List Token → NodeId → Expr → NodeId → Prop where
  | plain {ts : List Token} {i j : NodeId} {e : Expr} :
      Operation Precedence.all ts i e j → Expression ts i e j
  | assign {name equals : Token} {ts : List Token} {i j : NodeId} {value : Expr} :
      name.kind = .identifier → equals.kind = .equal → Expression ts (i + 1) value j →
      Expression (name :: equals :: ts) i (.assign j name value) (j + 1)
  | set {dot name equals : Token} {ts us : List Token} {i j k : NodeId} {object value : Expr} :
      Call ts i object j → dot.kind = .dot → name.kind = .identifier → equals.kind = .equal →
      Expression us (j + 1) value k →
      Expression (ts ++ dot :: name :: equals :: us) i (.set k object name value) (k + 1)

inductive Operation : List Precedence → List Token → NodeId → Expr → NodeId → Prop where
  | unary {ts : List Token} {i j : NodeId} {e : Expr} :
      Unary ts i e j → Operation [] ts i e j
  | chain {p : Precedence} {tighter : List Precedence} {ts us : List Token} {i j k : NodeId}
      {left e : Expr} :
      Operation tighter ts i left j → Chain p tighter left us j e k →
      Operation (p :: tighter) (ts ++ us) i e k

/-- The operators of one precedence that follow a left operand. -/
inductive Chain :
    Precedence → List Precedence → Expr → List Token → NodeId → Expr → NodeId → Prop where
  | done {p : Precedence} {tighter : List Precedence} {left : Expr} {i : NodeId} :
      Chain p tighter left [] i left i
  | more {p : Precedence} {tighter : List Precedence} {operator : Token} {ts us : List Token}
      {i j k : NodeId} {left right e : Expr} :
      operator.kind ∈ p.operators → Operation tighter ts i right j →
      Chain p tighter (p.node j left operator right) us (j + 1) e k →
      Chain p tighter left (operator :: ts ++ us) i e k

inductive Unary : List Token → NodeId → Expr → NodeId → Prop where
  | operator {operator : Token} {ts : List Token} {i j : NodeId} {right : Expr} :
      operator.kind = .bang ∨ operator.kind = .minus → Unary ts i right j →
      Unary (operator :: ts) i (.unary j operator right) (j + 1)
  | call {ts : List Token} {i j : NodeId} {e : Expr} :
      Call ts i e j → Unary ts i e j

inductive Call : List Token → NodeId → Expr → NodeId → Prop where
  | mk {ts us : List Token} {i j k : NodeId} {callee e : Expr} :
      Primary ts i callee j → Calls callee us j e k → Call (ts ++ us) i e k

/-- The argument lists and property names that follow an expression. -/
inductive Calls : Expr → List Token → NodeId → Expr → NodeId → Prop where
  | done {callee : Expr} {i : NodeId} :
      Calls callee [] i callee i
  | call {openParen paren : Token} {ts us : List Token} {i j k : NodeId} {callee e : Expr}
      {arguments : List Expr} :
      openParen.kind = .leftParen → Arguments ts i arguments j → paren.kind = .rightParen →
      Calls (.call j callee paren arguments) us (j + 1) e k →
      Calls callee (openParen :: ts ++ paren :: us) i e k
  | get {dot name : Token} {ts : List Token} {i j : NodeId} {callee e : Expr} :
      dot.kind = .dot → name.kind = .identifier → Calls (.get i callee name) ts (i + 1) e j →
      Calls callee (dot :: name :: ts) i e j

inductive Arguments : List Token → NodeId → List Expr → NodeId → Prop where
  | none {i : NodeId} :
      Arguments [] i [] i
  | some {ts us : List Token} {i j k : NodeId} {e : Expr} {es : List Expr} :
      Expression ts i e j → MoreArguments [e] us j es k → Arguments (ts ++ us) i es k

/-- The arguments that follow those already read. -/
inductive MoreArguments : List Expr → List Token → NodeId → List Expr → NodeId → Prop where
  | done {es : List Expr} {i : NodeId} :
      MoreArguments es [] i es i
  | more {comma : Token} {ts us : List Token} {i j k : NodeId} {before es : List Expr}
      {e : Expr} :
      comma.kind = .comma → before.length < 255 → Expression ts i e j →
      MoreArguments (before ++ [e]) us j es k →
      MoreArguments before (comma :: ts ++ us) i es k

inductive Primary : List Token → NodeId → Expr → NodeId → Prop where
  | falseWord {t : Token} {i : NodeId} :
      t.kind = .falseWord → Primary [t] i (.literal i (.bool false)) (i + 1)
  | trueWord {t : Token} {i : NodeId} :
      t.kind = .trueWord → Primary [t] i (.literal i (.bool true)) (i + 1)
  | nilWord {t : Token} {i : NodeId} :
      t.kind = .nilWord → Primary [t] i (.literal i .nil) (i + 1)
  | number {t : Token} {i : NodeId} :
      t.kind = .number → Primary [t] i (.literal i t.literal) (i + 1)
  | string {t : Token} {i : NodeId} :
      t.kind = .string → Primary [t] i (.literal i t.literal) (i + 1)
  | this {t : Token} {i : NodeId} :
      t.kind = .thisWord → Primary [t] i (.this i t) (i + 1)
  | variable {t : Token} {i : NodeId} :
      t.kind = .identifier → Primary [t] i (.variable ⟨i, t⟩) (i + 1)
  | super {t dot method : Token} {i : NodeId} :
      t.kind = .superWord → dot.kind = .dot → method.kind = .identifier →
      Primary [t, dot, method] i (.super i t method) (i + 1)
  | grouping {openParen closeParen : Token} {ts : List Token} {i j : NodeId} {inner : Expr} :
      openParen.kind = .leftParen → Expression ts i inner j → closeParen.kind = .rightParen →
      Primary (openParen :: ts ++ [closeParen]) i (.grouping j inner) (j + 1)

end

/-! ## Operands and operators -/

/-- What is read at a tight level is read at every looser one, without an operator. -/
theorem Operation.looser {p : Precedence} {tighter : List Precedence} {ts : List Token}
    {i j : NodeId} {e : Expr} (h : Operation tighter ts i e j) :
    Operation (p :: tighter) ts i e j := by
  have hchain : Operation (p :: tighter) (ts ++ []) i e j := .chain h .done
  rwa [List.append_nil] at hchain

/-- What has no binary operator is read at every level. -/
theorem Operation.of_unary {ts : List Token} {i j : NodeId} {e : Expr} (h : Unary ts i e j) :
    ∀ ps, Operation ps ts i e j
  | [] => .unary h
  | _ :: tighter => (of_unary h tighter).looser

theorem Operation.of_call {ts : List Token} {i j : NodeId} {e : Expr} (h : Call ts i e j) :
    ∀ ps, Operation ps ts i e j := .of_unary (.call h)

theorem Call.of_name {name : Token} (i : NodeId) (h : name.kind = .identifier) :
    Call [name] i (.variable ⟨i, name⟩) (i + 1) := .mk (.variable h) .done

/-- The last operator of a chain applies to all that stands in front of it. -/
theorem Chain.snoc {p : Precedence} {tighter : List Precedence} {operator : Token}
    (hoperator : operator.kind ∈ p.operators) {us : List Token} {k l : NodeId} {right : Expr}
    (hright : Operation tighter us k right l) :
    ∀ {ts : List Token} {j : NodeId} {left e : Expr}, Chain p tighter left ts j e k →
    Chain p tighter left (ts ++ operator :: us) j (p.node l e operator right) (l + 1)
  | _, _, left, _, .done => by
      have hmore : Chain p tighter left (operator :: us ++ []) k
        (p.node l left operator right) (l + 1) := .more hoperator hright .done
      rwa [List.append_nil] at hmore
  | _, _, _, _, .more hfirst hoperand hrest => by
      have hmore := Chain.more hfirst hoperand (hrest.snoc hoperator hright)
      simpa using hmore

/-- An operator between a left operand that may hold operators as loose and a tighter right one. -/
theorem Operation.snoc {p : Precedence} {tighter : List Precedence} {operator : Token}
    {ts us : List Token} {i j k : NodeId} {left right : Expr}
    (hleft : Operation (p :: tighter) ts i left j) (hoperator : operator.kind ∈ p.operators)
    (hright : Operation tighter us j right k) :
    Operation (p :: tighter) (ts ++ operator :: us) i (p.node k left operator right) (k + 1) := by
  cases hleft with
  | chain hfirst hchain =>
      rw [List.append_assoc]
      exact .chain hfirst (hchain.snoc hoperator hright)

/-! ## Calls and properties -/

/-- One more call can be made of what has been read, although the reading goes from the left. -/
theorem Calls.snoc_call {openParen paren : Token} (hopen : openParen.kind = .leftParen)
    {us : List Token} {k l : NodeId} {arguments : List Expr} (harguments : Arguments us k arguments l)
    (hparen : paren.kind = .rightParen) :
    ∀ {ts : List Token} {j : NodeId} {callee e : Expr}, Calls callee ts j e k →
    Calls callee (ts ++ openParen :: (us ++ [paren])) j (.call l e paren arguments) (l + 1)
  | _, _, callee, _, .done => .call hopen harguments hparen .done
  | _, _, _, _, .call hopen' harguments' hparen' hrest => by
      have hmore := Calls.call hopen' harguments' hparen'
        (hrest.snoc_call hopen harguments hparen)
      simpa using hmore
  | _, _, _, _, .get hdot hname hrest =>
      .get hdot hname (hrest.snoc_call hopen harguments hparen)

/-- One more property can be taken of what has been read. -/
theorem Calls.snoc_get {dot name : Token} (hdot : dot.kind = .dot) (hname : name.kind = .identifier)
    {k : NodeId} :
    ∀ {ts : List Token} {j : NodeId} {callee e : Expr}, Calls callee ts j e k →
    Calls callee (ts ++ [dot, name]) j (.get k e name) (k + 1)
  | _, _, callee, _, .done => .get hdot hname .done
  | _, _, _, _, .call hopen harguments hparen hrest => by
      have hmore := Calls.call hopen harguments hparen (hrest.snoc_get hdot hname)
      simpa using hmore
  | _, _, _, _, .get hdot' hname' hrest => .get hdot' hname' (hrest.snoc_get hdot hname)

theorem Call.snoc_call {openParen paren : Token} (hopen : openParen.kind = .leftParen)
    {ts us : List Token} {i k l : NodeId} {e : Expr} (h : Call ts i e k) {arguments : List Expr}
    (harguments : Arguments us k arguments l) (hparen : paren.kind = .rightParen) :
    Call (ts ++ openParen :: (us ++ [paren])) i (.call l e paren arguments) (l + 1) := by
  cases h with
  | mk hprimary hcalls =>
      rw [List.append_assoc]
      exact .mk hprimary (hcalls.snoc_call hopen harguments hparen)

theorem Call.snoc_get {dot name : Token} (hdot : dot.kind = .dot) (hname : name.kind = .identifier)
    {ts : List Token} {i k : NodeId} {e : Expr} (h : Call ts i e k) :
    Call (ts ++ [dot, name]) i (.get k e name) (k + 1) := by
  cases h with
  | mk hprimary hcalls =>
      rw [List.append_assoc]
      exact .mk hprimary (hcalls.snoc_get hdot hname)

/-- An expression without an operator. -/
theorem Primary.call {ts : List Token} {i j : NodeId} {e : Expr} (h : Primary ts i e j) :
    Call ts i e j := by
  have hcall : Call (ts ++ []) i e j := .mk h .done
  rwa [List.append_nil] at hcall

/-! ## Clauses without a statement -/

inductive OptionalExpression : List Token → NodeId → Option Expr → NodeId → Prop where
  | none {i : NodeId} :
      OptionalExpression [] i none i
  | some {ts : List Token} {i j : NodeId} {e : Expr} :
      Expression ts i e j → OptionalExpression ts i (some e) j

inductive Initializer : List Token → NodeId → Option Expr → NodeId → Prop where
  | none {i : NodeId} :
      Initializer [] i none i
  | some {equals : Token} {ts : List Token} {i j : NodeId} {e : Expr} :
      equals.kind = .equal → Expression ts i e j → Initializer (equals :: ts) i (some e) j

/-- What follows `var`. -/
inductive VarDeclaration : List Token → NodeId → Stmt → NodeId → Prop where
  | mk {name mark : Token} {ts : List Token} {i j : NodeId} {value : Option Expr} :
      name.kind = .identifier → Initializer ts i value j → mark.kind = .semicolon →
      VarDeclaration (name :: ts ++ [mark]) i (.varDecl name value) j

inductive ExpressionStatement : List Token → NodeId → Stmt → NodeId → Prop where
  | mk {mark : Token} {ts : List Token} {i j : NodeId} {e : Expr} :
      Expression ts i e j → mark.kind = .semicolon →
      ExpressionStatement (ts ++ [mark]) i (.expression e) j

inductive ForInitializer : List Token → NodeId → Option Stmt → NodeId → Prop where
  | none {mark : Token} {i : NodeId} :
      mark.kind = .semicolon → ForInitializer [mark] i none i
  | variable {keyword : Token} {ts : List Token} {i j : NodeId} {s : Stmt} :
      keyword.kind = .varWord → VarDeclaration ts i s j →
      ForInitializer (keyword :: ts) i (some s) j
  | expression {ts : List Token} {i j : NodeId} {s : Stmt} :
      ExpressionStatement ts i s j → ForInitializer ts i (some s) j

/-- The parameters that follow those already read. -/
inductive MoreParameters : List Token → List Token → List Token → Prop where
  | done {params : List Token} :
      MoreParameters params [] params
  | more {comma param : Token} {before ts params : List Token} :
      comma.kind = .comma → before.length < 255 → param.kind = .identifier →
      MoreParameters (before ++ [param]) ts params →
      MoreParameters before (comma :: param :: ts) params

inductive Parameters : List Token → List Token → Prop where
  | none :
      Parameters [] []
  | some {first : Token} {ts params : List Token} :
      first.kind = .identifier → MoreParameters [first] ts params →
      Parameters (first :: ts) params

inductive Superclass : List Token → NodeId → Option Reference → NodeId → Prop where
  | none {i : NodeId} :
      Superclass [] i none i
  | some {less name : Token} {i : NodeId} :
      less.kind = .less → name.kind = .identifier →
      Superclass [less, name] i (some ⟨i, name⟩) (i + 1)

/-! ## Statements -/

/-- The body of a loop, with an increment behind it in a block of its own. -/
def withIncrement (body : Stmt) : Option Expr → Stmt
  | none => body
  | some increment => .block [body, .expression increment]

/-- A loop, with an initializer in front of it in a block around both. -/
def withInitializer (loop : Stmt) : Option Stmt → Stmt
  | none => loop
  | some initializer => .block [initializer, loop]

/-- The parser builds the same statement of a `for`. -/
theorem forLoop_eq (initializer : Option Stmt) (condition : Expr) (increment : Option Expr)
    (body : Stmt) : Stmt.forLoop initializer condition increment body =
      withInitializer (.whileLoop condition (withIncrement body increment)) initializer := by
  cases initializer <;> cases increment <;> rfl

mutual

inductive Declaration : List Token → NodeId → Stmt → NodeId → Prop where
  | classDecl {keyword name openBrace closeBrace : Token} {ts us : List Token} {i j k : NodeId}
      {superclass : Option Reference} {methods : List FunctionDecl} :
      keyword.kind = .classWord → name.kind = .identifier → Superclass ts i superclass j →
      openBrace.kind = .leftBrace → Methods us j methods k → closeBrace.kind = .rightBrace →
      Declaration (keyword :: name :: ts ++ openBrace :: us ++ [closeBrace]) i
        (.classDecl name superclass methods) k
  | function {keyword : Token} {ts : List Token} {i j : NodeId} {decl : FunctionDecl} :
      keyword.kind = .funWord → Function ts i decl j →
      Declaration (keyword :: ts) i (.function decl) j
  | variable {keyword : Token} {ts : List Token} {i j : NodeId} {s : Stmt} :
      keyword.kind = .varWord → VarDeclaration ts i s j → Declaration (keyword :: ts) i s j
  | statement {isOpen : Bool} {ts : List Token} {i j : NodeId} {s : Stmt} :
      Statement isOpen ts i s j → Declaration ts i s j

inductive Methods : List Token → NodeId → List FunctionDecl → NodeId → Prop where
  | nil {i : NodeId} :
      Methods [] i [] i
  | cons {ts us : List Token} {i j k : NodeId} {decl : FunctionDecl} {decls : List FunctionDecl} :
      Function ts i decl j → Methods us j decls k → Methods (ts ++ us) i (decl :: decls) k

inductive Function : List Token → NodeId → FunctionDecl → NodeId → Prop where
  | mk {name openParen closeParen openBrace closeBrace : Token} {ts us params : List Token}
      {i j : NodeId} {body : List Stmt} :
      name.kind = .identifier → openParen.kind = .leftParen → Parameters ts params →
      closeParen.kind = .rightParen → openBrace.kind = .leftBrace → Declarations us i body j →
      closeBrace.kind = .rightBrace →
      Function (name :: openParen :: ts ++ closeParen :: openBrace :: us ++ [closeBrace]) i
        ⟨name, params, body⟩ j

inductive Declarations : List Token → NodeId → List Stmt → NodeId → Prop where
  | nil {i : NodeId} :
      Declarations [] i [] i
  | cons {ts us : List Token} {i j k : NodeId} {s : Stmt} {ss : List Stmt} :
      Declaration ts i s j → Declarations us j ss k → Declarations (ts ++ us) i (s :: ss) k

/-- The first argument tells whether the statement ends in an `if` without an `else`. -/
inductive Statement : Bool → List Token → NodeId → Stmt → NodeId → Prop where
  | expression {ts : List Token} {i j : NodeId} {s : Stmt} :
      ExpressionStatement ts i s j → Statement false ts i s j
  | print {keyword mark : Token} {ts : List Token} {i j : NodeId} {e : Expr} :
      keyword.kind = .printWord → Expression ts i e j → mark.kind = .semicolon →
      Statement false (keyword :: ts ++ [mark]) i (.print e) j
  | returnValue {keyword mark : Token} {ts : List Token} {i j : NodeId} {value : Option Expr} :
      keyword.kind = .returnWord → OptionalExpression ts i value j → mark.kind = .semicolon →
      Statement false (keyword :: ts ++ [mark]) i (.returnValue keyword value) j
  | block {openBrace closeBrace : Token} {ts : List Token} {i j : NodeId} {body : List Stmt} :
      openBrace.kind = .leftBrace → Declarations ts i body j → closeBrace.kind = .rightBrace →
      Statement false (openBrace :: ts ++ [closeBrace]) i (.block body) j
  | whileLoop {isOpen : Bool} {keyword openParen closeParen : Token} {ts us : List Token}
      {i j k : NodeId} {condition : Expr} {body : Stmt} :
      keyword.kind = .whileWord → openParen.kind = .leftParen → Expression ts i condition j →
      closeParen.kind = .rightParen → Statement isOpen us j body k →
      Statement isOpen (keyword :: openParen :: ts ++ closeParen :: us) i
        (.whileLoop condition body) k
  | ifOnly {isOpen : Bool} {keyword openParen closeParen : Token} {ts us : List Token}
      {i j k : NodeId} {condition : Expr} {thenBranch : Stmt} :
      keyword.kind = .ifWord → openParen.kind = .leftParen → Expression ts i condition j →
      closeParen.kind = .rightParen → Statement isOpen us j thenBranch k →
      Statement true (keyword :: openParen :: ts ++ closeParen :: us) i
        (.ifElse condition thenBranch none) k
  | ifElse {isOpen : Bool} {keyword openParen closeParen elseWord : Token} {ts us vs : List Token}
      {i j k l : NodeId} {condition : Expr} {thenBranch elseBranch : Stmt} :
      keyword.kind = .ifWord → openParen.kind = .leftParen → Expression ts i condition j →
      closeParen.kind = .rightParen → Statement false us j thenBranch k →
      elseWord.kind = .elseWord → Statement isOpen vs k elseBranch l →
      Statement isOpen (keyword :: openParen :: ts ++ closeParen :: us ++ elseWord :: vs) i
        (.ifElse condition thenBranch (some elseBranch)) l
  | forLoop {isOpen : Bool} {keyword openParen mark closeParen : Token}
      {ts us vs ws : List Token} {i j k l m : NodeId} {initializer : Option Stmt}
      {condition : Expr} {increment : Option Expr} {body : Stmt} :
      keyword.kind = .forWord → openParen.kind = .leftParen → ForInitializer ts i initializer j →
      Expression us j condition k → mark.kind = .semicolon →
      OptionalExpression vs k increment l → closeParen.kind = .rightParen →
      Statement isOpen ws l body m →
      Statement isOpen (keyword :: openParen :: ts ++ us ++ mark :: vs ++ closeParen :: ws) i
        (withInitializer (.whileLoop condition (withIncrement body increment)) initializer) m
  /-- A condition that is left out is true, and gets its number behind the body. -/
  | forEver {isOpen : Bool} {keyword openParen mark closeParen : Token}
      {ts vs ws : List Token} {i j l m : NodeId} {initializer : Option Stmt}
      {increment : Option Expr} {body : Stmt} :
      keyword.kind = .forWord → openParen.kind = .leftParen → ForInitializer ts i initializer j →
      mark.kind = .semicolon → OptionalExpression vs j increment l →
      closeParen.kind = .rightParen → Statement isOpen ws l body m →
      Statement isOpen (keyword :: openParen :: ts ++ mark :: vs ++ closeParen :: ws) i
        (withInitializer (.whileLoop (.literal m (.bool true)) (withIncrement body increment))
          initializer) (m + 1)

end

end Reading

end LoxLang
