import LoxLang.Token.Basic

/-!
# Syntax trees

Programs as trees of expressions and statements.

* Every expression carries a `NodeId`, the number by which facts about it are kept; two expressions
  that read the same stay apart.
* `Expr` and `Stmt` are the trees; a `FunctionDecl` is a function or a method.
* `Stmt.forLoop` is the statement that a `for` stands for, built from a `while`.
-/

namespace LoxLang

/-- The number of an expression. -/
abbrev NodeId := Nat

/-- A numbered use of a name. -/
structure Reference where
  id : NodeId
  name : Token
  deriving DecidableEq, Inhabited

/-- Expressions. -/
inductive Expr where
  | assign (id : NodeId) (name : Token) (value : Expr)
  | binary (id : NodeId) (left : Expr) (operator : Token) (right : Expr)
  /-- A call; the closing parenthesis is where its errors are reported. -/
  | call (id : NodeId) (callee : Expr) (paren : Token) (arguments : List Expr)
  | get (id : NodeId) (object : Expr) (name : Token)
  | grouping (id : NodeId) (inner : Expr)
  | literal (id : NodeId) (value : Literal)
  | logical (id : NodeId) (left : Expr) (operator : Token) (right : Expr)
  | set (id : NodeId) (object : Expr) (name : Token) (value : Expr)
  | super (id : NodeId) (keyword method : Token)
  | this (id : NodeId) (keyword : Token)
  | unary (id : NodeId) (operator : Token) (right : Expr)
  | variable (ref : Reference)
  deriving Inhabited

def Expr.id : Expr → NodeId
  | .assign id .. | .binary id .. | .call id .. | .get id .. | .grouping id .. | .literal id ..
  | .logical id .. | .set id .. | .super id .. | .this id .. | .unary id .. => id
  | .variable ref => ref.id

mutual

/-- Statements. -/
inductive Stmt where
  | block (body : List Stmt)
  | classDecl (name : Token) (superclass : Option Reference) (methods : List FunctionDecl)
  | expression (e : Expr)
  | function (decl : FunctionDecl)
  | ifElse (condition : Expr) (thenBranch : Stmt) (elseBranch : Option Stmt)
  | print (e : Expr)
  | returnValue (keyword : Token) (value : Option Expr)
  | varDecl (name : Token) (initializer : Option Expr)
  | whileLoop (condition : Expr) (body : Stmt)

/-- A function or a method. -/
structure FunctionDecl where
  name : Token
  params : List Token
  body : List Stmt

end

instance : Inhabited Stmt := ⟨.block []⟩

instance : Inhabited FunctionDecl := ⟨⟨default, [], []⟩⟩

/-- A `for` as a `while`: the increment follows the body in a block of its own, and a block around
the loop holds the initializer. -/
def Stmt.forLoop (initializer : Option Stmt) (condition : Expr) (increment : Option Expr)
    (body : Stmt) : Stmt :=
  let turn := match increment with
    | some e => .block [body, .expression e]
    | none => body
  match initializer with
  | some s => .block [s, .whileLoop condition turn]
  | none => .whileLoop condition turn

end LoxLang
