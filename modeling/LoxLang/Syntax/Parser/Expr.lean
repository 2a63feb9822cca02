import LoxLang.Syntax.Parser

/-!
# Reading expressions

One production for each kind of expression, from the loosest to the tightest.

* `Level` is a precedence level of left-associative operators; `Level.all` lists them.
* `Parser.expression` reads an expression. Its first argument bounds the depth of productions.
-/

namespace LoxLang

/-! ## Precedence levels -/

/-- A precedence level of left-associative operators. -/
structure Level where
  /-- The operators of the level. -/
  accepts : Kind → Bool
  /-- The expression that an operator of the level makes of its operands. -/
  node : NodeId → Expr → Token → Expr → Expr

namespace Level

def logical (operator : Kind) : Level := ⟨(· == operator), .logical⟩

def binary (operators : List Kind) : Level := ⟨operators.contains, .binary⟩

/-- The levels, from the loosest to the tightest. -/
def all : List Level :=
  [ logical .orWord,
    logical .andWord,
    binary [.bangEqual, .equalEqual],
    binary [.greater, .greaterEqual, .less, .lessEqual],
    binary [.minus, .plus],
    binary [.slash, .star] ]

end Level

namespace Parser

/-- The operators that stand before their operand. -/
def isUnaryOperator (kind : Kind) : Bool := kind == .bang || kind == .minus

/-! ## Productions -/

mutual

/-- An expression: an assignment, or one of the binary levels. What stands left of the equals sign
is read as an expression first, and only then turned into a target. -/
def expression : Nat → Parser Expr
  | 0 => throw .exhausted
  | n + 1 => do
    let left ← operation n Level.all
    match ← accept (· == .equal) with
    | none => return left
    | some equals =>
      let value ← expression n
      match left with
      | .variable ref => return .assign (← fresh) ref.name value
      | .get _ object name => return .set (← fresh) object name value
      | _ =>
        report .invalidAssignmentTarget equals
        return left

def operation : Nat → List Level → Parser Expr
  | 0, _ => throw .exhausted
  | n + 1, [] => unary n
  | n + 1, level :: tighter => do
    let left ← operation n tighter
    chain n level tighter left

/-- The operators of a level, with their right operands, that follow a left operand. -/
def chain : Nat → Level → List Level → Expr → Parser Expr
  | 0, _, _, _ => throw .exhausted
  | n + 1, level, tighter, left => do
    match ← accept level.accepts with
    | none => return left
    | some operator =>
      let right ← operation n tighter
      chain n level tighter (level.node (← fresh) left operator right)

/-- A unary operator with its operand, or a call. -/
def unary : Nat → Parser Expr
  | 0 => throw .exhausted
  | n + 1 => do
    match ← accept isUnaryOperator with
    | some operator =>
      let right ← unary n
      return .unary (← fresh) operator right
    | none =>
      let callee ← primary n
      calls n callee

/-- The argument lists and property names that follow an expression. -/
def calls : Nat → Expr → Parser Expr
  | 0, _ => throw .exhausted
  | n + 1, callee => do
    if ← skip? .leftParen then
      let arguments ← arguments n
      let paren ← expectMark .rightParen .afterArguments
      calls n (.call (← fresh) callee paren arguments)
    else if ← skip? .dot then
      let name ← expectName .ofProperty
      calls n (.get (← fresh) callee name)
    else
      return callee

def arguments : Nat → Parser (List Expr)
  | 0 => throw .exhausted
  | n + 1 => do
    if ← at? .rightParen then
      return []
    else
      let first ← expression n
      moreArguments n [first]

def moreArguments : Nat → List Expr → Parser (List Expr)
  | 0, _ => throw .exhausted
  | n + 1, arguments => do
    if ← skip? .comma then
      reportExcess arguments.length .tooManyArguments
      let argument ← expression n
      moreArguments n (arguments ++ [argument])
    else
      return arguments

/-- A literal, a name, `this`, a superclass method or a parenthesised expression. -/
def primary : Nat → Parser Expr
  | 0 => throw .exhausted
  | n + 1 => do
    let token ← current
    match token.kind with
    | .falseWord =>
      let _ ← advance
      return .literal (← fresh) (.bool false)
    | .trueWord =>
      let _ ← advance
      return .literal (← fresh) (.bool true)
    | .nilWord =>
      let _ ← advance
      return .literal (← fresh) .nil
    | .number | .string =>
      let _ ← advance
      return .literal (← fresh) token.literal
    | .superWord =>
      let _ ← advance
      let _ ← expectMark .dot (.afterKeyword .superWord)
      let method ← expectName .ofSuperclassMethod
      return .super (← fresh) token method
    | .thisWord =>
      let _ ← advance
      return .this (← fresh) token
    | .identifier =>
      let _ ← advance
      return .variable ⟨← fresh, token⟩
    | .leftParen =>
      let _ ← advance
      let inner ← expression n
      let _ ← expectMark .rightParen .afterExpression
      return .grouping (← fresh) inner
    | _ => fail .missingExpression

end

end Parser

end LoxLang
