import LoxLang.Syntax.Program

/-!
# Reading by positions

The productions of the grammar once more, over a list of tokens and a position in it.

* `Cursor` is what a production works on: all the tokens, the position of the token ahead, the
  number of the next expression and the faults found so far.
* `Cursor.current`, `Cursor.previous` and `Cursor.advance` look a token up by its position, and stop
  the whole reading where the list has none: no production recovers from that.
* `Cursor.program` reads up to the end of input. Its first argument bounds the depth of productions.

Every production makes the same look-ups whether their outcome matters or not. That none of them is
ever outside the list is therefore a property of what a reading ends in.
-/

namespace LoxLang

/-- Why a reading by positions stops early. -/
inductive Cursor.Stop where
  /-- A fault has been recorded, and the tokens ahead belong to nothing. -/
  | panic
  /-- The bound on the depth of productions is used up. -/
  | exhausted
  /-- A token was looked up where the list has none. -/
  | outside
  deriving DecidableEq, Repr

/-- A list of tokens that is being read. -/
structure Cursor where
  tokens : List Token
  /-- The position of the token ahead. -/
  position : Nat
  /-- The number of the next expression. -/
  nextId : NodeId
  /-- The faults found so far, in the order in which they were found. -/
  errors : List StaticError

/-- A production that reads an `α` by positions. -/
abbrev Cursor.Production (α : Type) := EStateM Cursor.Stop Cursor α

namespace Cursor

/-! ## Single tokens -/

def current : Production Token := fun c =>
  match c.tokens[c.position]? with
  | some token => .ok token c
  | none => .error .outside c

/-- The token in front of the one ahead. In front of the first token there is none. -/
def previous : Production Token := fun c =>
  if c.position = 0 then .error .outside c
  else match c.tokens[c.position - 1]? with
    | some token => .ok token c
    | none => .error .outside c

def advance : Production Token := fun c =>
  match c.tokens[c.position]? with
  | some token =>
    if token.kind = .eof then .ok token c else .ok token { c with position := c.position + 1 }
  | none => .error .outside c

def at? (kind : Kind) : Production Bool := do
  return (← current).kind == kind

def atBodyEnd : Production Bool := do
  if ← at? .rightBrace then
    return true
  else
    at? .eof

/-- Goes past the token ahead if its kind is one of those wanted. -/
def accept (wanted : Kind → Bool) : Production (Option Token) := do
  if wanted (← current).kind then
    some <$> advance
  else
    return none

/-- Goes past the token ahead if it has a kind, and tells whether it did. -/
def skip? (kind : Kind) : Production Bool := do
  return (← accept (· == kind)).isSome

/-! ## Faults -/

def report (fault : SyntaxFault) (token : Token) : Production Unit :=
  modify fun c => { c with errors := c.errors ++ [.atToken (.parse fault) token] }

def fail {α : Type} (fault : SyntaxFault) : Production α := do
  report fault (← current)
  throw .panic

/-- Records a fault at the token ahead if as many have been read as there may be. -/
def reportExcess (count : Nat) (fault : SyntaxFault) : Production Unit := do
  if Parser.maxArguments ≤ count then
    report fault (← current)

def expect (kind : Kind) (fault : SyntaxFault) : Production Token := do
  if ← at? kind then
    advance
  else
    fail fault

def expectMark (mark : Kind) (place : MarkPlace) : Production Token :=
  expect mark (.missingMark mark place)

def expectName (role : NameRole) : Production Token :=
  expect .identifier (.missingName role)

def fresh : Production NodeId :=
  modifyGet fun c => (c.nextId, { c with nextId := c.nextId + 1 })

/-! ## Recovery -/

/-- Drops tokens until a semicolon has just been passed or a statement starts. -/
def dropStatement : Nat → Production Unit
  | 0 => throw .exhausted
  | n + 1 => do
    if ← at? .eof then
      return
    else if (← previous).kind = .semicolon then
      return
    else if Parser.startsStatement (← current).kind then
      return
    else
      let _ ← advance
      dropStatement n

/-- Drops the token at which a production panicked, and what is left of its statement. -/
def synchronize : Production Unit := do
  let _ ← advance
  dropStatement (← get).tokens.length

def recovering {α : Type} (p : Production α) : Production (Option α) := fun c =>
  match p c with
  | .ok a c => .ok (some a) c
  | .error .panic c => (do synchronize; return none : Production (Option α)) c
  | .error .exhausted c => .error .exhausted c
  | .error .outside c => .error .outside c

/-! ## Expressions -/

mutual

def expression : Nat → Production Expr
  | 0 => throw .exhausted
  | n + 1 => do
    let left ← operation n Level.all
    match ← accept (· == .equal) with
    | none => return left
    | some equals =>
      let value ← expression n
      match left with
      | .variable ref => return .assign (← fresh) ref.name value
      | .get _ object name => return .set (← fresh) object name value
      | _ =>
        report .invalidAssignmentTarget equals
        return left

def operation : Nat → List Level → Production Expr
  | 0, _ => throw .exhausted
  | n + 1, [] => unary n
  | n + 1, level :: tighter => do
    let left ← operation n tighter
    chain n level tighter left

/-- The operators of a level, with their right operands, that follow a left operand. -/
def chain : Nat → Level → List Level → Expr → Production Expr
  | 0, _, _, _ => throw .exhausted
  | n + 1, level, tighter, left => do
    match ← accept level.accepts with
    | none => return left
    | some operator =>
      let right ← operation n tighter
      chain n level tighter (level.node (← fresh) left operator right)

def unary : Nat → Production Expr
  | 0 => throw .exhausted
  | n + 1 => do
    match ← accept Parser.isUnaryOperator with
    | some operator =>
      let right ← unary n
      return .unary (← fresh) operator right
    | none =>
      let callee ← primary n
      calls n callee

def calls : Nat → Expr → Production Expr
  | 0, _ => throw .exhausted
  | n + 1, callee => do
    if ← skip? .leftParen then
      let arguments ← arguments n
      let paren ← expectMark .rightParen .afterArguments
      calls n (.call (← fresh) callee paren arguments)
    else if ← skip? .dot then
      let name ← expectName .ofProperty
      calls n (.get (← fresh) callee name)
    else
      return callee

def arguments : Nat → Production (List Expr)
  | 0 => throw .exhausted
  | n + 1 => do
    if ← at? .rightParen then
      return []
    else
      let first ← expression n
      moreArguments n [first]

def moreArguments : Nat → List Expr → Production (List Expr)
  | 0, _ => throw .exhausted
  | n + 1, arguments => do
    if ← skip? .comma then
      reportExcess arguments.length .tooManyArguments
      let argument ← expression n
      moreArguments n (arguments ++ [argument])
    else
      return arguments

def primary : Nat → Production Expr
  | 0 => throw .exhausted
  | n + 1 => do
    let token ← current
    match token.kind with
    | .falseWord =>
      let _ ← advance
      return .literal (← fresh) (.bool false)
    | .trueWord =>
      let _ ← advance
      return .literal (← fresh) (.bool true)
    | .nilWord =>
      let _ ← advance
      return .literal (← fresh) .nil
    | .number | .string =>
      let _ ← advance
      return .literal (← fresh) token.literal
    | .superWord =>
      let _ ← advance
      let _ ← expectMark .dot (.afterKeyword .superWord)
      let method ← expectName .ofSuperclassMethod
      return .super (← fresh) token method
    | .thisWord =>
      let _ ← advance
      return .this (← fresh) token
    | .identifier =>
      let _ ← advance
      return .variable ⟨← fresh, token⟩
    | .leftParen =>
      let _ ← advance
      let inner ← expression n
      let _ ← expectMark .rightParen .afterExpression
      return .grouping (← fresh) inner
    | _ => fail .missingExpression

end

/-! ## Productions that hold no statement -/

def optionalExpression (n : Nat) (mark : Kind) : Production (Option Expr) := do
  if ← at? mark then
    return none
  else
    some <$> expression n

def expressionStatement (n : Nat) : Production Stmt := do
  let e ← expression n
  let _ ← expectMark .semicolon .afterExpression
  return .expression e

def printStatement (n : Nat) : Production Stmt := do
  let e ← expression n
  let _ ← expectMark .semicolon .afterValue
  return .print e

def returnStatement (n : Nat) : Production Stmt := do
  let keyword ← previous
  let value ← optionalExpression n .semicolon
  let _ ← expectMark .semicolon .afterReturnValue
  return .returnValue keyword value

def initializer (n : Nat) : Production (Option Expr) := do
  if ← skip? .equal then
    some <$> expression n
  else
    return none

def varDeclaration (n : Nat) : Production Stmt := do
  let name ← expectName .ofVariable
  let initializer ← initializer n
  let _ ← expectMark .semicolon .afterVariableDeclaration
  return .varDecl name initializer

def moreParameters : Nat → List Token → Production (List Token)
  | 0, _ => throw .exhausted
  | n + 1, params => do
    if ← skip? .comma then
      reportExcess params.length .tooManyParameters
      let param ← expectName .ofParameter
      moreParameters n (params ++ [param])
    else
      return params

def parameters (n : Nat) : Production (List Token) := do
  if ← at? .rightParen then
    return []
  else
    let first ← expectName .ofParameter
    moreParameters n [first]

def forInitializer (n : Nat) : Production (Option Stmt) := do
  if ← skip? .semicolon then
    return none
  else if ← skip? .varWord then
    some <$> varDeclaration n
  else
    some <$> expressionStatement n

def superclass : Production (Option Reference) := do
  if ← skip? .less then
    let name ← expectName .ofSuperclass
    return some ⟨← fresh, name⟩
  else
    return none

/-! ## Productions that hold statements -/

mutual

def declaration : Nat → Production (Option Stmt)
  | 0 => throw .exhausted
  | n + 1 => recovering do
    if ← skip? .classWord then
      classDeclaration n
    else if ← skip? .funWord then
      return .function (← function n .function)
    else if ← skip? .varWord then
      varDeclaration n
    else
      statement n

def classDeclaration : Nat → Production Stmt
  | 0 => throw .exhausted
  | n + 1 => do
    let name ← expectName .ofClass
    let superclass ← superclass
    let _ ← expectMark .leftBrace .beforeClassBody
    let methods ← methods n
    let _ ← expectMark .rightBrace .afterClassBody
    return .classDecl name superclass methods

def methods : Nat → Production (List FunctionDecl)
  | 0 => throw .exhausted
  | n + 1 => do
    if ← atBodyEnd then
      return []
    else
      let method ← function n .method
      return method :: (← methods n)

def function : Nat → Callable → Production FunctionDecl
  | 0, _ => throw .exhausted
  | n + 1, callable => do
    let name ← expectName (.ofCallable callable)
    let _ ← expectMark .leftParen (.afterName callable)
    let params ← parameters n
    let _ ← expectMark .rightParen .afterParameters
    let _ ← expectMark .leftBrace (.beforeBody callable)
    let body ← block n
    return ⟨name, params, body⟩

def block : Nat → Production (List Stmt)
  | 0 => throw .exhausted
  | n + 1 => do
    if ← atBodyEnd then
      let _ ← expectMark .rightBrace .afterBlock
      return []
    else
      let first ← declaration n
      return first.toList ++ (← block n)

def statement : Nat → Production Stmt
  | 0 => throw .exhausted
  | n + 1 => do
    if ← skip? .forWord then
      forStatement n
    else if ← skip? .ifWord then
      ifStatement n
    else if ← skip? .printWord then
      printStatement n
    else if ← skip? .returnWord then
      returnStatement n
    else if ← skip? .whileWord then
      whileStatement n
    else if ← skip? .leftBrace then
      return .block (← block n)
    else
      expressionStatement n

def forStatement : Nat → Production Stmt
  | 0 => throw .exhausted
  | n + 1 => do
    let _ ← expectMark .leftParen (.afterKeyword .forWord)
    let initializer ← forInitializer n
    let condition ← optionalExpression n .semicolon
    let _ ← expectMark .semicolon .afterLoopCondition
    let increment ← optionalExpression n .rightParen
    let _ ← expectMark .rightParen .afterForClauses
    let body ← statement n
    match condition with
    | some e => return .forLoop initializer e increment body
    | none => return .forLoop initializer (.literal (← fresh) (.bool true)) increment body

def ifStatement : Nat → Production Stmt
  | 0 => throw .exhausted
  | n + 1 => do
    let _ ← expectMark .leftParen (.afterKeyword .ifWord)
    let condition ← expression n
    let _ ← expectMark .rightParen .afterIfCondition
    let thenBranch ← statement n
    if ← skip? .elseWord then
      let elseBranch ← statement n
      return .ifElse condition thenBranch (some elseBranch)
    else
      return .ifElse condition thenBranch none

def whileStatement : Nat → Production Stmt
  | 0 => throw .exhausted
  | n + 1 => do
    let _ ← expectMark .leftParen (.afterKeyword .whileWord)
    let condition ← expression n
    let _ ← expectMark .rightParen .afterCondition
    let body ← statement n
    return .whileLoop condition body

end

def program : Nat → Production (List Stmt)
  | 0 => throw .exhausted
  | n + 1 => do
    if ← at? .eof then
      return []
    else
      let first ← declaration n
      return first.toList ++ (← program n)

end Cursor

end LoxLang
