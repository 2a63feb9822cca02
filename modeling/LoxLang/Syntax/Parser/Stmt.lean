import LoxLang.Syntax.Parser.Expr

/-!
# Reading statements

Statements, declarations and whole programs.

* `Parser.declaration` reads one declaration or statement, and gives up on it if it is faulty.
* `Parser.program` reads up to the end of input.
* `Parser.depthBound` bounds the depth of productions by the number of tokens.
-/

namespace LoxLang

namespace Parser

/-! ## Productions that hold no statement -/

/-- An expression that may be missing in front of a mark. -/
def optionalExpression (n : Nat) (mark : Kind) : Parser (Option Expr) := do
  if ← at? mark then
    return none
  else
    some <$> expression n

def expressionStatement (n : Nat) : Parser Stmt := do
  let e ← expression n
  let _ ← expectMark .semicolon .afterExpression
  return .expression e

def printStatement (n : Nat) : Parser Stmt := do
  let e ← expression n
  let _ ← expectMark .semicolon .afterValue
  return .print e

def returnStatement (n : Nat) (keyword : Token) : Parser Stmt := do
  let value ← optionalExpression n .semicolon
  let _ ← expectMark .semicolon .afterReturnValue
  return .returnValue keyword value

/-- The initial value of a variable, which may be missing. -/
def initializer (n : Nat) : Parser (Option Expr) := do
  if ← skip? .equal then
    some <$> expression n
  else
    return none

def varDeclaration (n : Nat) : Parser Stmt := do
  let name ← expectName .ofVariable
  let initializer ← initializer n
  let _ ← expectMark .semicolon .afterVariableDeclaration
  return .varDecl name initializer

def moreParameters : Nat → List Token → Parser (List Token)
  | 0, _ => throw .exhausted
  | n + 1, params => do
    if ← skip? .comma then
      reportExcess params.length .tooManyParameters
      let param ← expectName .ofParameter
      moreParameters n (params ++ [param])
    else
      return params

def parameters (n : Nat) : Parser (List Token) := do
  if ← at? .rightParen then
    return []
  else
    let first ← expectName .ofParameter
    moreParameters n [first]

def forInitializer (n : Nat) : Parser (Option Stmt) := do
  if ← skip? .semicolon then
    return none
  else if ← skip? .varWord then
    some <$> varDeclaration n
  else
    some <$> expressionStatement n

def superclass : Parser (Option Reference) := do
  if ← skip? .less then
    let name ← expectName .ofSuperclass
    return some ⟨← fresh, name⟩
  else
    return none

/-! ## Productions that hold statements -/

mutual

/-- A declaration or a statement, or nothing where it is faulty. -/
def declaration : Nat → Parser (Option Stmt)
  | 0 => throw .exhausted
  | n + 1 => recovering do
    if ← skip? .classWord then
      classDeclaration n
    else if ← skip? .funWord then
      return .function (← function n .function)
    else if ← skip? .varWord then
      varDeclaration n
    else
      statement n

def classDeclaration : Nat → Parser Stmt
  | 0 => throw .exhausted
  | n + 1 => do
    let name ← expectName .ofClass
    let superclass ← superclass
    let _ ← expectMark .leftBrace .beforeClassBody
    let methods ← methods n
    let _ ← expectMark .rightBrace .afterClassBody
    return .classDecl name superclass methods

def methods : Nat → Parser (List FunctionDecl)
  | 0 => throw .exhausted
  | n + 1 => do
    if ← atBodyEnd then
      return []
    else
      let method ← function n .method
      return method :: (← methods n)

/-- A function or method, from its name on. -/
def function : Nat → Callable → Parser FunctionDecl
  | 0, _ => throw .exhausted
  | n + 1, callable => do
    let name ← expectName (.ofCallable callable)
    let _ ← expectMark .leftParen (.afterName callable)
    let params ← parameters n
    let _ ← expectMark .rightParen .afterParameters
    let _ ← expectMark .leftBrace (.beforeBody callable)
    let body ← block n
    return ⟨name, params, body⟩

/-- The rest of a block, up to its closing brace. -/
def block : Nat → Parser (List Stmt)
  | 0 => throw .exhausted
  | n + 1 => do
    if ← atBodyEnd then
      let _ ← expectMark .rightBrace .afterBlock
      return []
    else
      let first ← declaration n
      return first.toList ++ (← block n)

/-- A statement that declares nothing. -/
def statement : Nat → Parser Stmt
  | 0 => throw .exhausted
  | n + 1 => do
    let token ← current
    match token.kind with
    | .forWord =>
      let _ ← advance
      forStatement n
    | .ifWord =>
      let _ ← advance
      ifStatement n
    | .printWord =>
      let _ ← advance
      printStatement n
    | .returnWord =>
      let _ ← advance
      returnStatement n token
    | .whileWord =>
      let _ ← advance
      whileStatement n
    | .leftBrace =>
      let _ ← advance
      return .block (← block n)
    | _ => expressionStatement n

/-- What follows `for`. A condition that is left out is true. -/
def forStatement : Nat → Parser Stmt
  | 0 => throw .exhausted
  | n + 1 => do
    let _ ← expectMark .leftParen (.afterKeyword .forWord)
    let initializer ← forInitializer n
    let condition ← optionalExpression n .semicolon
    let _ ← expectMark .semicolon .afterLoopCondition
    let increment ← optionalExpression n .rightParen
    let _ ← expectMark .rightParen .afterForClauses
    let body ← statement n
    match condition with
    | some e => return .forLoop initializer e increment body
    | none => return .forLoop initializer (.literal (← fresh) (.bool true)) increment body

/-- What follows `if`. An `else` belongs to the nearest `if`. -/
def ifStatement : Nat → Parser Stmt
  | 0 => throw .exhausted
  | n + 1 => do
    let _ ← expectMark .leftParen (.afterKeyword .ifWord)
    let condition ← expression n
    let _ ← expectMark .rightParen .afterIfCondition
    let thenBranch ← statement n
    if ← skip? .elseWord then
      let elseBranch ← statement n
      return .ifElse condition thenBranch (some elseBranch)
    else
      return .ifElse condition thenBranch none

def whileStatement : Nat → Parser Stmt
  | 0 => throw .exhausted
  | n + 1 => do
    let _ ← expectMark .leftParen (.afterKeyword .whileWord)
    let condition ← expression n
    let _ ← expectMark .rightParen .afterCondition
    let body ← statement n
    return .whileLoop condition body

end

def program : Nat → Parser (List Stmt)
  | 0 => throw .exhausted
  | n + 1 => do
    if ← at? .eof then
      return []
    else
      let first ← declaration n
      return first.toList ++ (← program n)

/-- A bound on the depth of productions: fewer than twenty follow each other on one token. -/
def depthBound (tokens : List Token) : Nat := 20 * (tokens.length + 1)

end Parser

end LoxLang
