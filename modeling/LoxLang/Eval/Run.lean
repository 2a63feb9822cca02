import LoxLang.Eval.Action

/-!
# Running programs

The meaning of expressions, statements and programs.

* `eval` evaluates an expression and `exec` executes a statement, by recursion on their syntax. How
  the body of a function is run is left to a `Runner`.
* `runBody` is the runner that allows a given number of nested calls: the body of a function is run
  with one call fewer, and with none left a call is a stack overflow.
* `Machine.execute` runs the statements of a program one after the other.
-/

namespace LoxLang

open Exec

/-- How a call is carried out once callee and arguments are known to fit: the closing parenthesis of
the call, the function, and the arguments. -/
abbrev Runner := Token → Closure → List Value → Exec Value

/-! ## Calls -/

/-- Makes an object of a class, and runs the class's initializer on it. -/
def construct (run : Runner) (paren : Token) (classId : ClassId) (initializer : Option Closure)
    (arguments : List Value) : Exec Value := do
  let object ← newObject classId
  match initializer with
  | none => return .object object
  | some method =>
    let _ ← run paren (← bindMethod method object) arguments
    return .object object

def call (ctx : Context) (run : Runner) (paren : Token) (callee : Value) (arguments : List Value) :
    Exec Value := do
  match callee with
  | .native .clock =>
    checkArity paren 0 arguments.length
    readClock ctx.host
  | .function id =>
    let closure := (← get).function id
    checkArity paren closure.arity arguments.length
    run paren closure arguments
  | .classRef id =>
    let initializer := (← get).initializer? id
    checkArity paren (initializer.elim 0 Closure.arity) arguments.length
    construct run paren id initializer arguments
  | _ => raise .notCallable paren

/-! ## Expressions -/

mutual

def eval (ctx : Context) (run : Runner) (env : Env) : Expr → Exec Value
  | .assign id name value => do
    let v ← eval ctx run env value
    assign ctx env id name v
    return v
  | .binary _ left operator right => do
    let l ← eval ctx run env left
    let r ← eval ctx run env right
    orRaise operator (Value.binary operator.kind l r)
  | .call _ callee paren arguments => do
    let f ← eval ctx run env callee
    let args ← evalAll ctx run env arguments
    call ctx run paren f args
  | .get _ object name => do
    let v ← eval ctx run env object
    getProperty v name
  | .grouping _ inner => eval ctx run env inner
  | .literal _ value => return .ofLiteral value
  | .logical _ left operator right => do
    let l ← eval ctx run env left
    if l.settles operator.kind then
      return l
    else
      eval ctx run env right
  | .set _ object name value => do
    let o ← eval ctx run env object
    let id ← asObject o name
    let v ← eval ctx run env value
    setField id name.lexeme v
    return v
  | .super id _ method => superMethod ctx env id method
  | .this id keyword => lookUp ctx env id keyword
  | .unary _ operator right => do
    let v ← eval ctx run env right
    orRaise operator (Value.unary operator.kind v)
  | .variable ref => lookUp ctx env ref.id ref.name

/-- Evaluates expressions from left to right. -/
def evalAll (ctx : Context) (run : Runner) (env : Env) : List Expr → Exec (List Value)
  | [] => return []
  | e :: es => do
    let v ← eval ctx run env e
    return v :: (← evalAll ctx run env es)

end

def evalCondition (ctx : Context) (run : Runner) (env : Env) (e : Expr) : Exec Bool := do
  return (← eval ctx run env e).isTruthy

/-- The value of an expression that may be missing, `nil` in that case. -/
def evalOptional (ctx : Context) (run : Runner) (env : Env) : Option Expr → Exec Value
  | none => return .nil
  | some e => eval ctx run env e

/-! ## Statements -/

mutual

def exec (ctx : Context) (run : Runner) (env : Env) : Stmt → Exec Flow
  | .block body => do
    let inner ← enter env .empty
    execAll ctx run inner body
  | .classDecl name superclass methods => do
    declareClass ctx env name superclass methods
    return .next
  | .expression e => do
    let _ ← eval ctx run env e
    return .next
  | .function decl => do
    let v ← newFunction ⟨decl, env, false⟩
    define env decl.name.lexeme v
    return .next
  | .ifElse condition thenBranch none => do
    if ← evalCondition ctx run env condition then
      exec ctx run env thenBranch
    else
      return .next
  | .ifElse condition thenBranch (some elseBranch) => do
    if ← evalCondition ctx run env condition then
      exec ctx run env thenBranch
    else
      exec ctx run env elseBranch
  | .print e => do
    let v ← eval ctx run env e
    print v
    return .next
  | .returnValue _ value => do
    let v ← evalOptional ctx run env value
    return .returned v
  | .varDecl name initializer => do
    let v ← evalOptional ctx run env initializer
    define env name.lexeme v
    return .next
  | .whileLoop condition body =>
    loop (evalCondition ctx run env condition) (exec ctx run env body) ctx.host.maxTurns

/-- Executes statements until one of them returns. -/
def execAll (ctx : Context) (run : Runner) (env : Env) : List Stmt → Exec Flow
  | [] => return .next
  | s :: ss => do
    match ← exec ctx run env s with
    | .next => execAll ctx run env ss
    | .returned v => return .returned v

end

/-! ## Function bodies and programs -/

/-- What a call of a function gives once its body has ended: an initializer gives its object. -/
def callResult (closure : Closure) (flow : Flow) : Exec Value :=
  if closure.isInitializer then getAt closure.env 0 "this" else pure flow.value

/-- Runs the bodies of functions, with a given number of nested calls. -/
def runBody (ctx : Context) : Nat → Runner
  | 0, paren, _, _ => raise .stackOverflow paren
  | calls + 1, _, closure, arguments => do
    let frame ← orDefect (bindParameters .empty closure.decl.params arguments)
    let env ← enter closure.env frame
    let flow ← execAll ctx (runBody ctx calls) env closure.decl.body
    callResult closure flow

/-- Runs statements at the top level, where a `return` has nothing to return from. -/
def execTopLevel (ctx : Context) : List Stmt → Exec Unit
  | [] => pure ()
  | s :: ss => do
    let _ ← exec ctx (runBody ctx ctx.host.maxCalls) Machine.globals s
    execTopLevel ctx ss

/-- How a run ends. -/
inductive Ending where
  | completed
  | halted (reason : Halt)
  deriving DecidableEq

namespace Ending

def error? : Ending → Option RuntimeError
  | halted (.error e) => some e
  | _ => none

/-- The failure that ended a run although it had been ruled out. -/
def defect? : Ending → Option Defect
  | halted (.defect d) => some d
  | _ => none

end Ending

/-- Runs statements at the top level of a machine. What was done before a halt stays done. -/
def Machine.execute (m : Machine) (ctx : Context) (statements : List Stmt) : Ending × Machine :=
  match execTopLevel ctx statements m with
  | .ok _ m => (.completed, m)
  | .error reason m => (.halted reason, m)

end LoxLang
