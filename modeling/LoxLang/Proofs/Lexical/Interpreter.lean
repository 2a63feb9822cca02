import LoxLang.Session

/-!
# Lexical scoping

An interpreter that runs programs as they are written, without resolving their names first.

* A `Scope` maps names to cells, and is never changed: a declaration makes a new scope that knows
  one more name, and whoever holds the old one does not see it.
* `Machine` keeps the values of the cells, and the globals by their names. What is not in scope is a
  global.
* `eval`, `exec` and `runBody` are the meanings of expressions, statements and calls, and `run` that
  of a source. They have the limits of their host in common with the other interpreter.
-/

namespace LoxLang.Lexical

/-- The place of a local variable. -/
abbrev CellId := Nat

/-- The names that are local at some place. -/
abbrev Scope := Bindings CellId

/-- Where a statement stands: at the top level, where declarations are global, or in a scope. -/
inductive Place where
  | top
  | inner (scope : Scope)

def Place.scope : Place → Scope
  | top => .empty
  | inner scope => scope

/-- A function with the scope of its declaration. A method also knows the superclass of the class
that it was declared in, and its object once it has one. -/
structure Closure where
  decl : FunctionDecl
  scope : Scope
  superclass : Option ClassId
  this : Option ObjectId
  isInitializer : Bool
  deriving Inhabited

def Closure.arity (f : Closure) : Nat := f.decl.params.length

structure ClassInfo where
  name : String
  ancestors : List ClassId
  methods : Bindings Closure
  deriving Inhabited

structure Machine where
  cells : Array Value
  globals : Bindings Value
  functions : Array Closure
  classes : Array ClassInfo
  objects : Array ObjectInfo
  output : Array String
  readings : Nat

namespace Machine

def start : Machine := ⟨#[], Bindings.empty.insert "clock" (.native .clock), #[], #[], #[], #[], 0⟩

def cell (m : Machine) (c : CellId) : Value := m.cells.getD c .nil

def function (m : Machine) (id : FunctionId) : Closure := m.functions.getD id default

def classInfo (m : Machine) (id : ClassId) : ClassInfo := m.classes.getD id default

def object (m : Machine) (id : ObjectId) : ObjectInfo := m.objects.getD id default

def lineage (m : Machine) (id : ClassId) : List ClassId := id :: (m.classInfo id).ancestors

def findMethod? (m : Machine) (id : ClassId) (name : String) : Option Closure :=
  (m.lineage id).findSome? fun c => (m.classInfo c).methods.get? name

def initializer? (m : Machine) (id : ClassId) : Option Closure := m.findMethod? id "init"

def text (m : Machine) : Value → String
  | .nil => "nil"
  | .bool b => if b then "true" else "false"
  | .number x => x.text
  | .string s => s
  | .native _ => "<native fn>"
  | .function id => "<fn " ++ (m.function id).decl.name.lexeme ++ ">"
  | .classRef id => (m.classInfo id).name
  | .object id => (m.classInfo (m.object id).classId).name ++ " instance"

end Machine

/-- An action on the machine. -/
abbrev Act (α : Type) := EStateM Halt Machine α

namespace Act

def raise {α : Type} (fault : RuntimeFault) (token : Token) : Act α :=
  throw (.error ⟨fault, token⟩)

def orRaise {α : Type} (token : Token) : Except RuntimeFault α → Act α
  | .ok a => pure a
  | .error fault => raise fault token

/-! ## Variables -/

def newCell (v : Value) : Act CellId :=
  modifyGet fun m => (m.cells.size, { m with cells := m.cells.push v })

def setCell (c : CellId) (v : Value) : Act Unit :=
  modify fun m => { m with cells := m.cells.setIfInBounds c v }

def setGlobal (name : String) (v : Value) : Act Unit :=
  modify fun m => { m with globals := m.globals.insert name v }

/-- Declares a name, which is known at the place that is given back. -/
def declare (place : Place) (name : String) (v : Value) : Act Place :=
  match place with
  | .top => do
    setGlobal name v
    return .top
  | .inner scope => do
    let c ← newCell v
    return .inner (scope.insert name c)

def fill (place : Place) (name : String) (v : Value) : Act Unit :=
  match place.scope.get? name with
  | some c => setCell c v
  | none => setGlobal name v

def lookUp (scope : Scope) (name : Token) : Act Value := do
  match scope.get? name.lexeme with
  | some c => return (← get).cell c
  | none =>
    match (← get).globals.get? name.lexeme with
    | some v => return v
    | none => raise (.undefinedVariable name.lexeme) name

def assign (scope : Scope) (name : Token) (v : Value) : Act Unit := do
  match scope.get? name.lexeme with
  | some c => setCell c v
  | none =>
    if (← get).globals.contains name.lexeme then
      setGlobal name.lexeme v
    else
      raise (.undefinedVariable name.lexeme) name

/-! ## Functions -/

def newFunction (f : Closure) : Act Value :=
  modifyGet fun m => (.function m.functions.size, { m with functions := m.functions.push f })

def bind (scope : Scope) (name : String) (v : Value) : Act Scope := do
  let c ← newCell v
  return scope.insert name c

/-- Adds a name to a scope if there is a value for it. -/
def bind? (scope : Scope) (name : String) : Option Value → Act Scope
  | none => return scope
  | some v => bind scope name v

def bindParameters (scope : Scope) : List Token → List Value → Act Scope
  | [], _ => return scope
  | param :: params, v :: arguments => do
    bindParameters (← bind scope param.lexeme v) params arguments
  | param :: _, [] => throw (.defect (.missingArgument param.lexeme))

def checkArity (paren : Token) (expected got : Nat) : Act Unit :=
  if got = expected then pure () else raise (.wrongArgumentCount expected got) paren

/-! ## Objects and classes -/

def newObject (classId : ClassId) : Act ObjectId :=
  modifyGet fun m =>
    (m.objects.size, { m with objects := m.objects.push ⟨classId, .empty⟩ })

def newClass (name : String) (superclass : Option ClassId) (methods : Bindings Closure) :
    Act Value :=
  modifyGet fun m =>
    let ancestors := match superclass with
      | some id => m.lineage id
      | none => []
    (.classRef m.classes.size, { m with classes := m.classes.push ⟨name, ancestors, methods⟩ })

def methodOf (classId : ClassId) (this : ObjectId) (name : Token) : Act Value := do
  match (← get).findMethod? classId name.lexeme with
  | some method => newFunction { method with this := some this }
  | none => raise (.undefinedProperty name.lexeme) name

def getProperty (v : Value) (name : Token) : Act Value := do
  match v with
  | .object id =>
    let info := (← get).object id
    match info.fields.get? name.lexeme with
    | some field => return field
    | none => methodOf info.classId id name
  | _ => raise .propertyOfNonInstance name

def asObject (v : Value) (name : Token) : Act ObjectId :=
  match v with
  | .object id => pure id
  | _ => raise .fieldOfNonInstance name

def setField (id : ObjectId) (name : String) (v : Value) : Act Unit :=
  modify fun m => { m with
    objects := m.objects.modify id fun o => { o with fields := o.fields.insert name v } }

def superMethod (scope : Scope) (keyword method : Token) : Act Value := do
  match scope.get? "super", scope.get? "this" with
  | some superCell, some thisCell =>
    match (← get).cell superCell, (← get).cell thisCell with
    | .classRef classId, .object object => methodOf classId object method
    | .classRef _, _ => throw (.defect .thisNotObject)
    | _, _ => throw (.defect .superNotClass)
  | _, _ => raise (.undefinedVariable "super") keyword

def superclassOf (scope : Scope) : Option Reference → Act (Option ClassId)
  | none => pure none
  | some ref => do
    match ← lookUp scope ref.name with
    | .classRef id => return some id
    | _ => raise .superclassNotClass ref.name

def methodTable (scope : Scope) (superclass : Option ClassId) (methods : List FunctionDecl) :
    Bindings Closure :=
  methods.foldl
    (fun table decl => table.insert decl.name.lexeme
      ⟨decl, scope, superclass, none, decl.name.lexeme == "init"⟩)
    .empty

def declareClass (place : Place) (name : Token) (superclass : Option Reference)
    (methods : List FunctionDecl) : Act Place := do
  let superclass ← superclassOf place.scope superclass
  let place ← declare place name.lexeme .nil
  let v ← newClass name.lexeme superclass (methodTable place.scope superclass methods)
  fill place name.lexeme v
  return place

def declareFunction (place : Place) (decl : FunctionDecl) : Act Place := do
  let place ← declare place decl.name.lexeme .nil
  let v ← newFunction ⟨decl, place.scope, none, none, false⟩
  fill place decl.name.lexeme v
  return place

/-! ## Output, the clock and loops -/

def print (v : Value) : Act Unit :=
  modify fun m => { m with output := m.output.push (m.text v) }

def readClock (host : Host) : Act Value :=
  modifyGet fun m => (.number (host.time m.readings), { m with readings := m.readings + 1 })

def loop (condition : Act Bool) (body : Act Flow) : Nat → Act Flow
  | 0 => throw .unfinished
  | turns + 1 => do
    if ← condition then
      match ← body with
      | .next => loop condition body turns
      | .returned v => return .returned v
    else
      return .next

end Act

open Act

/-! ## Calls -/

/-- How a call is carried out once callee and arguments are known to fit. -/
abbrev Runner := Token → Closure → List Value → Act Value

def construct (run : Runner) (paren : Token) (classId : ClassId) (initializer : Option Closure)
    (arguments : List Value) : Act Value := do
  let object ← newObject classId
  match initializer with
  | none => return .object object
  | some method =>
    let _ ← run paren { method with this := some object } arguments
    return .object object

def call (host : Host) (run : Runner) (paren : Token) (callee : Value) (arguments : List Value) :
    Act Value := do
  match callee with
  | .native .clock =>
    checkArity paren 0 arguments.length
    readClock host
  | .function id =>
    let closure := (← get).function id
    checkArity paren closure.arity arguments.length
    run paren closure arguments
  | .classRef id =>
    let initializer := (← get).initializer? id
    checkArity paren (initializer.elim 0 Closure.arity) arguments.length
    construct run paren id initializer arguments
  | _ => raise .notCallable paren

/-! ## Expressions -/

mutual

def eval (host : Host) (run : Runner) (scope : Scope) : Expr → Act Value
  | .assign _ name value => do
    let v ← eval host run scope value
    assign scope name v
    return v
  | .binary _ left operator right => do
    let l ← eval host run scope left
    let r ← eval host run scope right
    orRaise operator (Value.binary operator.kind l r)
  | .call _ callee paren arguments => do
    let f ← eval host run scope callee
    let args ← evalAll host run scope arguments
    call host run paren f args
  | .get _ object name => do
    let v ← eval host run scope object
    getProperty v name
  | .grouping _ inner => eval host run scope inner
  | .literal _ value => return .ofLiteral value
  | .logical _ left operator right => do
    let l ← eval host run scope left
    if l.settles operator.kind then
      return l
    else
      eval host run scope right
  | .set _ object name value => do
    let o ← eval host run scope object
    let id ← asObject o name
    let v ← eval host run scope value
    setField id name.lexeme v
    return v
  | .super _ keyword method => superMethod scope keyword method
  | .this _ keyword => lookUp scope keyword
  | .unary _ operator right => do
    let v ← eval host run scope right
    orRaise operator (Value.unary operator.kind v)
  | .variable ref => lookUp scope ref.name

def evalAll (host : Host) (run : Runner) (scope : Scope) : List Expr → Act (List Value)
  | [] => return []
  | e :: es => do
    let v ← eval host run scope e
    return v :: (← evalAll host run scope es)

end

def evalCondition (host : Host) (run : Runner) (scope : Scope) (e : Expr) : Act Bool := do
  return (← eval host run scope e).isTruthy

def evalOptional (host : Host) (run : Runner) (scope : Scope) : Option Expr → Act Value
  | none => return .nil
  | some e => eval host run scope e

/-! ## Statements -/

mutual

/-- Executes a statement. What it declares is known at the place that is given back. -/
def exec (host : Host) (run : Runner) (place : Place) : Stmt → Act (Flow × Place)
  | .block body => do
    let flow ← execAll host run (.inner place.scope) body
    return (flow, place)
  | .classDecl name superclass methods => do
    return (.next, ← declareClass place name superclass methods)
  | .expression e => do
    let _ ← eval host run place.scope e
    return (.next, place)
  | .function decl => do
    return (.next, ← declareFunction place decl)
  | .ifElse condition thenBranch none => do
    if ← evalCondition host run place.scope condition then
      exec host run place thenBranch
    else
      return (.next, place)
  | .ifElse condition thenBranch (some elseBranch) => do
    if ← evalCondition host run place.scope condition then
      exec host run place thenBranch
    else
      exec host run place elseBranch
  | .print e => do
    let v ← eval host run place.scope e
    print v
    return (.next, place)
  | .returnValue _ value => do
    let v ← evalOptional host run place.scope value
    return (.returned v, place)
  | .varDecl name initializer => do
    let v ← evalOptional host run place.scope initializer
    return (.next, ← declare place name.lexeme v)
  | .whileLoop condition body => do
    let flow ← loop (evalCondition host run place.scope condition)
      (Prod.fst <$> exec host run place body) host.maxTurns
    return (flow, place)

/-- Executes statements until one of them returns, each at the place behind the one before. -/
def execAll (host : Host) (run : Runner) (place : Place) : List Stmt → Act Flow
  | [] => return .next
  | s :: ss => do
    match ← exec host run place s with
    | (.next, place) => execAll host run place ss
    | (.returned v, _) => return .returned v

end

/-! ## Function bodies and programs -/

/-- What a call gives once the body has ended: an initializer gives its object. -/
def callResult (f : Closure) (flow : Flow) : Value :=
  match f.isInitializer, f.this with
  | true, some object => .object object
  | _, _ => flow.value

/-- Runs the bodies of functions: the scope of the declaration is extended with `super`, `this` and
the parameters. -/
def runBody (host : Host) : Nat → Runner
  | 0, paren, _, _ => raise .stackOverflow paren
  | calls + 1, _, f, arguments => do
    let scope ← bind? f.scope "super" (f.superclass.map .classRef)
    let scope ← bind? scope "this" (f.this.map .object)
    let scope ← bindParameters scope f.decl.params arguments
    let flow ← execAll host (runBody host calls) (.inner scope) f.decl.body
    return callResult f flow

def execTopLevel (host : Host) : List Stmt → Act Unit
  | [] => pure ()
  | s :: ss => do
    let _ ← exec host (runBody host host.maxCalls) .top s
    execTopLevel host ss

/-- Runs statements on a machine of their own: how the run ends, and what it prints. -/
def execute (host : Host) (statements : List Stmt) : Ending × List String :=
  match execTopLevel host statements .start with
  | .ok _ m => (.completed, m.output.toList)
  | .error reason m => (.halted reason, m.output.toList)

def run (host : Host) (source : String) : Ending × List String :=
  execute host (Program.ofSource source 0).statements

end LoxLang.Lexical
