import LoxLang.Machine
import LoxLang.Scope.Resolver

/-!
# Actions

The single steps that running a program is made of.

* `Exec` is the type of actions: they change the machine, and give a value or halt.
* `Halt` says why a run stops early. Only an error is the program's own doing; the other reasons are
  kept apart from it.
* `Flow` is how a statement ends.
* The actions below open scopes, use variables, and make and use functions, classes and objects.
-/

namespace LoxLang

/-- Why a run stops early. -/
inductive Halt where
  /-- The program did what the language does not allow. -/
  | error (e : RuntimeError)
  /-- A step failed that the checks before it rule out. -/
  | defect (d : Defect)
  /-- A loop took more turns than it was given. -/
  | unfinished
  deriving DecidableEq

/-- An action on the machine. -/
abbrev Exec (α : Type) := EStateM Halt Machine α

/-- How a statement ends: the next one follows, or the function around it returns. -/
inductive Flow where
  | next
  | returned (v : Value)
  deriving DecidableEq

/-- The value of a call whose body ended in some way. -/
def Flow.value : Flow → Value
  | next => .nil
  | returned v => v

/-- What a run is given from outside. -/
structure Host where
  /-- What the clock shows, by how often it has been read before. -/
  time : Nat → Number
  /-- How many calls may be nested. -/
  maxCalls : Nat
  /-- How many turns a loop may take. -/
  maxTurns : Nat

/-- A host whose clock stands still, with room for two thousand nested calls and for any loop that
ends in a lifetime. -/
def Host.standard (time : Number) : Host := ⟨fun _ => time, 2000, 1000000000000000000⟩

/-- What stays the same throughout a run. -/
structure Context where
  links : Links
  host : Host

namespace Exec

/-! ## Halting -/

def raise {α : Type} (fault : RuntimeFault) (token : Token) : Exec α :=
  throw (.error ⟨fault, token⟩)

/-- The result of a step that may be faulty at a token. -/
def orRaise {α : Type} (token : Token) : Except RuntimeFault α → Exec α
  | .ok a => pure a
  | .error fault => raise fault token

/-- The result of a step that cannot fail in a program whose names are resolved. -/
def orDefect {α : Type} : Except Defect α → Exec α
  | .ok a => pure a
  | .error d => throw (.defect d)

/-! ## Variables -/

def bindIn (id : FrameId) (name : String) (v : Value) : Exec Unit :=
  modify fun m => { m with store := m.store.bind id name v }

def define (env : Env) (name : String) (v : Value) : Exec Unit := bindIn env.frame name v

/-- Opens a scope inside an environment, with a frame that may bind some names already. -/
def enter (env : Env) (frame : Frame) : Exec Env :=
  modifyGet fun m =>
    let (inner, store) := m.store.extend env frame
    (inner, { m with store })

def getByName (env : Env) (name : Token) : Exec Value := do
  orRaise name ((← get).store.get env name.lexeme)

def assignByName (env : Env) (name : Token) (v : Value) : Exec Unit := do
  let id ← orRaise name ((← get).store.locate env name.lexeme)
  bindIn id name.lexeme v

def getAt (env : Env) (distance : Nat) (name : String) : Exec Value := do
  orDefect ((← get).store.getAt env distance name)

def assignAt (env : Env) (distance : Nat) (name : String) (v : Value) : Exec Unit := do
  let ancestor ← orDefect (env.ancestor distance)
  bindIn ancestor.frame name v

/-- The value of a variable, or of `this`: at its address if it has one, otherwise among the
globals. -/
def lookUp (ctx : Context) (env : Env) (id : NodeId) (name : Token) : Exec Value :=
  match ctx.links[id]? with
  | some distance => getAt env distance name.lexeme
  | none => getByName Machine.globals name

/-- Assigns to a variable: at its address if it has one, otherwise among the globals. -/
def assign (ctx : Context) (env : Env) (id : NodeId) (name : Token) (v : Value) : Exec Unit :=
  match ctx.links[id]? with
  | some distance => assignAt env distance name.lexeme v
  | none => assignByName Machine.globals name v

/-! ## Functions -/

def newFunction (f : Closure) : Exec Value :=
  modifyGet fun m => (.function m.functions.size, { m with functions := m.functions.push f })

/-- A method whose `this` is a given object. -/
def bindMethod (method : Closure) (this : ObjectId) : Exec Closure := do
  let env ← enter method.env (Bindings.empty.insert "this" (.object this))
  return { method with env }

def bindParameters (frame : Frame) : List Token → List Value → Except Defect Frame
  | [], _ => .ok frame
  | param :: params, v :: arguments =>
    bindParameters (frame.insert param.lexeme v) params arguments
  | param :: _, [] => .error (.missingArgument param.lexeme)

/-- Halts at a call with the wrong number of arguments. -/
def checkArity (paren : Token) (expected got : Nat) : Exec Unit :=
  if got = expected then pure () else raise (.wrongArgumentCount expected got) paren

/-! ## Objects and classes -/

/-- Makes an object without fields. -/
def newObject (classId : ClassId) : Exec ObjectId :=
  modifyGet fun m =>
    (m.objects.size, { m with objects := m.objects.push ⟨classId, .empty⟩ })

def newClass (name : String) (superclass : Option ClassId) (methods : Bindings Closure) :
    Exec Value :=
  modifyGet fun m =>
    let ancestors := match superclass with
      | some id => m.lineage id
      | none => []
    (.classRef m.classes.size, { m with classes := m.classes.push ⟨name, ancestors, methods⟩ })

/-- The method of a class for a given object, as a value. -/
def methodOf (classId : ClassId) (this : ObjectId) (name : Token) : Exec Value := do
  match (← get).findMethod? classId name.lexeme with
  | some method => newFunction (← bindMethod method this)
  | none => raise (.undefinedProperty name.lexeme) name

/-- A property of a value: a field, or else a method bound to the object. -/
def getProperty (v : Value) (name : Token) : Exec Value := do
  match v with
  | .object id =>
    let info := (← get).object id
    match info.fields.get? name.lexeme with
    | some field => return field
    | none => methodOf info.classId id name
  | _ => raise .propertyOfNonInstance name

/-- The object whose field is about to be set. -/
def asObject (v : Value) (name : Token) : Exec ObjectId :=
  match v with
  | .object id => pure id
  | _ => raise .fieldOfNonInstance name

def setField (id : ObjectId) (name : String) (v : Value) : Exec Unit :=
  modify fun m => { m with
    objects := m.objects.modify id fun o => { o with fields := o.fields.insert name v } }

/-- The method that `super` finds: the search starts at the class bound to `super`, and the object
is the one bound to `this` in the scope just inside. -/
def superMethod (ctx : Context) (env : Env) (id : NodeId) (method : Token) : Exec Value := do
  match ctx.links[id]? with
  | none => throw (.defect (.noAddress id))
  | some distance =>
    let superclass ← getAt env distance "super"
    let this ← getAt env (distance - 1) "this"
    match superclass, this with
    | .classRef classId, .object object => methodOf classId object method
    | .classRef _, _ => throw (.defect .thisNotObject)
    | _, _ => throw (.defect .superNotClass)

/-- The value that a class declaration names as its superclass, which must be a class. -/
def superclassOf (ctx : Context) (env : Env) : Option Reference → Exec (Option ClassId)
  | none => pure none
  | some ref => do
    match ← lookUp ctx env ref.id ref.name with
    | .classRef id => return some id
    | _ => raise .superclassNotClass ref.name

/-- The environment of a class's methods: it binds `super` if there is a superclass. -/
def methodEnv (env : Env) : Option ClassId → Exec Env
  | none => pure env
  | some id => enter env (Bindings.empty.insert "super" (.classRef id))

/-- The methods of a class body; of two with one name the later one counts. -/
def methodTable (env : Env) (methods : List FunctionDecl) : Bindings Closure :=
  methods.foldl
    (fun table decl => table.insert decl.name.lexeme ⟨decl, env, decl.name.lexeme == "init"⟩)
    .empty

/-- Assigns a class to its name, which its declaration has made before. -/
def assignClass (env : Env) (name : Token) (v : Value) : Exec Unit := do
  match (← get).store.locate env name.lexeme with
  | .ok id => bindIn id name.lexeme v
  | .error _ => raise (.undefinedClass name.lexeme) name

/-- A class declaration. The name is there, without a value, while the methods are made. -/
def declareClass (ctx : Context) (env : Env) (name : Token) (superclass : Option Reference)
    (methods : List FunctionDecl) : Exec Unit := do
  let superclass ← superclassOf ctx env superclass
  define env name.lexeme .nil
  let inner ← methodEnv env superclass
  let v ← newClass name.lexeme superclass (methodTable inner methods)
  assignClass env name v

/-! ## Output, the clock and loops -/

/-- Prints a value on a line of its own. -/
def print (v : Value) : Exec Unit :=
  modify fun m => { m with output := m.output.push (m.text v) }

def readClock (host : Host) : Exec Value :=
  modifyGet fun m => (.number (host.time m.readings), { m with readings := m.readings + 1 })

/-- Takes turns while a condition holds and nothing returns, at most a given number of times. -/
def loop (condition : Exec Bool) (body : Exec Flow) : Nat → Exec Flow
  | 0 => throw .unfinished
  | turns + 1 => do
    if ← condition then
      match ← body with
      | .next => loop condition body turns
      | .returned v => return .returned v
    else
      return .next

end Exec

end LoxLang
