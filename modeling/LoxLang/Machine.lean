import LoxLang.Environment

/-!
# The machine

What exists while a program runs.

* A `Closure` is a function with the environment it was made in, a `ClassInfo` a class with its
  methods and the chain of its superclasses, an `ObjectInfo` an object with its class and fields.
* `Machine` holds all of them, the frames, what has been printed, and how often the clock has been
  read. Things are only ever added, so an identity stays good.
* `Machine.findMethod?` looks a method up along the chain of classes.
* `Machine.text` is the text of a value.
-/

namespace LoxLang

/-- A function with the environment it was made in. -/
structure Closure where
  decl : FunctionDecl
  env : Env
  /-- Whether this is the `init` method of a class, which always gives back its object. -/
  isInitializer : Bool
  deriving Inhabited

def Closure.arity (f : Closure) : Nat := f.decl.params.length

/-- A class. -/
structure ClassInfo where
  name : String
  /-- The superclass, its superclass, and so on. -/
  ancestors : List ClassId
  /-- The methods that the class itself declares. -/
  methods : Bindings Closure
  deriving Inhabited

/-- An object. -/
structure ObjectInfo where
  classId : ClassId
  fields : Bindings Value
  deriving Inhabited

/-- All that exists while a program runs. -/
structure Machine where
  store : Store
  functions : Array Closure
  classes : Array ClassInfo
  objects : Array ObjectInfo
  /-- The lines printed so far. -/
  output : Array String
  /-- How often the clock has been read. -/
  readings : Nat
  deriving Inhabited

namespace Machine

def globals : Env := ⟨0, []⟩

/-- The names that are bound before any program has run. -/
def nativeNames : List String := ["clock"]

def start : Machine :=
  ⟨⟨#[Bindings.empty.insert "clock" (.native .clock)]⟩, #[], #[], #[], #[], 0⟩

def globalFrame (m : Machine) : Frame := m.store.frame 0

/-! ## Things by their identity -/

def function (m : Machine) (id : FunctionId) : Closure := m.functions.getD id default

def classInfo (m : Machine) (id : ClassId) : ClassInfo := m.classes.getD id default

def object (m : Machine) (id : ObjectId) : ObjectInfo := m.objects.getD id default

/-! ## Methods -/

/-- A class with all its superclasses, the nearest first. -/
def lineage (m : Machine) (id : ClassId) : List ClassId := id :: (m.classInfo id).ancestors

/-- The method of the nearest class in the lineage that declares one of that name. -/
def findMethod? (m : Machine) (id : ClassId) (name : String) : Option Closure :=
  (m.lineage id).findSome? fun c => (m.classInfo c).methods.get? name

def initializer? (m : Machine) (id : ClassId) : Option Closure := m.findMethod? id "init"

/-! ## Text -/

def text (m : Machine) : Value → String
  | .nil => "nil"
  | .bool b => if b then "true" else "false"
  | .number x => x.text
  | .string s => s
  | .native _ => "<native fn>"
  | .function id => "<fn " ++ (m.function id).decl.name.lexeme ++ ">"
  | .classRef id => (m.classInfo id).name
  | .object id => (m.classInfo (m.object id).classId).name ++ " instance"

end Machine

end LoxLang
