import LoxLang.Bindings
import LoxLang.Syntax.Tree
import LoxLang.Value

/-!
# Environments

Where the values of variables are kept while a program runs.

* A `Frame` binds the names of one scope, and the `Store` keeps all frames: several functions may
  share one, and all see what any of them assigns.
* An `Env` is the chain of frames that is visible at some place, the innermost first.
* `Store.get` and `Store.assign` search the chain by name; `Store.getAt` and `Store.assignAt` go a
  given number of frames out.
* `Environments` is a collection of environments that is built step by step.
-/

namespace LoxLang

/-- The place of a frame in the store. -/
abbrev FrameId := Nat

abbrev Frame := Bindings Value

/-- The chain of frames that is visible at some place. -/
structure Env where
  /-- The innermost frame. -/
  frame : FrameId
  /-- The frames around it, from the inside. -/
  enclosing : List FrameId
  deriving DecidableEq, Repr, Inhabited

/-- A failure that the checks before a look-up or a call rule out. -/
inductive Defect where
  /-- An address points beyond the outermost frame. -/
  | beyondGlobals
  /-- The addressed frame does not bind the name. -/
  | unboundAt (name : String)
  /-- A use of `super` has no address. -/
  | noAddress (id : NodeId)
  /-- The value bound to `super` is no class. -/
  | superNotClass
  /-- The value bound to `this` is no object. -/
  | thisNotObject
  /-- A call brings no argument for a parameter. -/
  | missingArgument (name : String)
  deriving DecidableEq, Repr

namespace Env

/-- All frames of an environment, from the inside. -/
def chain (env : Env) : List FrameId := env.frame :: env.enclosing

def ancestor? : Nat → Env → Option Env
  | 0, env => some env
  | _ + 1, ⟨_, []⟩ => none
  | distance + 1, ⟨_, frame :: enclosing⟩ => ancestor? distance ⟨frame, enclosing⟩

/-- The environment some frames further out, which must exist. -/
def ancestor (env : Env) (distance : Nat) : Except Defect Env :=
  match env.ancestor? distance with
  | some ancestor => .ok ancestor
  | none => .error .beyondGlobals

end Env

/-- All frames, in the order in which they were made. -/
structure Store where
  frames : Array Frame
  deriving Inhabited

namespace Store

/-- A frame; one that was never made binds nothing. -/
def frame (s : Store) (id : FrameId) : Frame := s.frames.getD id .empty

def alloc (s : Store) (frame : Frame) : FrameId × Store :=
  (s.frames.size, ⟨s.frames.push frame⟩)

def extend (s : Store) (env : Env) (frame : Frame) : Env × Store :=
  let (id, s) := s.alloc frame
  (⟨id, env.chain⟩, s)

def bind (s : Store) (id : FrameId) (name : String) (v : Value) : Store :=
  ⟨s.frames.modify id (·.insert name v)⟩

def define (s : Store) (env : Env) (name : String) (v : Value) : Store := s.bind env.frame name v

/-! ## Access by name -/

/-- The innermost frame of an environment that binds a name. -/
def locate (s : Store) (env : Env) (name : String) : Except RuntimeFault FrameId :=
  match env.chain.find? fun id => (s.frame id).contains name with
  | some id => .ok id
  | none => .error (.undefinedVariable name)

def get (s : Store) (env : Env) (name : String) : Except RuntimeFault Value :=
  match env.chain.findSome? fun id => (s.frame id).get? name with
  | some v => .ok v
  | none => .error (.undefinedVariable name)

/-- Assigns to a variable, which must exist. -/
def assign (s : Store) (env : Env) (name : String) (v : Value) : Except RuntimeFault Store :=
  (s.locate env name).map fun id => s.bind id name v

/-! ## Access by address -/

def getAt (s : Store) (env : Env) (distance : Nat) (name : String) : Except Defect Value := do
  let ancestor ← env.ancestor distance
  match (s.frame ancestor.frame).get? name with
  | some v => .ok v
  | none => .error (.unboundAt name)

/-- Assigns to a variable some frames out, making it if it is not there. -/
def assignAt (s : Store) (env : Env) (distance : Nat) (name : String) (v : Value) :
    Except Defect Store :=
  (env.ancestor distance).map fun ancestor => s.bind ancestor.frame name v

end Store

/-! ## Collections of environments -/

/-- Environments in the order in which they were made. -/
structure Environments where
  store : Store
  envs : Array Env
  deriving Inhabited

namespace Environments

def empty : Environments := ⟨⟨#[]⟩, #[]⟩

def env (e : Environments) (i : Nat) : Env := e.envs.getD i ⟨i, []⟩

/-- Makes an environment, inside another one or on its own, and gives its number. -/
def create (e : Environments) (enclosing : Option Nat) : Nat × Environments :=
  let (id, store) := e.store.alloc .empty
  let env : Env := ⟨id, match enclosing with
    | some i => (e.env i).chain
    | none => []⟩
  (e.envs.size, ⟨store, e.envs.push env⟩)

def define (e : Environments) (i : Nat) (name : String) (v : Value) : Environments :=
  { e with store := e.store.define (e.env i) name v }

/-- The value of a variable that is visible in an environment. -/
def get (e : Environments) (i : Nat) (name : String) : Except RuntimeFault Value :=
  e.store.get (e.env i) name

/-- Assigns to a variable that is visible in an environment. -/
def assign (e : Environments) (i : Nat) (name : String) (v : Value) :
    Except RuntimeFault Environments :=
  (e.store.assign (e.env i) name v).map fun store => { e with store }

/-- The number of the environment some frames further out. The environments and their innermost
frames are numbered alike. -/
def ancestor (e : Environments) (i distance : Nat) : Except Defect Nat :=
  ((e.env i).ancestor distance).map Env.frame

def getAt (e : Environments) (i distance : Nat) (name : String) : Except Defect Value :=
  e.store.getAt (e.env i) distance name

def assignAt (e : Environments) (i distance : Nat) (name : String) (v : Value) :
    Except Defect Environments :=
  (e.store.assignAt (e.env i) distance name v).map fun store => { e with store }

end Environments

end LoxLang
