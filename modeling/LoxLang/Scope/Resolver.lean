import LoxLang.Bindings
import LoxLang.Diagnostic
import LoxLang.Syntax.Tree
import Std.Data.TreeMap

/-!
# Lexical addresses

Where each use of a name is bound, found before the program runs.

* `Links` tells for an expression how many scopes out its name is bound; what has no entry is
  global.
* `Resolver` walks a program once, in the order in which it is written, with the scopes around the
  place it has reached. A scope belongs to each block, to each function body with its parameters,
  and to each class body: one that holds `this`, and around it one that holds `super` if the class
  has a superclass.
* In its own initializer a variable means the one that it shadows.
* `resolve` resolves a program, and reports every misuse of a name, ordered by line.
-/

namespace LoxLang

/-- How many scopes out the name of an expression is bound. -/
abbrev Links := Std.TreeMap NodeId Nat

/-- The names that a scope declares so far, and whether their initializers are behind. -/
abbrev Scope := Bindings Bool

/-- What the statements at hand are the body of. -/
inductive FunctionKind where
  | none
  | function
  | method
  | initializer
  deriving DecidableEq, Repr

/-- What the functions at hand are the methods of. -/
inductive ClassKind where
  | none
  | base
  | derived
  deriving DecidableEq, Repr

namespace Resolver

/-- What surrounds a place in a program. -/
structure Context where
  function : FunctionKind
  classKind : ClassKind

/-- What has been found on the way to a place in a program. -/
structure State where
  links : Links
  /-- The faults found so far, in order. -/
  errors : List StaticError
  /-- The scopes around the place, the innermost first. The top level is not one of them. -/
  scopes : List Scope
  /-- The names declared at the top level. -/
  globals : Scope
  /-- Reads of a variable in its own initializer that may mean a global declared later on. -/
  pending : List Token

end Resolver

/-- A walk over a part of a program. -/
abbrev Resolver := StateM Resolver.State

namespace Resolver

/-! ## Scopes -/

def report (fault : ScopeFault) (token : Token) : Resolver Unit :=
  modify fun s => { s with errors := s.errors ++ [.atToken (.resolve fault) token] }

def push (scope : Scope) : Resolver Unit :=
  modify fun s => { s with scopes := scope :: s.scopes }

def pop : Resolver Unit :=
  modify fun s => { s with scopes := s.scopes.tail }

/-- A walk inside a scope of its own. -/
def inScope (scope : Scope) (walk : Resolver Unit) : Resolver Unit := do
  push scope
  walk
  pop

/-- Declares a name whose initializer is still to come. At the top level a name may be declared
again, and keeps its value until then. -/
def declare (name : Token) : Resolver Unit := do
  let s ← get
  match s.scopes with
  | [] =>
    if !s.globals.contains name.lexeme then
      set { s with globals := s.globals.insert name.lexeme false }
  | scope :: outer =>
    let errors := if scope.contains name.lexeme
      then s.errors ++ [.atToken (.resolve .alreadyDeclared) name] else s.errors
    set { s with errors, scopes := scope.insert name.lexeme false :: outer }

def define (name : Token) : Resolver Unit :=
  modify fun s => match s.scopes with
    | [] => { s with globals := s.globals.insert name.lexeme true }
    | scope :: outer => { s with scopes := scope.insert name.lexeme true :: outer }

/-- Declares a name that is initialized at once. -/
def introduce (name : Token) : Resolver Unit := do
  declare name
  define name

/-! ## Uses of names -/

/-- How many scopes out a name is declared. -/
def distance? (name : String) (scopes : List Scope) : Option Nat :=
  scopes.findIdx? (·.contains name)

/-- Enters the distance of an expression, if its name is local. -/
def record (id : NodeId) (distance : Option Nat) : Resolver Unit :=
  match distance with
  | some d => modify fun s => { s with links := s.links.insert id d }
  | none => pure ()

/-- Links an expression to the innermost declaration of a name. -/
def link (id : NodeId) (name : String) : Resolver Unit := do
  record id (distance? name (← get).scopes)

/-- A use of a name in its own initializer, where `outer` are the scopes around the one that
declares it. It means what the name means there; if that is nothing, a function body may still be
run after a global of that name has been declared. -/
def linkShadowed (ctx : Context) (ref : Reference) (outer : List Scope) : Resolver Unit := do
  match distance? ref.name.lexeme outer with
  | some d => record ref.id (some (d + 1))
  | none =>
    if (← get).globals.get? ref.name.lexeme = some true then
      pure ()
    else if ctx.function = .none then
      report .readInOwnInitializer ref.name
    else
      modify fun s => { s with pending := s.pending ++ [ref.name] }

def read (ctx : Context) (ref : Reference) : Resolver Unit := do
  let s ← get
  match s.scopes with
  | [] =>
    if s.globals.get? ref.name.lexeme = some false then
      report .readInOwnInitializer ref.name
  | scope :: outer =>
    if scope.get? ref.name.lexeme = some false then
      linkShadowed ctx ref outer
    else
      link ref.id ref.name.lexeme

def useThis (ctx : Context) (id : NodeId) (keyword : Token) : Resolver Unit := do
  if ctx.classKind = .none then
    report .thisOutsideClass keyword
  else
    link id "this"

/-- The fault of a use of `super` in a class of some kind. -/
def superFault? : ClassKind → Option ScopeFault
  | .none => some .superOutsideClass
  | .base => some .superWithoutSuperclass
  | .derived => none

/-- Reports a use of `super` where it means nothing. -/
def checkSuper (ctx : Context) (keyword : Token) : Resolver Unit :=
  match superFault? ctx.classKind with
  | some fault => report fault keyword
  | none => pure ()

/-- A use of `super`, which is linked even where it is faulty. -/
def useSuper (ctx : Context) (id : NodeId) (keyword : Token) : Resolver Unit := do
  checkSuper ctx keyword
  link id "super"

/-! ## Expressions -/

mutual

def expr (ctx : Context) : Expr → Resolver Unit
  | .assign id name value => do
    expr ctx value
    link id name.lexeme
  | .binary _ left _ right => do
    expr ctx left
    expr ctx right
  | .call _ callee _ arguments => do
    expr ctx callee
    exprs ctx arguments
  | .get _ object _ => expr ctx object
  | .grouping _ inner => expr ctx inner
  | .literal _ _ => pure ()
  | .logical _ left _ right => do
    expr ctx left
    expr ctx right
  | .set _ object _ value => do
    expr ctx value
    expr ctx object
  | .super id keyword _ => useSuper ctx id keyword
  | .this id keyword => useThis ctx id keyword
  | .unary _ _ right => expr ctx right
  | .variable ref => read ctx ref

def exprs (ctx : Context) : List Expr → Resolver Unit
  | [] => pure ()
  | e :: es => do
    expr ctx e
    exprs ctx es

end

def expr? (ctx : Context) : Option Expr → Resolver Unit
  | none => pure ()
  | some e => expr ctx e

/-! ## Statements -/

/-- The faults of a `return`: it belongs to no function, or an initializer returns a value. -/
def checkReturn (ctx : Context) (keyword : Token) (value : Option Expr) : Resolver Unit := do
  if ctx.function = .none then
    report .returnAtTopLevel keyword
  else if ctx.function = .initializer ∧ value.isSome then
    report .returnFromInitializer keyword

def checkInheritance (name : Token) (ref : Reference) : Resolver Unit := do
  if ref.name.lexeme = name.lexeme then
    report .inheritsFromItself ref.name

/-- What a method is, by its name. -/
def methodKind (name : Token) : FunctionKind :=
  if name.lexeme = "init" then .initializer else .method

def thisScope : Scope := Bindings.empty.insert "this" true

/-- The scope around the body of a class that has a superclass. -/
def superScope : Scope := Bindings.empty.insert "super" true

def parameters : List Token → Resolver Unit
  | [] => pure ()
  | param :: params => do
    introduce param
    parameters params

mutual

def stmt (ctx : Context) : Stmt → Resolver Unit
  | .block body => inScope .empty (stmts ctx body)
  | .classDecl name none methodDecls => do
    introduce name
    inScope thisScope (methods { ctx with classKind := .base } methodDecls)
  | .classDecl name (some ref) methodDecls => do
    introduce name
    checkInheritance name ref
    read ctx ref
    inScope superScope <|
      inScope thisScope (methods { ctx with classKind := .derived } methodDecls)
  | .expression e => expr ctx e
  | .function decl => do
    introduce decl.name
    function { ctx with function := .function } decl
  | .ifElse condition thenBranch none => do
    expr ctx condition
    stmt ctx thenBranch
  | .ifElse condition thenBranch (some elseBranch) => do
    expr ctx condition
    stmt ctx thenBranch
    stmt ctx elseBranch
  | .print e => expr ctx e
  | .returnValue keyword value => do
    checkReturn ctx keyword value
    expr? ctx value
  | .varDecl name initializer => do
    declare name
    expr? ctx initializer
    define name
  | .whileLoop condition body => do
    expr ctx condition
    stmt ctx body

def stmts (ctx : Context) : List Stmt → Resolver Unit
  | [] => pure ()
  | s :: ss => do
    stmt ctx s
    stmts ctx ss

/-- The parameters and the body of a function, in a scope of their own. -/
def function (ctx : Context) : FunctionDecl → Resolver Unit
  | ⟨_, params, body⟩ => inScope .empty do
    parameters params
    stmts ctx body

def methods (ctx : Context) : List FunctionDecl → Resolver Unit
  | [] => pure ()
  | method :: rest => do
    function { ctx with function := methodKind method.name } method
    methods ctx rest

end

/-! ## Programs -/

/-- At the top level, where the given globals have a value already. -/
def start (knownGlobals : List String) : State :=
  ⟨∅, [], [], Bindings.ofNames knownGlobals true, []⟩

/-- The faults of the reads that were put off: no global of their name was declared after all. -/
def settle (s : State) : List StaticError :=
  (s.pending.filter fun token => s.globals.get? token.lexeme != some true).map
    (.atToken (.resolve .readInOwnInitializer))

end Resolver

/-- What is known of the names of a program. -/
structure Resolution where
  links : Links
  /-- The faults, ordered by line. -/
  errors : List StaticError

/-- Resolves a program, given the globals that have a value before it runs. -/
def resolve (statements : List Stmt) (knownGlobals : List String) : Resolution :=
  let context : Resolver.Context := ⟨.none, .none⟩
  let s := (Resolver.stmts context statements (Resolver.start knownGlobals)).2
  ⟨s.links, (s.errors ++ Resolver.settle s).mergeSort fun a b => a.line ≤ b.line⟩

end LoxLang
