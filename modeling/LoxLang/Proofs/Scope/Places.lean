import LoxLang.Proofs.Grammar.Nodes
import LoxLang.Proofs.Scope.Linked

/-!
# Places in a program

Where the names of a program are used and declared, and what is to be found there.

* `Surroundings` say what is around a place: the scopes with what they have declared so far, the
  kinds of the function and the class, and the variable whose initializer the place is in.
* `Stmt.placed` lists the places of a statement in the order of the text: every expression, every
  declaration and every `return` with its surroundings.
* `Surroundings.Binds σ e x d` says that the scope `d` steps out is one in which `x`, used by `e`,
  may be bound; `Surroundings.address?` finds the nearest one.
* `Place.fault?` is the misuse of a name at a place.

None of this mentions how a program is resolved.
-/

namespace LoxLang

open Layer

/-! ## Surroundings -/

/-- What is around a place in a program. -/
structure Surroundings extends Resolver.Context where
  /-- What the scopes have declared so far, the innermost first. The top level is not one of
  them. -/
  scopes : List Layer
  /-- The names that the top level has declared so far. -/
  globals : List String
  /-- The variable whose initializer this is. -/
  self : Option String

namespace Surroundings

def top : Surroundings := ⟨⟨.none, .none⟩, [], [], none⟩

def declare (σ : Surroundings) (x : String) : Surroundings :=
  { σ with
    scopes := add x σ.scopes
    globals := if σ.scopes = [] then σ.globals ++ [x] else σ.globals }

def declareAll (σ : Surroundings) : List String → Surroundings
  | [] => σ
  | x :: xs => (σ.declare x).declareAll xs

def enter (σ : Surroundings) (l : Layer) : Surroundings := { σ with scopes := l :: σ.scopes }

/-- Inside the body of a class: a scope holds `this`, and another one around it holds `super` if
there is a superclass. -/
def enterClass (σ : Surroundings) : ClassKind → Surroundings
  | .derived => { (σ.enter .super).enter .this with classKind := .derived }
  | kind => { σ.enter .this with classKind := kind }

def enterFunction (σ : Surroundings) (kind : FunctionKind) : Surroundings :=
  { σ.enter (.names []) with function := kind }

def after (σ : Surroundings) (s : Stmt) : Surroundings :=
  match s.declared? with
  | some x => σ.declare x
  | none => σ

def afterAll (σ : Surroundings) : List Stmt → Surroundings
  | [] => σ
  | s :: ss => (σ.after s).afterAll ss

end Surroundings

/-! ## Places -/

/-- What stands at a place. -/
inductive Occurrence where
  | use (e : Expr)
  | declaration (name : Token)
  | returned (keyword : Token) (value : Option Expr)
  /-- A class that names a superclass. -/
  | inheritance (name : Token) (superclass : Reference)

/-- Something that stands in a program, with what is around it. -/
structure Place where
  around : Surroundings
  what : Occurrence

/-- The expression that is used at a place. -/
def Place.use? : Place → Option Expr
  | ⟨_, .use e⟩ => some e
  | _ => none

/-- The places of an expression: nothing inside of it changes what is around. -/
def Expr.placed (σ : Surroundings) (e : Expr) : List Place := e.nodes.map fun e => ⟨σ, .use e⟩

def Expr.allPlaced (σ : Surroundings) (es : List Expr) : List Place :=
  (Expr.allNodes es).map fun e => ⟨σ, .use e⟩

def parametersPlaced (σ : Surroundings) : List Token → List Place
  | [] => []
  | param :: params => ⟨σ, .declaration param⟩ :: parametersPlaced (σ.declare param.lexeme) params

mutual

/-- The places of a statement. The name of a function or a class is declared before what is inside
of it, and a variable behind its initializer. -/
def Stmt.placed (σ : Surroundings) : Stmt → List Place
  | .block body => Stmt.allPlaced (σ.enter (.names [])) body
  | .classDecl name none methods =>
    ⟨σ, .declaration name⟩ ::
      FunctionDecl.allPlaced ((σ.declare name.lexeme).enterClass .base) methods
  | .classDecl name (some ref) methods =>
    ⟨σ, .declaration name⟩ :: ⟨σ.declare name.lexeme, .inheritance name ref⟩ ::
      ⟨σ.declare name.lexeme, .use (.variable ref)⟩ ::
        FunctionDecl.allPlaced ((σ.declare name.lexeme).enterClass .derived) methods
  | .expression e | .print e => e.placed σ
  | .function decl =>
    ⟨σ, .declaration decl.name⟩ :: decl.placed (σ.declare decl.name.lexeme) .function
  | .ifElse condition thenBranch none => condition.placed σ ++ thenBranch.placed σ
  | .ifElse condition thenBranch (some elseBranch) =>
    condition.placed σ ++ (thenBranch.placed σ ++ elseBranch.placed σ)
  | .returnValue keyword value => ⟨σ, .returned keyword value⟩ :: Expr.allPlaced σ value.toList
  | .varDecl name value =>
    ⟨σ, .declaration name⟩ :: Expr.allPlaced { σ with self := some name.lexeme } value.toList
  | .whileLoop condition body => condition.placed σ ++ body.placed σ

def Stmt.allPlaced (σ : Surroundings) : List Stmt → List Place
  | [] => []
  | s :: ss => s.placed σ ++ Stmt.allPlaced (σ.after s) ss

def FunctionDecl.placed (σ : Surroundings) (kind : FunctionKind) : FunctionDecl → List Place
  | ⟨_, params, body⟩ =>
    parametersPlaced (σ.enterFunction kind) params ++
      Stmt.allPlaced ((σ.enterFunction kind).declareAll (params.map Token.lexeme)) body

def FunctionDecl.allPlaced (σ : Surroundings) : List FunctionDecl → List Place
  | [] => []
  | decl :: decls =>
    decl.placed σ (if decl.name.lexeme = "init" then .initializer else .method) ++
      FunctionDecl.allPlaced σ decls

end

/-! ## Every expression has its place -/

/-- Every node has one place, and no place is without its node. -/
theorem Expr.uses_allPlaced (σ : Surroundings) (es : List Expr) :
    (Expr.allPlaced σ es).filterMap Place.use? = Expr.allNodes es := by
  rw [Expr.allPlaced, List.filterMap_map]
  exact List.filterMap_some

theorem Expr.uses_placed (σ : Surroundings) (e : Expr) :
    (e.placed σ).filterMap Place.use? = e.nodes := by
  rw [Expr.placed, List.filterMap_map]
  exact List.filterMap_some

theorem uses_parametersPlaced (σ : Surroundings) (params : List Token) :
    (parametersPlaced σ params).filterMap Place.use? = [] := by
  induction params generalizing σ with
  | nil => rfl
  | cons param params ih => exact ih _

mutual

/-- By induction on the statement: the places are its nodes, in order. -/
theorem Stmt.uses_placed (σ : Surroundings) : ∀ s : Stmt,
    (s.placed σ).filterMap Place.use? = s.nodes
  | .block body => Stmt.uses_allPlaced _ body
  | .classDecl _ none methods => FunctionDecl.uses_allPlaced _ methods
  | .classDecl _ (some ref) methods =>
      congrArg (Expr.variable ref :: ·) (FunctionDecl.uses_allPlaced _ methods)
  | .expression e | .print e => e.uses_placed σ
  | .function decl => FunctionDecl.uses_placed _ _ decl
  | .ifElse condition thenBranch none => by
      rw [Stmt.placed, List.filterMap_append, condition.uses_placed, thenBranch.uses_placed]
      rfl
  | .ifElse condition thenBranch (some elseBranch) => by
      rw [Stmt.placed, List.filterMap_append, List.filterMap_append, condition.uses_placed,
        thenBranch.uses_placed, elseBranch.uses_placed]
      rfl
  | .returnValue _ value | .varDecl _ value => Expr.uses_allPlaced _ value.toList
  | .whileLoop condition body => by
      rw [Stmt.placed, List.filterMap_append, condition.uses_placed, body.uses_placed]
      rfl

theorem Stmt.uses_allPlaced (σ : Surroundings) : ∀ ss : List Stmt,
    (Stmt.allPlaced σ ss).filterMap Place.use? = Stmt.allNodes ss
  | [] => rfl
  | s :: ss => by
      rw [Stmt.allPlaced, List.filterMap_append, s.uses_placed, Stmt.uses_allPlaced _ ss]
      rfl

theorem FunctionDecl.uses_placed (σ : Surroundings) (kind : FunctionKind) :
    ∀ decl : FunctionDecl, (decl.placed σ kind).filterMap Place.use? = decl.nodes
  | ⟨_, params, body⟩ => by
      rw [FunctionDecl.placed, List.filterMap_append, uses_parametersPlaced,
        Stmt.uses_allPlaced _ body]
      rfl

theorem FunctionDecl.uses_allPlaced (σ : Surroundings) : ∀ decls : List FunctionDecl,
    (FunctionDecl.allPlaced σ decls).filterMap Place.use? = FunctionDecl.allNodes decls
  | [] => rfl
  | decl :: decls => by
      rw [FunctionDecl.allPlaced, List.filterMap_append, decl.uses_placed,
        FunctionDecl.uses_allPlaced _ decls]
      rfl

end

/-! ## What a name means -/

/-- The name that an expression uses. -/
def Expr.name? : Expr → Option String
  | .assign _ name _ => some name.lexeme
  | .super .. => some "super"
  | .this .. => some "this"
  | .variable ref => some ref.name.lexeme
  | _ => none

namespace Surroundings

/-- A read of the variable whose initializer this is. -/
def ReadsSelf (σ : Surroundings) : Expr → Prop
  | .variable ref => σ.self = some ref.name.lexeme
  | _ => False

/-- An assignment to the local variable whose initializer this is. -/
def AssignsSelf (σ : Surroundings) : Expr → Prop
  | .assign _ name _ => σ.scopes ≠ [] ∧ σ.self = some name.lexeme
  | _ => False

/-- The scope `d` steps out has declared `x`, and `e` does not skip it: a read of a variable in its
own initializer skips the innermost scope. -/
def Binds (σ : Surroundings) (e : Expr) (x : String) (d : Nat) : Prop :=
  (∃ l, σ.scopes[d]? = some l ∧ l.declares x = true) ∧ ¬ (d = 0 ∧ σ.ReadsSelf e)

def address? (σ : Surroundings) : Expr → Option Nat
  | .assign _ name _ =>
    if σ.scopes ≠ [] ∧ σ.self = some name.lexeme then some 0 else depth? name.lexeme σ.scopes
  | .super .. => depth? "super" σ.scopes
  | .this .. => depth? "this" σ.scopes
  | .variable ref =>
    if σ.self = some ref.name.lexeme then (depth? ref.name.lexeme σ.scopes.tail).map (· + 1)
      else depth? ref.name.lexeme σ.scopes
  | _ => none

end Surroundings

/-- The distance of a name is that of the first scope that has declared it. -/
theorem Layer.depth?_eq_some_iff {x : String} {Γ : List Layer} {d : Nat} :
    depth? x Γ = some d ↔ (∃ l, Γ[d]? = some l ∧ l.declares x = true) ∧
      ∀ d' < d, ¬ ∃ l, Γ[d']? = some l ∧ l.declares x = true := by
  induction Γ generalizing d with
  | nil => simp [depth?]
  | cons l Γ ih =>
      rw [depth?_cons]
      -- If the first layer declares the name, nothing is nearer; otherwise one layer less is left.
      by_cases hl : l.declares x = true
      · rw [if_pos hl]
        constructor
        · rintro ⟨⟩
          exact ⟨⟨l, rfl, hl⟩, fun d' hd' => absurd hd' (Nat.not_lt_zero d')⟩
        · rintro ⟨-, hfirst⟩
          cases d with
          | zero => rfl
          | succ d => exact absurd ⟨l, rfl, hl⟩ (hfirst 0 (Nat.zero_lt_succ d))
      · rw [if_neg hl, Option.map_eq_some_iff]
        constructor
        · rintro ⟨d, hd, rfl⟩
          rcases ih.1 hd with ⟨hbound, hfirst⟩
          refine ⟨hbound, fun d' hd' => ?_⟩
          cases d' with
          | zero =>
              rintro ⟨l', ⟨⟩, hl'⟩
              exact hl hl'
          | succ d' => exact hfirst d' (Nat.lt_of_succ_lt_succ hd')
        · rintro ⟨⟨l', hl', hdeclares⟩, hfirst⟩
          cases d with
          | zero =>
              cases hl'
              exact absurd hdeclares hl
          | succ d =>
              refine ⟨d, ih.2 ⟨⟨l', hl', hdeclares⟩, fun d' hd' => ?_⟩, rfl⟩
              exact hfirst (d' + 1) (Nat.succ_lt_succ hd')

/-- A name without a depth is declared in no layer. -/
theorem Layer.depth?_eq_none_iff {x : String} {Γ : List Layer} :
    depth? x Γ = none ↔ ∀ l ∈ Γ, l.declares x = false :=
  List.findIdx?_eq_none_iff

/-- The same without the innermost scope. -/
theorem Layer.map_depth?_tail_eq_some_iff {x : String} {Γ : List Layer} {d : Nat} :
    (depth? x Γ.tail).map (· + 1) = some d ↔
      ((∃ l, Γ[d]? = some l ∧ l.declares x = true) ∧ d ≠ 0) ∧
        ∀ d' < d, ¬ ((∃ l, Γ[d']? = some l ∧ l.declares x = true) ∧ d' ≠ 0) := by
  rw [Option.map_eq_some_iff]
  constructor
  -- a layer behind the first one is one further out than in the tail
  · rintro ⟨d, hd, rfl⟩
    rcases depth?_eq_some_iff.1 hd with ⟨⟨l, hl, hdeclares⟩, hfirst⟩
    rw [List.getElem?_tail] at hl
    refine ⟨⟨⟨l, hl, hdeclares⟩, Nat.succ_ne_zero d⟩, ?_⟩
    rintro (_ | d') hd' ⟨⟨l', hl', hdeclares'⟩, hne⟩
    · exact hne rfl
    · exact hfirst d' (Nat.lt_of_succ_lt_succ hd') ⟨l', by rwa [List.getElem?_tail], hdeclares'⟩
  -- the layer is not the first one, so it is one of the tail
  · rintro ⟨⟨⟨l, hl, hdeclares⟩, hne⟩, hfirst⟩
    cases d with
    | zero => exact absurd rfl hne
    | succ d =>
        refine ⟨d, depth?_eq_some_iff.2 ⟨⟨l, by rwa [List.getElem?_tail], hdeclares⟩, ?_⟩, rfl⟩
        rintro d' hd' ⟨l', hl', hdeclares'⟩
        rw [List.getElem?_tail] at hl'
        exact hfirst (d' + 1) (Nat.succ_lt_succ hd') ⟨⟨l', hl', hdeclares'⟩, Nat.succ_ne_zero d'⟩

namespace Surroundings

variable {σ : Surroundings} {e : Expr}

/-- A name that no scope is skipped for is bound in the first scope that has declared it. -/
theorem depth?_eq_some_iff_binds (h : ¬ σ.ReadsSelf e) {x : String} {d : Nat} :
    depth? x σ.scopes = some d ↔ σ.Binds e x d ∧ ∀ d' < d, ¬ σ.Binds e x d' := by
  simp only [Binds, h, and_false, not_false_eq_true, and_true]
  exact depth?_eq_some_iff

/-- The address of an expression is the nearest scope in which its name is bound. Only an assignment
to a local variable in its own initializer may mean something else. -/
theorem address?_eq_some_iff (h : ¬ σ.AssignsSelf e) {d : Nat} :
    σ.address? e = some d ↔
      ∃ x, e.name? = some x ∧ σ.Binds e x d ∧ ∀ d' < d, ¬ σ.Binds e x d' := by
  cases e with
  | assign id name value =>
      have hself : ¬ (σ.scopes ≠ [] ∧ σ.self = some name.lexeme) := h
      simp only [address?, Expr.name?, if_neg hself, Option.some.injEq, exists_eq_left']
      exact depth?_eq_some_iff_binds (e := .assign id name value) not_false
  | super id keyword method =>
      simp only [address?, Expr.name?, Option.some.injEq, exists_eq_left']
      exact depth?_eq_some_iff_binds (e := .super id keyword method) not_false
  | this id keyword =>
      simp only [address?, Expr.name?, Option.some.injEq, exists_eq_left']
      exact depth?_eq_some_iff_binds (e := .this id keyword) not_false
  | «variable» ref =>
      simp only [address?, Expr.name?, Option.some.injEq, exists_eq_left']
      by_cases hself : σ.self = some ref.name.lexeme
      -- A read in its own initializer is bound as if the innermost layer were not there.
      · have hreads : σ.ReadsSelf (.variable ref) := hself
        simp only [if_pos hself, Binds, hreads, and_true]
        exact map_depth?_tail_eq_some_iff
      · rw [if_neg hself]
        exact depth?_eq_some_iff_binds (e := .variable ref) hself
  | _ => simp [address?, Expr.name?]

end Surroundings

/-! ## What is wrong with a name -/

namespace Surroundings

/-- A name that was not declared around its own initializer, neither in an outer scope nor at the
top level. In a function a later declaration at the top level will do; `all` are the names that the
top level declares anywhere. -/
def Unshadowing (σ : Surroundings) (known all : List String) (x : String) : Prop :=
  x ∉ known ∧ x ∉ σ.globals ∧
    (σ.scopes ≠ [] → (∀ l ∈ σ.scopes.tail, l.declares x = false) ∧
      (σ.function ≠ .none → x ∉ all))

instance (σ : Surroundings) (known all : List String) (x : String) :
    Decidable (σ.Unshadowing known all x) :=
  inferInstanceAs (Decidable (_ ∧ _ ∧ (_ → _ ∧ (_ → _))))

/-- In a scope, as long as nothing is said of what the top level declares later. -/
theorem unshadowing_nil_iff {σ : Surroundings} {l : Layer} {Γ : List Layer}
    (hΓ : σ.scopes = l :: Γ) (known : List String) (x : String) :
    σ.Unshadowing known [] x ↔ ¬ (x ∈ known ∨ x ∈ σ.globals) ∧ depth? x Γ = none := by
  simp [Unshadowing, hΓ, depth?_eq_none_iff, and_assoc]

/-- The innermost scope has already declared a name. The top level is no such scope. -/
def Declares (σ : Surroundings) (x : String) : Prop := ∃ l ∈ σ.scopes.head?, l.declares x = true

instance (σ : Surroundings) (x : String) : Decidable (σ.Declares x) :=
  inferInstanceAs (Decidable (∃ l ∈ σ.scopes.head?, _))

end Surroundings

/-- The misuse of a name at a place, given the names that have a value before the program runs and
all those that its top level declares. -/
def Place.fault? (known all : List String) : Place → Option StaticError
  | ⟨σ, .declaration name⟩ =>
    if σ.Declares name.lexeme then some (.atToken (.resolve .alreadyDeclared) name) else none
  | ⟨σ, .returned keyword value⟩ =>
    if σ.function = .none then some (.atToken (.resolve .returnAtTopLevel) keyword)
    else if σ.function = .initializer ∧ value.isSome then
      some (.atToken (.resolve .returnFromInitializer) keyword)
    else none
  | ⟨_, .inheritance name superclass⟩ =>
    if superclass.name.lexeme = name.lexeme then
      some (.atToken (.resolve .inheritsFromItself) superclass.name)
    else none
  | ⟨σ, .use (.this _ keyword)⟩ =>
    if σ.classKind = .none then some (.atToken (.resolve .thisOutsideClass) keyword) else none
  | ⟨σ, .use (.super _ keyword _)⟩ =>
    match σ.classKind with
    | .none => some (.atToken (.resolve .superOutsideClass) keyword)
    | .base => some (.atToken (.resolve .superWithoutSuperclass) keyword)
    | .derived => none
  | ⟨σ, .use (.variable ref)⟩ =>
    if σ.self = some ref.name.lexeme ∧ σ.Unshadowing known all ref.name.lexeme then
      some (.atToken (.resolve .readInOwnInitializer) ref.name)
    else none
  | ⟨_, .use _⟩ => none

end LoxLang
