import LoxLang.Proofs.Scope.Table

/-!
# Initializers

What a local variable means in its own initializer.

* `Stmt.initialized` lists the variables of a statement that are declared with an initializer, with
  what is around each of them.
* `Initialized.Shadows i d`: the variable hides another one, which is declared `d` scopes out.
* `Program.initializer_uses`: reads of the variable in its initializer mean the one that it hides,
  but an assignment there goes to the variable itself.
-/

namespace LoxLang

open Layer

/-! ## Initialized variables -/

/-- A variable that is declared with an initializer, with what is around its declaration. -/
structure Initialized where
  around : Surroundings
  name : Token
  value : Expr

namespace Initialized

/-- What is around the parts of the initializer. -/
def within (i : Initialized) : Surroundings := { i.around with self := some i.name.lexeme }

/-- A scope outside the one of the declaration, `d` steps out, has declared the name. -/
def DeclaredOutside (i : Initialized) (d : Nat) : Prop :=
  (∃ l, i.around.scopes[d]? = some l ∧ l.declares i.name.lexeme = true) ∧ d ≠ 0

/-- The nearest such scope is `d` steps out. -/
def Shadows (i : Initialized) (d : Nat) : Prop :=
  i.DeclaredOutside d ∧ ∀ d' < d, ¬ i.DeclaredOutside d'

end Initialized

mutual

/-- The initialized variables of a statement. -/
def Stmt.initialized (σ : Surroundings) : Stmt → List Initialized
  | .block body => Stmt.allInitialized (σ.enter (.names [])) body
  | .classDecl name none methods =>
    FunctionDecl.allInitialized ((σ.declare name.lexeme).enterClass .base) methods
  | .classDecl name (some _) methods =>
    FunctionDecl.allInitialized ((σ.declare name.lexeme).enterClass .derived) methods
  | .function decl => decl.initialized (σ.declare decl.name.lexeme) .function
  | .ifElse _ thenBranch none => thenBranch.initialized σ
  | .ifElse _ thenBranch (some elseBranch) => thenBranch.initialized σ ++ elseBranch.initialized σ
  | .varDecl name (some value) => [⟨σ, name, value⟩]
  | .whileLoop _ body => body.initialized σ
  | .expression _ | .print _ | .returnValue .. | .varDecl _ none => []

def Stmt.allInitialized (σ : Surroundings) : List Stmt → List Initialized
  | [] => []
  | s :: ss => s.initialized σ ++ Stmt.allInitialized (σ.after s) ss

def FunctionDecl.initialized (σ : Surroundings) (kind : FunctionKind) :
    FunctionDecl → List Initialized
  | ⟨_, params, body⟩ =>
    Stmt.allInitialized ((σ.enterFunction kind).declareAll (params.map Token.lexeme)) body

def FunctionDecl.allInitialized (σ : Surroundings) : List FunctionDecl → List Initialized
  | [] => []
  | decl :: decls =>
    decl.initialized σ (if decl.name.lexeme = "init" then .initializer else .method) ++
      FunctionDecl.allInitialized σ decls

end

/-! ## Their places -/

mutual

/-- The places of an initializer are among those of the statement that it is in. -/
theorem Stmt.placed_of_initialized {σ : Surroundings} {i : Initialized} : ∀ {s : Stmt},
    i ∈ s.initialized σ → i.value.placed i.within ⊆ s.placed σ
  | .block _, h => Stmt.placed_of_allInitialized h
  | .classDecl _ none _, h =>
      List.subset_cons_of_subset _ (FunctionDecl.placed_of_allInitialized h)
  | .classDecl _ (some _) _, h => by
      -- The class and its superclass are declared in front of the methods.
      apply List.subset_cons_of_subset
      apply List.subset_cons_of_subset
      apply List.subset_cons_of_subset
      exact FunctionDecl.placed_of_allInitialized h
  | .function _, h => List.subset_cons_of_subset _ (FunctionDecl.placed_of_initialized h)
  | .ifElse _ _ none, h => List.subset_append_of_subset_right _ (Stmt.placed_of_initialized h)
  | .ifElse _ _ (some _), h => by
      refine List.subset_append_of_subset_right _ ?_
      rcases List.mem_append.1 h with h | h
      · exact List.subset_append_of_subset_left _ (Stmt.placed_of_initialized h)
      · exact List.subset_append_of_subset_right _ (Stmt.placed_of_initialized h)
  | .varDecl _ (some value), h => by
      rw [List.mem_singleton.1 h, Stmt.placed, Option.toList_some, Expr.allPlaced,
        Expr.allNodes_singleton]
      exact List.subset_cons_self _ _
  | .whileLoop _ _, h => List.subset_append_of_subset_right _ (Stmt.placed_of_initialized h)
  | .expression _, h | .print _, h | .returnValue .., h | .varDecl _ none, h => nomatch h

/-- The uses in an initializer are among the uses of the program. -/
theorem Stmt.placed_of_allInitialized {σ : Surroundings} {i : Initialized} : ∀ {ss : List Stmt},
    i ∈ Stmt.allInitialized σ ss → i.value.placed i.within ⊆ Stmt.allPlaced σ ss
  | [], h => nomatch h
  | _ :: _, h => by
      rcases List.mem_append.1 h with h | h
      · exact List.subset_append_of_subset_left _ (Stmt.placed_of_initialized h)
      · exact List.subset_append_of_subset_right _ (Stmt.placed_of_allInitialized h)

theorem FunctionDecl.placed_of_initialized {σ : Surroundings} {kind : FunctionKind}
    {i : Initialized} : ∀ {decl : FunctionDecl},
    i ∈ decl.initialized σ kind → i.value.placed i.within ⊆ decl.placed σ kind
  | ⟨_, _, _⟩, h => List.subset_append_of_subset_right _ (Stmt.placed_of_allInitialized h)

theorem FunctionDecl.placed_of_allInitialized {σ : Surroundings} {i : Initialized} :
    ∀ {decls : List FunctionDecl}, i ∈ FunctionDecl.allInitialized σ decls →
      i.value.placed i.within ⊆ FunctionDecl.allPlaced σ decls
  | [], h => nomatch h
  | _ :: _, h => by
      rcases List.mem_append.1 h with h | h
      · exact List.subset_append_of_subset_left _ (FunctionDecl.placed_of_initialized h)
      · exact List.subset_append_of_subset_right _ (FunctionDecl.placed_of_allInitialized h)

end

namespace Program

/-- In the initializer of a local variable, all reads of that variable have the same address: that
of the nearest scope outside that declares the name, and none if there is no such scope. An
assignment to the variable means something else there, the variable that is being declared. -/
theorem initializer_uses (source : String) (firstId : NodeId) (known : List String)
    {i : Initialized} (h : i ∈ Stmt.allInitialized .top (ofSource source firstId).statements)
    (hlocal : i.around.scopes ≠ []) :
    let links := (resolve (ofSource source firstId).statements known).links
    ∃ address : Option Nat, (∀ d, address = some d ↔ i.Shadows d) ∧
      (∀ ref, .variable ref ∈ i.value.nodes → ref.name.lexeme = i.name.lexeme →
        links[ref.id]? = address) ∧
      ∀ id name value, .assign id name value ∈ i.value.nodes → name.lexeme = i.name.lexeme →
        links[id]? = some 0 ∧ address ≠ some 0 := by
  intro links
  have hentry : ∀ e ∈ i.value.nodes, links[e.id]? = i.within.address? e := fun e he =>
    links_eq_address? source firstId known <|
      Stmt.placed_of_allInitialized h (List.mem_map.2 ⟨e, he, rfl⟩)
  refine ⟨(depth? i.name.lexeme i.around.scopes.tail).map (· + 1),
    fun d => map_depth?_tail_eq_some_iff, ?_, ?_⟩
  · intro ref href hname
    refine (hentry _ href).trans ?_
    rw [Surroundings.address?, hname]
    exact if_pos rfl
  · intro id name value hassign hname
    refine ⟨(hentry _ hassign).trans (if_pos ⟨hlocal, congrArg some hname.symm⟩), ?_⟩
    simp

/-- The variable that is read is declared one scope out, but the one that is assigned to is the one
that is being declared. -/
theorem initializer_uses_assigned :
    let p := ofSource "\x7b var a = 1; \x7b var a = (a = 2) + a; \x7d \x7d" 0
    let links := (resolve p.statements []).links
    ∃ i ∈ Stmt.allInitialized .top p.statements, i.around.scopes ≠ [] ∧ i.Shadows 1 ∧
      ∃ id name value ref, .assign id name value ∈ i.value.nodes ∧ .variable ref ∈ i.value.nodes ∧
        name.lexeme = i.name.lexeme ∧ ref.name.lexeme = i.name.lexeme ∧
        links[id]? = some 0 ∧ links[ref.id]? = some 1 := by
  intro p links
  -- whether a name is assigned to, and which
  let use : Expr → Option (Bool × String)
    | .assign _ name _ => some (true, name.lexeme)
    | .variable ref => some (false, ref.name.lexeme)
    | _ => none
  have hread : (Stmt.allInitialized .top p.statements).any (fun i =>
      i.around.scopes.length == 2 &&
        i.value.nodes.any (fun e => use e == some (true, i.name.lexeme)) &&
        i.value.nodes.any (fun e => use e == some (false, i.name.lexeme) && e.id == 5)) = true := by
    decide +kernel
  have hentry : links[5]? = some 1 := by decide +kernel
  rcases List.any_eq_true.1 hread with ⟨i, hi, huses⟩
  simp only [Bool.and_eq_true, beq_iff_eq, List.any_eq_true] at huses
  rcases huses with ⟨⟨hscopes, e, he, hassigned⟩, e', he', hvariable, hid⟩
  have hlocal : i.around.scopes ≠ [] := fun hnone => by simp [hnone] at hscopes
  rcases initializer_uses _ 0 [] hi hlocal with ⟨address, hshadows, hread, hassign⟩
  cases e with
  | assign id name value =>
      cases e' with
      | «variable» ref =>
          have hname : name.lexeme = i.name.lexeme := congrArg Prod.snd (Option.some.inj hassigned)
          have hname' : ref.name.lexeme = i.name.lexeme :=
            congrArg Prod.snd (Option.some.inj hvariable)
          have hlink : links[ref.id]? = some 1 := (show ref.id = 5 from hid) ▸ hentry
          have haddress : address = some 1 := (hread ref he' hname').symm.trans hlink
          exact ⟨i, hi, hlocal, (hshadows 1).1 haddress, id, name, value, ref, he, he', hname,
            hname', (hassign id name value he hname).1, hlink⟩
      | _ => cases hvariable
  | _ => cases hassigned

end Program

end LoxLang
