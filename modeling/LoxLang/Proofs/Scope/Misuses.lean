import LoxLang.Proofs.Scope.Findings

/-!
# The misuses of names

What is reported when a program is resolved: one fault for each misuse of a name, and nothing else,
in the order of the lines.

A misuse is found either when the walk reaches its place, or behind the whole program, if it is a
read that was put off. `Place.fault?_eq` says that these are all, and that none is found twice.

* `Resolver.errors_perm`: the faults of a program are those of its places.
* `Program.errors_exact`: the same for a source, with the order of the faults.
-/

namespace LoxLang

/-! ## The two moments -/

/-- The misuse that a read turns out to be that was put off: no global of its name was declared
after all. -/
def Resolver.settled? (known all : List String) (token : Token) : Option StaticError :=
  if token.lexeme ∈ known ∨ token.lexeme ∈ all then none
  else some (.atToken (.resolve .readInOwnInitializer) token)

namespace Place

/-- The misuse at a place that is found in the end. -/
def faultInTheEnd? (known all : List String) (p : Place) : Option StaticError :=
  (p.putOff? known).bind (Resolver.settled? known all)

/-- A misuse is found at once or in the end, and not twice. -/
theorem fault?_eq (known all : List String) (p : Place) :
    p.fault? known all = (p.faultAtOnce? known).or (p.faultInTheEnd? known all) ∧
      (p.faultAtOnce? known = none ∨ p.faultInTheEnd? known all = none) := by
  rcases p with ⟨σ, what⟩
  cases what with
  | use e =>
      cases e with
      | «variable» ref =>
          grind [fault?, faultAtOnce?, faultInTheEnd?, putOff?, Resolver.settled?,
            Surroundings.Unshadowing]
      | _ => exact ⟨Option.or_none.symm, .inr rfl⟩
  | declaration | returned | inheritance => exact ⟨Option.or_none.symm, .inr rfl⟩

end Place

/-- What one of two functions finds in a list, where they never find something together. -/
theorem filterMap_or_perm {α β : Type} {f g : α → Option β} {l : List α}
    (h : ∀ a ∈ l, f a = none ∨ g a = none) :
    (l.filterMap fun a => (f a).or (g a)).Perm (l.filterMap f ++ l.filterMap g) := by
  induction l with
  | nil => exact .nil
  | cons a l ih =>
      have hrest := ih fun a ha => h a (List.mem_cons_of_mem _ ha)
      rw [List.filterMap_cons, List.filterMap_cons, List.filterMap_cons]
      -- At the head one of the two finds nothing; what the second one finds moves behind the rest.
      rcases h a List.mem_cons_self with hf | hg
      · rw [hf]
        cases g a with
        | none => exact hrest
        | some b => exact (hrest.cons b).trans List.perm_middle.symm
      · rw [hg]
        cases f a with
        | none => exact hrest
        | some b => exact hrest.cons b

/-! ## Programs -/

/-- Behind some statements of the top level, their names are declared there. -/
theorem Surroundings.afterAll_eq : ∀ (σ : Surroundings), σ.scopes = [] → ∀ ss : List Stmt,
    σ.afterAll ss = { σ with globals := σ.globals ++ ss.filterMap Stmt.declared? }
  | σ, _, [] => by simp [Surroundings.afterAll]
  | σ, hσ, s :: ss => by
      rw [Surroundings.afterAll, Surroundings.after, List.filterMap_cons]
      cases s.declared? with
      | none => exact Surroundings.afterAll_eq σ hσ ss
      | some x =>
          have hscopes : (σ.declare x).scopes = [] := by
            simp [Surroundings.declare, hσ, Layer.add]
          dsimp only
          rw [Surroundings.afterAll_eq _ hscopes ss, hscopes]
          simp [Surroundings.declare, hσ]

namespace Resolver

/-- At the end every global is known that was known before or is declared anywhere in the
program. -/
theorem settle_eq {known all : List String} {s : State}
    (h : ∀ x, s.globals.get? x = if x ∈ known ∨ x ∈ all then some true else none) :
    settle s = s.pending.filterMap (settled? known all) := by
  unfold settle
  induction s.pending with
  | nil => rfl
  | cons token tokens ih =>
      rw [List.filter_cons, List.filterMap_cons, ← ih, h, settled?]
      by_cases hdeclared : token.lexeme ∈ known ∨ token.lexeme ∈ all
      · simp [if_pos hdeclared]
      · simp [if_neg hdeclared]

/-- The faults of a program are those of its places. -/
theorem errors_perm {ss : List Stmt} (h : Stmt.AllShaped Named ss) (known : List String) :
    (resolve ss known).errors.Perm
      ((Stmt.allPlaced .top ss).filterMap (Place.fault? known (ss.filterMap Stmt.declared?))) := by
  rcases walks_program h known with ⟨hstands, hfinds⟩
  have hglobals := hstands.globals
  rw [Surroundings.afterAll_eq .top rfl] at hglobals
  simp only [Surroundings.top, List.nil_append, reduceCtorEq, and_false, if_false] at hglobals
  -- What was put off is looked at again with all that the program declares.
  have hpending := hfinds.pending.filterMap (settled? known (ss.filterMap Stmt.declared?))
  rw [← settle_eq hglobals, List.filterMap_append, List.filterMap_filterMap] at hpending
  have heq := fun p => (Place.fault?_eq known (ss.filterMap Stmt.declared?) p).1
  have hnone := fun p => (Place.fault?_eq known (ss.filterMap Stmt.declared?) p).2
  have hsplit := filterMap_or_perm (l := Stmt.allPlaced .top ss) fun p _ => hnone p
  simp only [← heq] at hsplit
  exact (List.mergeSort_perm _ _).trans ((hfinds.errors.append hpending).trans hsplit.symm)

end Resolver

namespace Program

/-- The faults of a program are the misuses of names at its places, one for each, in the order of
the lines. -/
theorem errors_exact (source : String) (firstId : NodeId) (known : List String) :
    let ss := (ofSource source firstId).statements
    let errors := (resolve ss known).errors
    errors.Pairwise (fun e e' => e.line ≤ e'.line) ∧
      errors.Perm ((Stmt.allPlaced .top ss).filterMap
        (Place.fault? known (ss.filterMap Stmt.declared?))) := by
  intro ss errors
  refine ⟨?_, Resolver.errors_perm (shaped_ofSource source firstId) known⟩
  -- the errors come out of a sort by line
  have hsorted : errors.Pairwise fun e e' => decide (e.line ≤ e'.line) = true := by
    refine List.pairwise_mergeSort ?_ ?_ _
    · intro a b c hab hbc
      exact decide_eq_true (Nat.le_trans (of_decide_eq_true hab) (of_decide_eq_true hbc))
    · intro a b
      simpa using Nat.le_total a.line b.line
  exact hsorted.imp of_decide_eq_true

/-- A later global saves the read in the function, but not the one in the block. -/
example :
    let source := "fun f() \x7b var a = a; \x7d \x7b var b = b; \x7d var a; var b;"
    let ss := (ofSource source 0).statements
    (resolve ss []).errors =
      [.atToken (.resolve .readInOwnInitializer) ⟨.identifier, "b", .nil, 1, 34⟩] := by
  decide +kernel

end Program

end LoxLang
