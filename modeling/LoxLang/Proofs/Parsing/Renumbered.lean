import LoxLang.Proofs.Grammar.Renumber
import LoxLang.Proofs.Parsing.Steady

/-!
# Where the numbering starts

A token list reads as the same program, with the same faults, wherever the numbering of its
expressions starts: all numbers move by the same amount.

* `Parser.Moves k g p p'`: from an input whose numbering is `k` further on, `p'` does what `p` does.
  What `p` reads is related to what `p'` reads by `g`.
* The proofs follow the productions: one lemma each, by recursion on the bound of their depth.
* `Program.ofTokens_add` is the result for programs.
-/

namespace LoxLang

namespace Parser

variable {α β γ δ : Type} {k : Nat}

/-! ## Two inputs -/

def Input.shift (k : Nat) (s : Input) : Input := { s with nextId := s.nextId + k }

/-- What a production ends in if the numbering is further on. -/
def moved (k : Nat) (g : α → β) : EStateM.Result Stop Input α → EStateM.Result Stop Input β
  | .ok a s => .ok (g a) (s.shift k)
  | .error reason s => .error reason (s.shift k)

def Moves (k : Nat) (g : α → β) (p : Parser α) (p' : Parser β) : Prop :=
  ∀ s : Input, p' (s.shift k) = moved k g (p s)

/-- A production to which the numbering makes no difference. -/
abbrev Still (k : Nat) (p : Parser α) : Prop := Moves k id p p

namespace Moves

variable {g : α → γ} {h : β → δ}

theorem pure {a : α} {c : γ} (hc : c = g a) : Moves k g (Pure.pure a) (Pure.pure c) := by
  subst hc
  exact fun _ => rfl

theorem throw (reason : Stop) : Moves k g (throw reason) (throw reason) := fun _ => rfl

theorem bind {x : Parser α} {x' : Parser γ} {f : α → Parser β} {f' : γ → Parser δ}
    (hx : Moves k g x x') (hf : ∀ a, Moves k h (f a) (f' (g a))) :
    Moves k h (x >>= f) (x' >>= f') := by
  intro s
  rw [bind_run, bind_run, hx s]
  cases x s with
  | ok a s' => exact hf a s'
  | error reason s' => rfl

theorem map {x : Parser α} {x' : Parser γ} {f : α → β} {f' : γ → δ} (hx : Moves k g x x')
    (hf : ∀ a, f' (g a) = h (f a)) : Moves k h (f <$> x) (f' <$> x') := by
  intro s
  rw [map_run, map_run, hx s]
  cases x s with
  | ok a s' => exact congrArg (EStateM.Result.ok · _) (hf a)
  | error reason s' => rfl

theorem fresh : Moves k (· + k) fresh fresh := by
  intro s
  rw [fresh_run, fresh_run]
  have hnext : s.nextId + k + 1 = s.nextId + 1 + k := Nat.add_right_comm _ _ _
  simp [Input.shift, moved, hnext]

theorem recovering {p : Parser α} {p' : Parser γ} (hp : Moves k g p p') :
    Moves k (Option.map g) (recovering p) (recovering p') := by
  intro s
  unfold Parser.recovering
  rw [hp s]
  cases p s with
  | ok _ _ => rfl
  | error reason _ => cases reason <;> rfl

end Moves

namespace Still

variable {h : β → δ}

theorem bind {x : Parser α} {f : α → Parser β} {f' : α → Parser δ} (hx : Still k x)
    (hf : ∀ a, Moves k h (f a) (f' a)) : Moves k h (x >>= f) (x >>= f') := Moves.bind hx hf

theorem current : Still k current := fun _ => rfl

theorem at? (kind : Kind) : Still k (at? kind) := fun _ => rfl

theorem atBodyEnd : Still k atBodyEnd := fun _ => rfl

theorem report (fault : SyntaxFault) (token : Token) : Still k (report fault token) := fun _ => rfl

theorem advance : Still k advance := by
  intro s
  rw [advance_run, advance_run]
  have hnext : (s.shift k).next = s.next.shift k := by
    have hhead : (s.shift k).head = s.head := rfl
    unfold Input.next
    rw [hhead]
    split <;> rfl
  rw [hnext]
  rfl

theorem accept (wanted : Kind → Bool) : Still k (accept wanted) := by
  refine current.bind fun token => ?_
  split
  · exact Moves.map advance fun _ => rfl
  · exact .pure rfl

theorem skip? (kind : Kind) : Still k (skip? kind) := (accept _).bind fun _ => .pure rfl

theorem fail (fault : SyntaxFault) : Still k (fail fault : Parser α) := fun _ => rfl

theorem reportExcess (count : Nat) (fault : SyntaxFault) : Still k (reportExcess count fault) := by
  unfold Parser.reportExcess
  split
  · exact current.bind fun token => report fault token
  · exact .pure rfl

theorem expect (kind : Kind) (fault : SyntaxFault) : Still k (expect kind fault) := by
  refine (at? kind).bind fun isThere => ?_
  split
  · exact advance
  · exact fail fault

theorem expectMark (mark : Kind) (place : MarkPlace) : Still k (expectMark mark place) :=
  expect mark _

theorem expectName (role : NameRole) : Still k (expectName role) := expect .identifier _

end Still

/-! ## Expressions -/

mutual

/-- By induction on the bound: with the numbering further on, the same expression is made, its
numbers as much further on. -/
theorem moves_expression : ∀ n,
    Moves k (Expr.renumber (· + k)) (expression n) (expression n)
  | 0 => .throw _
  | n + 1 => by
      unfold expression
      refine (moves_operation n fun _ => Level.natural_of_mem_all _).bind fun left => ?_
      refine (Still.accept _).bind fun equals => ?_
      cases equals with
      | none => exact .pure rfl
      | some equals =>
          refine (moves_expression n).bind fun value => ?_
          -- Renumbering does not change what kind of target it is.
          cases left with
          | «variable» ref => exact Moves.fresh.bind fun _ => .pure rfl
          | get _ object name => exact Moves.fresh.bind fun _ => .pure rfl
          | _ => exact (Still.report _ _).bind fun _ => .pure rfl

theorem moves_operation : ∀ n {levels : List Level}, (∀ level ∈ levels, level.Natural (· + k)) →
    Moves k (Expr.renumber (· + k)) (operation n levels) (operation n levels)
  | 0, _, _ => .throw _
  | n + 1, [], _ => moves_unary n
  | n + 1, level :: tighter, hlevels => by
      unfold operation
      have htighter := (List.forall_mem_cons.1 hlevels).2
      exact (moves_operation n htighter).bind fun left => moves_chain n hlevels left

theorem moves_chain : ∀ n {level : Level} {tighter : List Level},
    (∀ level' ∈ level :: tighter, level'.Natural (· + k)) → ∀ left : Expr,
    Moves k (Expr.renumber (· + k)) (chain n level tighter left)
      (chain n level tighter (left.renumber (· + k)))
  | 0, _, _, _, _ => .throw _
  | n + 1, level, tighter, hlevels, left => by
      unfold chain
      refine (Still.accept _).bind fun operator => ?_
      cases operator with
      | none => exact .pure rfl
      | some operator =>
          rcases List.forall_mem_cons.1 hlevels with ⟨hlevel, htighter⟩
          refine (moves_operation n htighter).bind fun right => Moves.fresh.bind fun id => ?_
          rw [← hlevel id left operator right]
          exact moves_chain n hlevels _

theorem moves_unary : ∀ n, Moves k (Expr.renumber (· + k)) (unary n) (unary n)
  | 0 => .throw _
  | n + 1 => by
      unfold unary
      refine (Still.accept _).bind fun operator => ?_
      cases operator with
      | none => exact (moves_primary n).bind fun callee => moves_calls n callee
      | some operator =>
          exact (moves_unary n).bind fun right => Moves.fresh.bind fun id => .pure rfl

theorem moves_calls : ∀ n (callee : Expr),
    Moves k (Expr.renumber (· + k)) (calls n callee) (calls n (callee.renumber (· + k)))
  | 0, _ => .throw _
  | n + 1, callee => by
      unfold calls
      refine (Still.skip? _).bind fun isCall => ?_
      split
      · refine (moves_arguments n).bind fun arguments => ?_
        refine (Still.expectMark _ _).bind fun paren => Moves.fresh.bind fun id => ?_
        exact moves_calls n (.call id callee paren arguments)
      · refine (Still.skip? _).bind fun isGet => ?_
        split
        · refine (Still.expectName _).bind fun name => Moves.fresh.bind fun id => ?_
          exact moves_calls n (.get id callee name)
        · exact .pure rfl

theorem moves_arguments : ∀ n, Moves k (Expr.renumberAll (· + k)) (arguments n) (arguments n)
  | 0 => .throw _
  | n + 1 => by
      unfold arguments
      refine (Still.at? _).bind fun isEmpty => ?_
      split
      · exact .pure rfl
      · exact (moves_expression n).bind fun first => moves_moreArguments n [first]

theorem moves_moreArguments : ∀ n (before : List Expr),
    Moves k (Expr.renumberAll (· + k)) (moreArguments n before)
      (moreArguments n (Expr.renumberAll (· + k) before))
  | 0, _ => .throw _
  | n + 1, before => by
      unfold moreArguments
      refine (Still.skip? _).bind fun isMore => ?_
      split
      · have hlength : (Expr.renumberAll (· + k) before).length = before.length := by
          rw [Expr.renumberAll_eq_map, List.length_map]
        rw [hlength]
        refine (Still.reportExcess _ _).bind fun _ => ?_
        refine (moves_expression n).bind fun argument => ?_
        have happend : Expr.renumberAll (· + k) before ++ [argument.renumber (· + k)] =
            Expr.renumberAll (· + k) (before ++ [argument]) := by
          simp [Expr.renumberAll_eq_map]
        rw [happend]
        exact moves_moreArguments n _
      · exact .pure rfl

theorem moves_primary : ∀ n, Moves k (Expr.renumber (· + k)) (primary n) (primary n)
  | 0 => .throw _
  | n + 1 => by
      unfold primary
      refine Still.current.bind fun token => ?_
      have hliteral : ∀ value, Moves k (Expr.renumber (· + k))
          (do let _ ← advance; return Expr.literal (← fresh) value)
          (do let _ ← advance; return Expr.literal (← fresh) value) := fun value =>
        Still.advance.bind fun _ => Moves.fresh.bind fun _ => .pure rfl
      split
      · exact hliteral _
      · exact hliteral _
      · exact hliteral _
      · exact hliteral _
      · exact hliteral _
      · refine Still.advance.bind fun _ => (Still.expectMark _ _).bind fun _ => ?_
        exact (Still.expectName _).bind fun _ => Moves.fresh.bind fun _ => .pure rfl
      · exact Still.advance.bind fun _ => Moves.fresh.bind fun _ => .pure rfl
      · exact Still.advance.bind fun _ => Moves.fresh.bind fun _ => .pure rfl
      · refine Still.advance.bind fun _ => (moves_expression n).bind fun inner => ?_
        exact (Still.expectMark _ _).bind fun _ => Moves.fresh.bind fun _ => .pure rfl
      · exact fun _ => rfl

end

/-! ## Clauses without a statement -/

theorem moves_optionalExpression (n : Nat) (mark : Kind) :
    Moves k (Option.map (Expr.renumber (· + k))) (optionalExpression n mark)
      (optionalExpression n mark) := by
  refine (Still.at? mark).bind fun isMissing => ?_
  split
  · exact .pure rfl
  · exact (moves_expression n).map fun _ => rfl

theorem moves_expressionStatement (n : Nat) :
    Moves k (Stmt.renumber (· + k)) (expressionStatement n) (expressionStatement n) := by
  refine (moves_expression n).bind fun e => ?_
  exact (Still.expectMark _ _).bind fun _ => .pure rfl

theorem moves_printStatement (n : Nat) :
    Moves k (Stmt.renumber (· + k)) (printStatement n) (printStatement n) := by
  refine (moves_expression n).bind fun e => ?_
  exact (Still.expectMark _ _).bind fun _ => .pure rfl

theorem moves_returnStatement (n : Nat) (keyword : Token) :
    Moves k (Stmt.renumber (· + k)) (returnStatement n keyword) (returnStatement n keyword) := by
  refine (moves_optionalExpression n _).bind fun value => ?_
  exact (Still.expectMark _ _).bind fun _ => .pure rfl

theorem moves_initializer (n : Nat) :
    Moves k (Option.map (Expr.renumber (· + k))) (initializer n) (initializer n) := by
  refine (Still.skip? _).bind fun isGiven => ?_
  split
  · exact (moves_expression n).map fun _ => rfl
  · exact .pure rfl

theorem moves_varDeclaration (n : Nat) :
    Moves k (Stmt.renumber (· + k)) (varDeclaration n) (varDeclaration n) := by
  refine (Still.expectName _).bind fun name => ?_
  refine (moves_initializer n).bind fun value => ?_
  exact (Still.expectMark _ _).bind fun _ => .pure rfl

theorem still_moreParameters : ∀ n params, Still k (moreParameters n params)
  | 0, _ => .throw _
  | n + 1, params => by
      unfold moreParameters
      refine (Still.skip? _).bind fun isMore => ?_
      split
      · refine (Still.reportExcess _ _).bind fun _ => ?_
        exact (Still.expectName _).bind fun param => still_moreParameters n _
      · exact .pure rfl

theorem still_parameters (n : Nat) : Still k (parameters n) := by
  refine (Still.at? _).bind fun isEmpty => ?_
  split
  · exact .pure rfl
  · exact (Still.expectName _).bind fun first => still_moreParameters n [first]

theorem moves_forInitializer (n : Nat) :
    Moves k (Option.map (Stmt.renumber (· + k))) (forInitializer n) (forInitializer n) := by
  refine (Still.skip? _).bind fun isMissing => ?_
  split
  · exact .pure rfl
  · refine (Still.skip? _).bind fun isVariable => ?_
    split
    · exact (moves_varDeclaration n).map fun _ => rfl
    · exact (moves_expressionStatement n).map fun _ => rfl

theorem moves_superclass :
    Moves k (Option.map (Reference.renumber (· + k))) superclass superclass := by
  refine (Still.skip? _).bind fun isGiven => ?_
  split
  · exact (Still.expectName _).bind fun name => Moves.fresh.bind fun id => .pure rfl
  · exact .pure rfl

/-! ## Statements -/

mutual

/-- Whether a declaration is faulty does not depend on its numbers. -/
theorem moves_declaration : ∀ n,
    Moves k (Option.map (Stmt.renumber (· + k))) (declaration n) (declaration n)
  | 0 => .throw _
  | n + 1 => by
      -- the first word decides, and it has no number
      have hbody : Moves k (Stmt.renumber (· + k)) (declarationBody n) (declarationBody n) := by
        refine (Still.skip? _).bind fun isClass => ?_
        split
        · exact moves_classDeclaration n
        · refine (Still.skip? _).bind fun isFunction => ?_
          split
          · exact (moves_function n .function).bind fun decl => .pure rfl
          · refine (Still.skip? _).bind fun isVariable => ?_
            split
            · exact moves_varDeclaration n
            · exact moves_statement n
      rw [declaration_succ]
      exact hbody.recovering

theorem moves_classDeclaration : ∀ n,
    Moves k (Stmt.renumber (· + k)) (classDeclaration n) (classDeclaration n)
  | 0 => .throw _
  | n + 1 => by
      unfold classDeclaration
      refine (Still.expectName _).bind fun name => ?_
      refine moves_superclass.bind fun superclass => ?_
      refine (Still.expectMark _ _).bind fun _ => ?_
      refine (moves_methods n).bind fun methods => ?_
      exact (Still.expectMark _ _).bind fun _ => .pure rfl

theorem moves_methods : ∀ n,
    Moves k (FunctionDecl.renumberAll (· + k)) (methods n) (methods n)
  | 0 => .throw _
  | n + 1 => by
      unfold methods
      refine Still.atBodyEnd.bind fun isEnd => ?_
      split
      · exact .pure rfl
      · refine (moves_function n .method).bind fun method => ?_
        exact (moves_methods n).bind fun rest => .pure rfl

theorem moves_function : ∀ n callable,
    Moves k (FunctionDecl.renumber (· + k)) (function n callable) (function n callable)
  | 0, _ => .throw _
  | n + 1, callable => by
      unfold function
      refine (Still.expectName _).bind fun name => ?_
      refine (Still.expectMark _ _).bind fun _ => ?_
      refine (still_parameters n).bind fun params => ?_
      refine (Still.expectMark _ _).bind fun _ => ?_
      refine (Still.expectMark _ _).bind fun _ => ?_
      exact (moves_block n).bind fun body => .pure rfl

theorem moves_block : ∀ n, Moves k (Stmt.renumberAll (· + k)) (block n) (block n)
  | 0 => .throw _
  | n + 1 => by
      unfold block
      refine Still.atBodyEnd.bind fun isEnd => ?_
      split
      · exact (Still.expectMark _ _).bind fun _ => .pure rfl
      · refine (moves_declaration n).bind fun first => ?_
        refine (moves_block n).bind fun rest => .pure ?_
        exact (Stmt.renumberAll_toList_append _ first rest).symm

theorem moves_statement : ∀ n, Moves k (Stmt.renumber (· + k)) (statement n) (statement n)
  | 0 => .throw _
  | n + 1 => by
      unfold statement
      refine Still.current.bind fun token => ?_
      split
      · exact Still.advance.bind fun _ => moves_forStatement n
      · exact Still.advance.bind fun _ => moves_ifStatement n
      · exact Still.advance.bind fun _ => moves_printStatement n
      · exact Still.advance.bind fun _ => moves_returnStatement n token
      · exact Still.advance.bind fun _ => moves_whileStatement n
      · refine Still.advance.bind fun _ => ?_
        exact (moves_block n).bind fun body => .pure rfl
      · exact moves_expressionStatement n

theorem moves_forStatement : ∀ n,
    Moves k (Stmt.renumber (· + k)) (forStatement n) (forStatement n)
  | 0 => .throw _
  | n + 1 => by
      unfold forStatement
      refine (Still.expectMark _ _).bind fun _ => ?_
      refine (moves_forInitializer n).bind fun initializer => ?_
      refine (moves_optionalExpression n _).bind fun condition => ?_
      refine (Still.expectMark _ _).bind fun _ => ?_
      refine (moves_optionalExpression n _).bind fun increment => ?_
      refine (Still.expectMark _ _).bind fun _ => ?_
      refine (moves_statement n).bind fun body => ?_
      -- a condition that is left out gets a number of its own, behind all the others
      cases condition with
      | none =>
          refine Moves.fresh.bind fun id => .pure ?_
          exact (Stmt.renumber_forLoop _ initializer (.literal id (.bool true)) increment body).symm
      | some e => exact .pure (Stmt.renumber_forLoop _ initializer e increment body).symm

theorem moves_ifStatement : ∀ n,
    Moves k (Stmt.renumber (· + k)) (ifStatement n) (ifStatement n)
  | 0 => .throw _
  | n + 1 => by
      unfold ifStatement
      refine (Still.expectMark _ _).bind fun _ => ?_
      refine (moves_expression n).bind fun condition => ?_
      refine (Still.expectMark _ _).bind fun _ => ?_
      refine (moves_statement n).bind fun thenBranch => ?_
      refine (Still.skip? _).bind fun hasElse => ?_
      split
      · exact (moves_statement n).bind fun elseBranch => .pure rfl
      · exact .pure rfl

theorem moves_whileStatement : ∀ n,
    Moves k (Stmt.renumber (· + k)) (whileStatement n) (whileStatement n)
  | 0 => .throw _
  | n + 1 => by
      unfold whileStatement
      refine (Still.expectMark _ _).bind fun _ => ?_
      refine (moves_expression n).bind fun condition => ?_
      refine (Still.expectMark _ _).bind fun _ => ?_
      exact (moves_statement n).bind fun body => .pure rfl

end

/-- The statements of a program are renumbered as a whole. -/
theorem moves_program : ∀ n, Moves k (Stmt.renumberAll (· + k)) (program n) (program n)
  | 0 => .throw _
  | n + 1 => by
      unfold program
      refine (Still.at? _).bind fun isEnd => ?_
      split
      · exact .pure rfl
      · refine (moves_declaration n).bind fun first => ?_
        refine (moves_program n).bind fun rest => .pure ?_
        exact (Stmt.renumberAll_toList_append _ first rest).symm

end Parser

/-- Reading with a numbering that starts further on. -/
theorem Program.ofTokens_add (tokens : List Token) (firstId : NodeId) (k : Nat) :
    ofTokens tokens (firstId + k) =
      ⟨Stmt.renumberAll (· + k) (ofTokens tokens firstId).statements,
        (ofTokens tokens firstId).errors, (ofTokens tokens firstId).nextId + k⟩ := by
  have hmoves := Parser.moves_program (k := k) (Parser.depthBound tokens) ⟨tokens, firstId, []⟩
  unfold ofTokens
  rw [show (⟨tokens, firstId + k, []⟩ : Parser.Input) = Parser.Input.shift k ⟨tokens, firstId, []⟩
    from rfl, hmoves]
  cases Parser.program (Parser.depthBound tokens) ⟨tokens, firstId, []⟩ with
  | ok _ _ => rfl
  | error _ _ => rfl

end LoxLang
