import LoxLang.Proofs.Parsing.Basic

/-!
# Productions are steady

Every production passes tokens, gives out numbers and adds faults, and takes nothing back. The
proofs follow the productions: one lemma each, by recursion on the bound of their depth.
-/

namespace LoxLang

namespace Parser

/-! ## Expressions -/

mutual

/-- By induction on the bound: no production puts tokens back, takes numbers back or takes errors
back. -/
theorem steady_expression : ∀ n, Steady (expression n)
  | 0 => Steady.exhausted
  | n + 1 => by
      unfold expression
      refine (steady_operation n Level.all).bind fun left => ?_
      refine (Steady.accept _).bind fun equals => ?_
      cases equals with
      | none => exact Steady.pure left
      | some equals =>
          refine (steady_expression n).bind fun value => ?_
          split
          · exact Steady.fresh.bind fun _ => Steady.pure _
          · exact Steady.fresh.bind fun _ => Steady.pure _
          · exact (Steady.report _ _).bind fun _ => Steady.pure _

theorem steady_operation : ∀ n levels, Steady (operation n levels)
  | 0, _ => Steady.exhausted
  | n + 1, [] => steady_unary n
  | n + 1, level :: tighter => by
      unfold operation
      exact (steady_operation n tighter).bind fun left => steady_chain n level tighter left

theorem steady_chain : ∀ n level tighter left, Steady (chain n level tighter left)
  | 0, _, _, _ => Steady.exhausted
  | n + 1, level, tighter, left => by
      unfold chain
      refine (Steady.accept _).bind fun operator => ?_
      cases operator with
      | none => exact Steady.pure left
      | some operator =>
          refine (steady_operation n tighter).bind fun right => ?_
          refine Steady.fresh.bind fun id => ?_
          exact steady_chain n level tighter _

theorem steady_unary : ∀ n, Steady (unary n)
  | 0 => Steady.exhausted
  | n + 1 => by
      unfold unary
      refine (Steady.accept _).bind fun operator => ?_
      cases operator with
      | none => exact (steady_primary n).bind fun callee => steady_calls n callee
      | some operator =>
          refine (steady_unary n).bind fun right => ?_
          exact Steady.fresh.bind fun id => Steady.pure _

theorem steady_calls : ∀ n callee, Steady (calls n callee)
  | 0, _ => Steady.exhausted
  | n + 1, callee => by
      unfold calls
      refine (Steady.skip? _).bind fun isCall => ?_
      split
      · refine (steady_arguments n).bind fun arguments => ?_
        refine (Steady.expectMark _ _).bind fun paren => ?_
        exact Steady.fresh.bind fun id => steady_calls n _
      · refine (Steady.skip? _).bind fun isGet => ?_
        split
        · refine (Steady.expectName _).bind fun name => ?_
          exact Steady.fresh.bind fun id => steady_calls n _
        · exact Steady.pure callee

theorem steady_arguments : ∀ n, Steady (arguments n)
  | 0 => Steady.exhausted
  | n + 1 => by
      unfold arguments
      refine (Steady.at? _).bind fun isEmpty => ?_
      split
      · exact Steady.pure _
      · exact (steady_expression n).bind fun first => steady_moreArguments n [first]

theorem steady_moreArguments : ∀ n before, Steady (moreArguments n before)
  | 0, _ => Steady.exhausted
  | n + 1, before => by
      unfold moreArguments
      refine (Steady.skip? _).bind fun isMore => ?_
      split
      · refine (Steady.reportExcess _ _).bind fun _ => ?_
        exact (steady_expression n).bind fun argument => steady_moreArguments n _
      · exact Steady.pure before

theorem steady_primary : ∀ n, Steady (primary n)
  | 0 => Steady.exhausted
  | n + 1 => by
      unfold primary
      refine Steady.current.bind fun token => ?_
      have hliteral : ∀ value, Steady (do
          let _ ← advance
          return Expr.literal (← fresh) value) := fun value =>
        Steady.advance.bind fun _ => Steady.fresh.bind fun _ => Steady.pure _
      -- five literals, `super`, `this`, a name, parentheses, and anything else
      split
      · exact hliteral _
      · exact hliteral _
      · exact hliteral _
      · exact hliteral _
      · exact hliteral _
      · refine Steady.advance.bind fun _ => (Steady.expectMark _ _).bind fun _ => ?_
        exact (Steady.expectName _).bind fun _ => Steady.fresh.bind fun _ => Steady.pure _
      · exact Steady.advance.bind fun _ => Steady.fresh.bind fun _ => Steady.pure _
      · exact Steady.advance.bind fun _ => Steady.fresh.bind fun _ => Steady.pure _
      · refine Steady.advance.bind fun _ => (steady_expression n).bind fun inner => ?_
        exact (Steady.expectMark _ _).bind fun _ => Steady.fresh.bind fun _ => Steady.pure _
      · exact Steady.fail _

end
/-! ## Clauses without a statement -/

theorem steady_optionalExpression (n : Nat) (mark : Kind) :
    Steady (optionalExpression n mark) := by
  refine (Steady.at? mark).bind fun isMissing => ?_
  split
  · exact Steady.pure none
  · exact (steady_expression n).map some

theorem steady_expressionStatement (n : Nat) : Steady (expressionStatement n) := by
  refine (steady_expression n).bind fun e => ?_
  exact (Steady.expectMark _ _).bind fun _ => Steady.pure _

theorem steady_printStatement (n : Nat) : Steady (printStatement n) := by
  refine (steady_expression n).bind fun e => ?_
  exact (Steady.expectMark _ _).bind fun _ => Steady.pure _

theorem steady_returnStatement (n : Nat) (keyword : Token) :
    Steady (returnStatement n keyword) := by
  refine (steady_optionalExpression n _).bind fun value => ?_
  exact (Steady.expectMark _ _).bind fun _ => Steady.pure _

theorem steady_initializer (n : Nat) : Steady (initializer n) := by
  refine (Steady.skip? _).bind fun isGiven => ?_
  split
  · exact (steady_expression n).map some
  · exact Steady.pure none

theorem steady_varDeclaration (n : Nat) : Steady (varDeclaration n) := by
  refine (Steady.expectName _).bind fun name => ?_
  refine (steady_initializer n).bind fun value => ?_
  exact (Steady.expectMark _ _).bind fun _ => Steady.pure _

theorem steady_moreParameters : ∀ n params, Steady (moreParameters n params)
  | 0, _ => Steady.exhausted
  | n + 1, params => by
      unfold moreParameters
      refine (Steady.skip? _).bind fun isMore => ?_
      split
      · refine (Steady.reportExcess _ _).bind fun _ => ?_
        exact (Steady.expectName _).bind fun param => steady_moreParameters n _
      · exact Steady.pure params

theorem steady_parameters (n : Nat) : Steady (parameters n) := by
  refine (Steady.at? _).bind fun isEmpty => ?_
  split
  · exact Steady.pure []
  · exact (Steady.expectName _).bind fun first => steady_moreParameters n [first]

theorem steady_forInitializer (n : Nat) : Steady (forInitializer n) := by
  refine (Steady.skip? _).bind fun isMissing => ?_
  split
  · exact Steady.pure none
  · refine (Steady.skip? _).bind fun isVariable => ?_
    split
    · exact (steady_varDeclaration n).map some
    · exact (steady_expressionStatement n).map some

theorem steady_superclass : Steady superclass := by
  refine (Steady.skip? _).bind fun isGiven => ?_
  split
  · refine (Steady.expectName _).bind fun name => ?_
    exact Steady.fresh.bind fun id => Steady.pure _
  · exact Steady.pure none

/-! ## Statements -/

/-- What a declaration is read as, before a fault in it is recovered from. -/
def declarationBody (n : Nat) : Parser Stmt := do
  if ← skip? .classWord then
    classDeclaration n
  else if ← skip? .funWord then
    return .function (← function n .function)
  else if ← skip? .varWord then
    varDeclaration n
  else
    statement n

theorem declaration_succ (n : Nat) : declaration (n + 1) = recovering (declarationBody n) := by
  unfold declaration
  rfl

theorem steady_declarationBody_of {n : Nat} (hclass : Steady (classDeclaration n))
    (hfunction : Steady (function n .function)) (hstatement : Steady (statement n)) :
    Steady (declarationBody n) := by
  refine (Steady.skip? _).bind fun isClass => ?_
  split
  · exact hclass
  · refine (Steady.skip? _).bind fun isFunction => ?_
    split
    · exact hfunction.bind fun decl => Steady.pure _
    · refine (Steady.skip? _).bind fun isVariable => ?_
      split
      · exact steady_varDeclaration n
      · exact hstatement

mutual

/-- A declaration leads on, whether it is kept or dropped. -/
theorem steady_declaration : ∀ n, Steady (declaration n)
  | 0 => Steady.exhausted
  | n + 1 => by
      simp only [declaration_succ]
      exact (steady_declarationBody_of (steady_classDeclaration n) (steady_function n .function)
        (steady_statement n)).recovering

theorem steady_classDeclaration : ∀ n, Steady (classDeclaration n)
  | 0 => Steady.exhausted
  | n + 1 => by
      unfold classDeclaration
      refine (Steady.expectName _).bind fun name => ?_
      refine steady_superclass.bind fun superclass => ?_
      refine (Steady.expectMark _ _).bind fun _ => ?_
      refine (steady_methods n).bind fun methods => ?_
      exact (Steady.expectMark _ _).bind fun _ => Steady.pure _

theorem steady_methods : ∀ n, Steady (methods n)
  | 0 => Steady.exhausted
  | n + 1 => by
      unfold methods
      refine Steady.atBodyEnd.bind fun isEnd => ?_
      split
      · exact Steady.pure []
      · refine (steady_function n .method).bind fun method => ?_
        exact (steady_methods n).bind fun rest => Steady.pure _

theorem steady_function : ∀ n callable, Steady (function n callable)
  | 0, _ => Steady.exhausted
  | n + 1, callable => by
      unfold function
      refine (Steady.expectName _).bind fun name => ?_
      refine (Steady.expectMark _ _).bind fun _ => ?_
      refine (steady_parameters n).bind fun params => ?_
      refine (Steady.expectMark _ _).bind fun _ => ?_
      refine (Steady.expectMark _ _).bind fun _ => ?_
      exact (steady_block n).bind fun body => Steady.pure _

theorem steady_block : ∀ n, Steady (block n)
  | 0 => Steady.exhausted
  | n + 1 => by
      unfold block
      refine Steady.atBodyEnd.bind fun isEnd => ?_
      split
      · exact (Steady.expectMark _ _).bind fun _ => Steady.pure []
      · refine (steady_declaration n).bind fun first => ?_
        exact (steady_block n).bind fun rest => Steady.pure _

theorem steady_statement : ∀ n, Steady (statement n)
  | 0 => Steady.exhausted
  | n + 1 => by
      unfold statement
      refine Steady.current.bind fun token => ?_
      split
      · exact Steady.advance.bind fun _ => steady_forStatement n
      · exact Steady.advance.bind fun _ => steady_ifStatement n
      · exact Steady.advance.bind fun _ => steady_printStatement n
      · exact Steady.advance.bind fun _ => steady_returnStatement n token
      · exact Steady.advance.bind fun _ => steady_whileStatement n
      · refine Steady.advance.bind fun _ => ?_
        exact (steady_block n).bind fun body => Steady.pure _
      · exact steady_expressionStatement n

theorem steady_forStatement : ∀ n, Steady (forStatement n)
  | 0 => Steady.exhausted
  | n + 1 => by
      unfold forStatement
      refine (Steady.expectMark _ _).bind fun _ => ?_
      refine (steady_forInitializer n).bind fun initializer => ?_
      refine (steady_optionalExpression n _).bind fun condition => ?_
      refine (Steady.expectMark _ _).bind fun _ => ?_
      refine (steady_optionalExpression n _).bind fun increment => ?_
      refine (Steady.expectMark _ _).bind fun _ => ?_
      refine (steady_statement n).bind fun body => ?_
      cases condition with
      | none => exact Steady.fresh.bind fun id => Steady.pure _
      | some e => exact Steady.pure _

theorem steady_ifStatement : ∀ n, Steady (ifStatement n)
  | 0 => Steady.exhausted
  | n + 1 => by
      unfold ifStatement
      refine (Steady.expectMark _ _).bind fun _ => ?_
      refine (steady_expression n).bind fun condition => ?_
      refine (Steady.expectMark _ _).bind fun _ => ?_
      refine (steady_statement n).bind fun thenBranch => ?_
      refine (Steady.skip? _).bind fun hasElse => ?_
      split
      · exact (steady_statement n).bind fun elseBranch => Steady.pure _
      · exact Steady.pure _

theorem steady_whileStatement : ∀ n, Steady (whileStatement n)
  | 0 => Steady.exhausted
  | n + 1 => by
      unfold whileStatement
      refine (Steady.expectMark _ _).bind fun _ => ?_
      refine (steady_expression n).bind fun condition => ?_
      refine (Steady.expectMark _ _).bind fun _ => ?_
      exact (steady_statement n).bind fun body => Steady.pure _

end

theorem steady_declarationBody (n : Nat) : Steady (declarationBody n) :=
  steady_declarationBody_of (steady_classDeclaration n) (steady_function n .function)
    (steady_statement n)

theorem steady_program : ∀ n, Steady (program n)
  | 0 => Steady.exhausted
  | n + 1 => by
      unfold program
      refine (Steady.at? _).bind fun isEnd => ?_
      split
      · exact Steady.pure []
      · refine (steady_declaration n).bind fun first => ?_
        exact (steady_program n).bind fun rest => Steady.pure _

end Parser

end LoxLang
