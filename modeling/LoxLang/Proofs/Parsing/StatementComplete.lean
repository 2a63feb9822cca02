import LoxLang.Proofs.Parsing.ExpressionComplete

/-!
# Statements are read completely

Tokens that read as a statement are read as that statement, whatever follows them. Only where the
statement ends in an `if` without an `else`, no `else` may follow.
-/

namespace LoxLang

namespace Parser

namespace Yields

variable {α : Type} {ts : List Token} {i : NodeId} {errors : List StaticError}

theorem atBodyEnd_true (h : ahead ts = .rightBrace) :
    Yields atBodyEnd ⟨ts, i, errors⟩ true ⟨ts, i, errors⟩ := by
  refine .inl ?_
  rw [atBodyEnd_run, head_kind]
  simp [h]

theorem atBodyEnd_false (hbrace : ahead ts ≠ .rightBrace) (heof : ahead ts ≠ .eof) :
    Yields atBodyEnd ⟨ts, i, errors⟩ false ⟨ts, i, errors⟩ := by
  refine .inl ?_
  rw [atBodyEnd_run, head_kind]
  simp [hbrace, heof]

theorem recovering {p : Parser α} {s s' : Input} {a : α} (h : Yields p s a s') :
    Yields (recovering p) s (some a) s' := by
  rcases h with h | ⟨s'', h⟩
  · exact .inl (by simp [Parser.recovering, h])
  · exact .inr ⟨s'', by simp [Parser.recovering, h]⟩

/-- A statement that begins with a keyword is what its production makes of the tokens behind. -/
theorem keyword {n : Nat} {word : Token} {p : Parser Stmt} {s : Stmt} {s' : Input}
    (hrun : statement (n + 1) ⟨word :: ts, i, errors⟩ = p ⟨ts, i, errors⟩)
    (h : Yields p ⟨ts, i, errors⟩ s s') :
    Yields (statement (n + 1)) ⟨word :: ts, i, errors⟩ s s' := by
  unfold Yields
  rw [hrun]
  exact h

end Yields

end Parser

/-- An expression statement begins as its expression does. -/
theorem Reading.ExpressionStatement.starts {ts : List Token} {i j : NodeId} {s : Stmt}
    (h : Reading.ExpressionStatement ts i s j) :
    Parser.StartsWith Parser.startsExpression ts := by
  rcases h with ⟨h, -⟩
  exact h.starts.append _

namespace Parser

/-! ## Clauses without a statement -/

variable {ts : List Token} {i j : NodeId}

/-- Whether there is an expression can be told from the token ahead. -/
theorem optionalExpression_complete (n : Nat) {mark : Kind} {o : Option Expr} (rest : List Token)
    (errors : List StaticError) (h : Reading.OptionalExpression ts i o j)
    (hmark : ahead rest = mark) (hstops : Stops Reading.Precedence.all mark) (hequal : mark ≠ .equal)
    (hfirst : startsExpression mark = false) :
    Yields (optionalExpression n mark) ⟨ts ++ rest, i, errors⟩ o ⟨rest, j, errors⟩ := by
  cases h with
  | none => exact .bind (.at?_true hmark) (.pure _ _)
  | some h =>
      refine .bind (.at?_false (h.starts.ahead_ne rest hfirst)) ?_
      exact .map _ (expression_complete n rest errors h (hmark ▸ hstops) (hmark ▸ hequal))

theorem optionalExpression_complete_semicolon (n : Nat) {o : Option Expr} {mark : Token}
    (rest : List Token) (errors : List StaticError) (h : Reading.OptionalExpression ts i o j)
    (hmark : mark.kind = .semicolon) :
    Yields (optionalExpression n .semicolon) ⟨ts ++ mark :: rest, i, errors⟩ o
      ⟨mark :: rest, j, errors⟩ :=
  optionalExpression_complete n _ errors h hmark stops_semicolon (by decide) rfl

theorem optionalExpression_complete_rightParen (n : Nat) {o : Option Expr} {mark : Token}
    (rest : List Token) (errors : List StaticError) (h : Reading.OptionalExpression ts i o j)
    (hmark : mark.kind = .rightParen) :
    Yields (optionalExpression n .rightParen) ⟨ts ++ mark :: rest, i, errors⟩ o
      ⟨mark :: rest, j, errors⟩ :=
  optionalExpression_complete n _ errors h hmark stops_rightParen (by decide) rfl

theorem expression_complete_semicolon (n : Nat) {e : Expr} {mark : Token} (rest : List Token)
    (errors : List StaticError) (h : Reading.Expression ts i e j) (hmark : mark.kind = .semicolon) :
    Yields (expression n) ⟨ts ++ mark :: rest, i, errors⟩ e ⟨mark :: rest, j, errors⟩ :=
  expression_complete n _ errors h (ahead_eq hmark ▸ stops_semicolon) (by simp [hmark])

theorem expression_complete_rightParen (n : Nat) {e : Expr} {mark : Token} (rest : List Token)
    (errors : List StaticError) (h : Reading.Expression ts i e j)
    (hmark : mark.kind = .rightParen) :
    Yields (expression n) ⟨ts ++ mark :: rest, i, errors⟩ e ⟨mark :: rest, j, errors⟩ :=
  expression_complete n _ errors h (ahead_eq hmark ▸ stops_rightParen) (by simp [hmark])

theorem expressionStatement_complete (n : Nat) {s : Stmt} (rest : List Token)
    (errors : List StaticError) (h : Reading.ExpressionStatement ts i s j) :
    Yields (expressionStatement n) ⟨ts ++ rest, i, errors⟩ s ⟨rest, j, errors⟩ := by
  rcases h with ⟨h, hmark⟩
  rw [List.append_assoc]
  refine .bind (expression_complete_semicolon n rest errors h hmark) ?_
  exact .bind (.expectMark (by decide) hmark) (.pure _ _)

theorem printStatement_complete (n : Nat) {e : Expr} {mark : Token} (rest : List Token)
    (errors : List StaticError) (h : Reading.Expression ts i e j) (hmark : mark.kind = .semicolon) :
    Yields (printStatement n) ⟨ts ++ mark :: rest, i, errors⟩ (.print e) ⟨rest, j, errors⟩ := by
  refine .bind (expression_complete_semicolon n rest errors h hmark) ?_
  exact .bind (.expectMark (by decide) hmark) (.pure _ _)

theorem returnStatement_complete (n : Nat) (keyword : Token) {value : Option Expr} {mark : Token}
    (rest : List Token) (errors : List StaticError) (h : Reading.OptionalExpression ts i value j)
    (hmark : mark.kind = .semicolon) :
    Yields (returnStatement n keyword) ⟨ts ++ mark :: rest, i, errors⟩ (.returnValue keyword value)
      ⟨rest, j, errors⟩ := by
  refine .bind (optionalExpression_complete_semicolon n rest errors h hmark) ?_
  exact .bind (.expectMark (by decide) hmark) (.pure _ _)

theorem initializer_complete (n : Nat) {o : Option Expr} {mark : Token} (rest : List Token)
    (errors : List StaticError) (h : Reading.Initializer ts i o j)
    (hmark : mark.kind = .semicolon) :
    Yields (initializer n) ⟨ts ++ mark :: rest, i, errors⟩ o ⟨mark :: rest, j, errors⟩ := by
  cases h with
  | none => exact .bind (.skip?_false (by simp [hmark])) (.pure _ _)
  | some hequals h =>
      refine .bind (.skip?_true (by decide) hequals) ?_
      exact .map _ (expression_complete_semicolon n rest errors h hmark)

theorem varDeclaration_complete (n : Nat) {s : Stmt} (rest : List Token)
    (errors : List StaticError) (h : Reading.VarDeclaration ts i s j) :
    Yields (varDeclaration n) ⟨ts ++ rest, i, errors⟩ s ⟨rest, j, errors⟩ := by
  rcases h with ⟨hname, hvalue, hmark⟩
  simp only [List.cons_append, List.append_assoc, List.nil_append]
  refine .bind (.expectName hname) ?_
  refine .bind (initializer_complete n rest errors hvalue hmark) ?_
  exact .bind (.expectMark (by decide) hmark) (.pure _ _)

/-- Which of the three initializers it is can be told from the token ahead. -/
theorem forInitializer_complete (n : Nat) {o : Option Stmt} (rest : List Token)
    (errors : List StaticError) (h : Reading.ForInitializer ts i o j) :
    Yields (forInitializer n) ⟨ts ++ rest, i, errors⟩ o ⟨rest, j, errors⟩ := by
  cases h with
  | none hmark => exact .bind (.skip?_true (by decide) hmark) (.pure _ _)
  | «variable» hkeyword h =>
      refine .bind (.skip?_false (by simp [hkeyword])) ?_
      refine .bind (.skip?_true (by decide) hkeyword) ?_
      exact .map _ (varDeclaration_complete n rest errors h)
  | expression h =>
      refine .bind (.skip?_false (h.starts.ahead_ne rest rfl)) ?_
      refine .bind (.skip?_false (h.starts.ahead_ne rest rfl)) ?_
      exact .map _ (expressionStatement_complete n rest errors h)

theorem moreParameters_complete : ∀ n {before ts params : List Token} {i : NodeId}
    (rest : List Token) (errors : List StaticError), Reading.MoreParameters before ts params →
    ahead rest = .rightParen →
    Yields (moreParameters n before) ⟨ts ++ rest, i, errors⟩ params ⟨rest, i, errors⟩
  | 0, _, _, _, _, _, _, _, _ => .exhausted
  | n + 1, _, _, _, _, rest, errors, .done, hrest => by
      refine .bind (.skip?_false (by simp [hrest])) ?_
      exact .pure _ _
  | n + 1, _, _, _, _, rest, errors, .more hcomma hcount hparam hmore, hrest => by
      refine .bind (.skip?_true (by decide) hcomma) ?_
      refine .bind (.reportExcess hcount) ?_
      refine .bind (.expectName hparam) ?_
      exact moreParameters_complete n rest errors hmore hrest

theorem parameters_complete (n : Nat) {params : List Token} (rest : List Token)
    (errors : List StaticError) (h : Reading.Parameters ts params)
    (hrest : ahead rest = .rightParen) :
    Yields (parameters n) ⟨ts ++ rest, i, errors⟩ params ⟨rest, i, errors⟩ := by
  cases h with
  | none => exact .bind (.at?_true hrest) (.pure _ _)
  | some hfirst hmore =>
      refine .bind (.at?_false (by simp [hfirst])) ?_
      refine .bind (.expectName hfirst) ?_
      exact moreParameters_complete n rest errors hmore hrest

theorem superclass_complete {o : Option Reference} {brace : Token} (rest : List Token)
    (errors : List StaticError) (h : Reading.Superclass ts i o j)
    (hbrace : brace.kind = .leftBrace) :
    Yields superclass ⟨ts ++ brace :: rest, i, errors⟩ o ⟨brace :: rest, j, errors⟩ := by
  cases h with
  | none => exact .bind (.skip?_false (by simp [hbrace])) (.pure _ _)
  | some hless hname =>
      refine .bind (.skip?_true (by decide) hless) ?_
      refine .bind (.expectName hname) ?_
      exact .bind .fresh (.pure _ _)

/-! ## What comes first -/

def startsPlainStatement : Kind → Bool
  | .forWord | .ifWord | .printWord | .returnWord | .whileWord | .leftBrace => true
  | kind => startsExpression kind

def startsDeclaration : Kind → Bool
  | .classWord | .funWord | .varWord => true
  | kind => startsPlainStatement kind

theorem startsPlainStatement_of_startsExpression {kind : Kind}
    (h : startsExpression kind = true) : startsPlainStatement kind = true := by
  unfold startsPlainStatement
  split <;> first | rfl | exact h

theorem startsDeclaration_of_startsPlainStatement {kind : Kind}
    (h : startsPlainStatement kind = true) : startsDeclaration kind = true := by
  unfold startsDeclaration
  split <;> first | rfl | exact h

end Parser

namespace Reading

open LoxLang.Parser

theorem Statement.starts {isOpen : Bool} {ts : List Token} {i j : NodeId} {s : Stmt}
    (h : Statement isOpen ts i s j) : StartsWith startsPlainStatement ts := by
  cases h with
  | expression h => exact h.starts.mono fun _ => startsPlainStatement_of_startsExpression
  | _ => exact ⟨_, _, rfl, by simp [startsPlainStatement, *]⟩

theorem Declaration.starts {ts : List Token} {i j : NodeId} {s : Stmt}
    (h : Declaration ts i s j) : StartsWith startsDeclaration ts := by
  cases h with
  | statement h => exact h.starts.mono fun _ => startsDeclaration_of_startsPlainStatement
  | _ => exact ⟨_, _, rfl, by simp [startsDeclaration, *]⟩

theorem Function.starts {ts : List Token} {i j : NodeId} {decl : FunctionDecl}
    (h : Function ts i decl j) : StartsWith (· == .identifier) ts := by
  rcases h with ⟨hname⟩
  exact ⟨_, _, rfl, by simp [hname]⟩

/-- Declarations are followed by another one, or by what follows them all. -/
theorem Declarations.ahead_ne {ts : List Token} {i j : NodeId} {ss : List Stmt}
    (h : Declarations ts i ss j) {rest : List Token} {kind : Kind} (hrest : ahead rest ≠ kind)
    (hkind : startsDeclaration kind = false) : ahead (ts ++ rest) ≠ kind := by
  cases h with
  | nil => exact hrest
  | cons hfirst _ => exact (hfirst.starts.append _).ahead_ne rest hkind

end Reading

namespace Parser

/-! ## Statements -/

mutual

/-- By induction on the bound: what is read by the grammar is what the parser yields, if no `else`
stands behind it. -/
theorem declaration_complete : ∀ n {ts : List Token} {i j : NodeId} {s : Stmt}
    (rest : List Token) (errors : List StaticError), Reading.Declaration ts i s j →
    ahead rest ≠ .elseWord →
    Yields (declaration n) ⟨ts ++ rest, i, errors⟩ (some s) ⟨rest, j, errors⟩
  | 0, _, _, _, _, _, _, _, _ => .exhausted
  | n + 1, _, _, _, _, rest, errors, .classDecl hkeyword hname hsuper hopen hmethods hclose, _ => by
      simp only [List.cons_append, List.append_assoc, List.nil_append]
      refine .recovering (.bind (.skip?_true (by decide) hkeyword) ?_)
      exact classDeclaration_complete n rest errors hname hsuper hopen hmethods hclose
  | n + 1, _, _, _, _, rest, errors, .function hkeyword h, _ => by
      refine .recovering (.bind (.skip?_false (by simp [hkeyword])) ?_)
      refine .bind (.skip?_true (by decide) hkeyword) ?_
      exact .bind (function_complete n rest errors h) (.pure _ _)
  | n + 1, _, _, _, _, rest, errors, .variable hkeyword h, _ => by
      refine .recovering (.bind (.skip?_false (by simp [hkeyword])) ?_)
      refine .bind (.skip?_false (by simp [hkeyword])) ?_
      refine .bind (.skip?_true (by decide) hkeyword) ?_
      exact varDeclaration_complete n rest errors h
  | n + 1, _, _, _, _, rest, errors, .statement h, helse => by
      refine .recovering (.bind (.skip?_false (h.starts.ahead_ne rest rfl)) ?_)
      refine .bind (.skip?_false (h.starts.ahead_ne rest rfl)) ?_
      refine .bind (.skip?_false (h.starts.ahead_ne rest rfl)) ?_
      exact statement_complete n rest errors h fun _ => helse
termination_by structural n => n

theorem classDeclaration_complete (n : Nat) {name openBrace closeBrace : Token}
    {ts us : List Token} {i j k : NodeId} {superclass : Option Reference}
    {methods : List FunctionDecl} (rest : List Token) (errors : List StaticError)
    (hname : name.kind = .identifier) (hsuper : Reading.Superclass ts i superclass j)
    (hopen : openBrace.kind = .leftBrace) (hmethods : Reading.Methods us j methods k)
    (hclose : closeBrace.kind = .rightBrace) :
    Yields (classDeclaration n)
      ⟨name :: (ts ++ openBrace :: (us ++ closeBrace :: rest)), i, errors⟩
      (.classDecl name superclass methods) ⟨rest, k, errors⟩ :=
  match n with
  | 0 => .exhausted
  | n + 1 => by
      refine .bind (.expectName hname) ?_
      refine .bind (superclass_complete _ errors hsuper hopen) ?_
      refine .bind (.expectMark (by decide) hopen) ?_
      refine .bind (methods_complete n _ errors hmethods hclose) ?_
      exact .bind (.expectMark (by decide) hclose) (.pure _ _)
termination_by structural n

theorem methods_complete : ∀ n {ts : List Token} {i j : NodeId} {decls : List FunctionDecl}
    (rest : List Token) (errors : List StaticError), Reading.Methods ts i decls j →
    ahead rest = .rightBrace →
    Yields (methods n) ⟨ts ++ rest, i, errors⟩ decls ⟨rest, j, errors⟩
  | 0, _, _, _, _, _, _, _, _ => .exhausted
  | n + 1, _, _, _, _, rest, errors, .nil, hrest => by
      exact .bind (.atBodyEnd_true hrest) (.pure _ _)
  | n + 1, _, _, _, _, rest, errors, .cons hfirst hmore, hrest => by
      rw [List.append_assoc]
      refine .bind (.atBodyEnd_false (hfirst.starts.ahead_ne _ rfl)
        (hfirst.starts.ahead_ne _ rfl)) ?_
      refine .bind (function_complete n _ errors hfirst) ?_
      exact .bind (methods_complete n rest errors hmore hrest) (.pure _ _)
termination_by structural n => n

theorem function_complete : ∀ n {callable : Callable} {ts : List Token} {i j : NodeId}
    {decl : FunctionDecl} (rest : List Token) (errors : List StaticError),
    Reading.Function ts i decl j →
    Yields (function n callable) ⟨ts ++ rest, i, errors⟩ decl ⟨rest, j, errors⟩
  | 0, _, _, _, _, _, _, _, _ => .exhausted
  | n + 1, _, _, _, _, _, rest, errors,
      .mk hname hopen hparams hclose hopenBody hbody hcloseBody => by
      simp only [List.cons_append, List.append_assoc, List.nil_append]
      refine .bind (.expectName hname) ?_
      refine .bind (.expectMark (by decide) hopen) ?_
      refine .bind (parameters_complete n _ errors hparams hclose) ?_
      refine .bind (.expectMark (by decide) hclose) ?_
      refine .bind (.expectMark (by decide) hopenBody) ?_
      exact .bind (block_complete n rest errors hbody hcloseBody) (.pure _ _)
termination_by structural n => n

theorem block_complete : ∀ n {ts : List Token} {i j : NodeId} {ss : List Stmt} {brace : Token}
    (rest : List Token) (errors : List StaticError), Reading.Declarations ts i ss j →
    brace.kind = .rightBrace →
    Yields (block n) ⟨ts ++ brace :: rest, i, errors⟩ ss ⟨rest, j, errors⟩
  | 0, _, _, _, _, _, _, _, _, _ => .exhausted
  | n + 1, _, _, _, _, _, rest, errors, .nil, hbrace => by
      refine .bind (.atBodyEnd_true hbrace) ?_
      exact .bind (.expectMark (by decide) hbrace) (.pure _ _)
  | n + 1, _, _, _, _, _, rest, errors, .cons hfirst hmore, hbrace => by
      rw [List.append_assoc]
      refine .bind (.atBodyEnd_false (hfirst.starts.ahead_ne _ rfl)
        (hfirst.starts.ahead_ne _ rfl)) ?_
      refine .bind (declaration_complete n _ errors hfirst (hmore.ahead_ne ?_ rfl)) ?_
      · simp [hbrace]
      exact .bind (block_complete n rest errors hmore hbrace) (.pure _ _)
termination_by structural n => n

/-- An open statement asks that no `else` stands behind it, a closed one does not. -/
theorem statement_complete : ∀ n {isOpen : Bool} {ts : List Token} {i j : NodeId} {s : Stmt}
    (rest : List Token) (errors : List StaticError), Reading.Statement isOpen ts i s j →
    (isOpen = true → ahead rest ≠ .elseWord) →
    Yields (statement n) ⟨ts ++ rest, i, errors⟩ s ⟨rest, j, errors⟩
  | 0, _, _, _, _, _, _, _, _, _ => .exhausted
  | n + 1, _, _, _, _, _, rest, errors, .expression h, _ => by
      have hyields := expressionStatement_complete n rest errors h
      rcases h.starts with ⟨t, us, rfl, ht⟩
      refine .bind (.current _) ?_
      -- None of the keywords starts an expression.
      split <;> first | exact hyields | simp_all [startsExpression, startsPrimary, isUnaryOperator]
  | n + 1, _, _, _, _, _, rest, errors, .print hkeyword h hmark, _ => by
      simp only [List.cons_append, List.append_assoc, List.nil_append]
      exact .keyword (by simp [statement_run, Input.next_cons, hkeyword])
        (printStatement_complete n rest errors h hmark)
  | n + 1, _, _, _, _, _, rest, errors, .returnValue hkeyword h hmark, _ => by
      simp only [List.cons_append, List.append_assoc, List.nil_append]
      exact .keyword (by simp [statement_run, Input.next_cons, hkeyword])
        (returnStatement_complete n _ rest errors h hmark)
  | n + 1, _, _, _, _, _, rest, errors, .block hopen h hclose, _ => by
      simp only [List.cons_append, List.append_assoc, List.nil_append]
      exact .keyword (by simp [statement_run, Input.next_cons, hopen])
        (.map Stmt.block (block_complete n rest errors h hclose))
  | n + 1, _, _, _, _, _, rest, errors, .whileLoop hkeyword hopen h hclose hbody, helse => by
      simp only [List.cons_append, List.append_assoc]
      exact .keyword (by simp [statement_run, Input.next_cons, hkeyword])
        (whileStatement_complete n rest errors hopen h hclose hbody helse)
  | n + 1, _, _, _, _, _, rest, errors, .ifOnly hkeyword hopen h hclose hthen, helse => by
      simp only [List.cons_append, List.append_assoc]
      exact .keyword (by simp [statement_run, Input.next_cons, hkeyword])
        (ifOnly_complete n rest errors hopen h hclose hthen (helse rfl))
  | n + 1, _, _, _, _, _, rest, errors, .ifElse hkeyword hopen h hclose hthen hword hbody,
      helse => by
      simp only [List.cons_append, List.append_assoc]
      exact .keyword (by simp [statement_run, Input.next_cons, hkeyword])
        (ifElse_complete n rest errors hopen h hclose hthen hword hbody helse)
  | n + 1, _, _, _, _, _, rest, errors,
      .forLoop hkeyword hopen hinit h hmark hincrement hclose hbody, helse => by
      simp only [List.cons_append, List.append_assoc]
      exact .keyword (by simp [statement_run, Input.next_cons, hkeyword])
        (forLoop_complete n rest errors hopen hinit h hmark hincrement hclose hbody helse)
  | n + 1, _, _, _, _, _, rest, errors,
      .forEver hkeyword hopen hinit hmark hincrement hclose hbody, helse => by
      simp only [List.cons_append, List.append_assoc]
      exact .keyword (by simp [statement_run, Input.next_cons, hkeyword])
        (forEver_complete n rest errors hopen hinit hmark hincrement hclose hbody helse)
termination_by structural n => n

theorem whileStatement_complete (n : Nat) {isOpen : Bool} {openParen closeParen : Token}
    {ts us : List Token} {i j k : NodeId} {condition : Expr} {body : Stmt} (rest : List Token)
    (errors : List StaticError) (hopen : openParen.kind = .leftParen)
    (h : Reading.Expression ts i condition j) (hclose : closeParen.kind = .rightParen)
    (hbody : Reading.Statement isOpen us j body k)
    (helse : isOpen = true → ahead rest ≠ .elseWord) :
    Yields (whileStatement n) ⟨openParen :: (ts ++ closeParen :: (us ++ rest)), i, errors⟩
      (.whileLoop condition body) ⟨rest, k, errors⟩ :=
  match n with
  | 0 => .exhausted
  | n + 1 => by
      refine .bind (.expectMark (by decide) hopen) ?_
      refine .bind (expression_complete_rightParen n _ errors h hclose) ?_
      refine .bind (.expectMark (by decide) hclose) ?_
      exact .bind (statement_complete n rest errors hbody helse) (.pure _ _)
termination_by structural n

theorem ifOnly_complete (n : Nat) {isOpen : Bool} {openParen closeParen : Token}
    {ts us : List Token} {i j k : NodeId} {condition : Expr} {thenBranch : Stmt} (rest : List Token)
    (errors : List StaticError) (hopen : openParen.kind = .leftParen)
    (h : Reading.Expression ts i condition j) (hclose : closeParen.kind = .rightParen)
    (hthen : Reading.Statement isOpen us j thenBranch k) (helse : ahead rest ≠ .elseWord) :
    Yields (ifStatement n) ⟨openParen :: (ts ++ closeParen :: (us ++ rest)), i, errors⟩
      (.ifElse condition thenBranch none) ⟨rest, k, errors⟩ :=
  match n with
  | 0 => .exhausted
  | n + 1 => by
      refine .bind (.expectMark (by decide) hopen) ?_
      refine .bind (expression_complete_rightParen n _ errors h hclose) ?_
      refine .bind (.expectMark (by decide) hclose) ?_
      refine .bind (statement_complete n rest errors hthen fun _ => helse) ?_
      exact .bind (.skip?_false helse) (.pure _ _)
termination_by structural n

theorem ifElse_complete (n : Nat) {isOpen : Bool} {openParen closeParen elseWord : Token}
    {ts us vs : List Token} {i j k l : NodeId} {condition : Expr} {thenBranch elseBranch : Stmt}
    (rest : List Token) (errors : List StaticError) (hopen : openParen.kind = .leftParen)
    (h : Reading.Expression ts i condition j) (hclose : closeParen.kind = .rightParen)
    (hthen : Reading.Statement false us j thenBranch k) (hword : elseWord.kind = .elseWord)
    (hbranch : Reading.Statement isOpen vs k elseBranch l)
    (helse : isOpen = true → ahead rest ≠ .elseWord) :
    Yields (ifStatement n)
      ⟨openParen :: (ts ++ closeParen :: (us ++ elseWord :: (vs ++ rest))), i, errors⟩
      (.ifElse condition thenBranch (some elseBranch)) ⟨rest, l, errors⟩ :=
  match n with
  | 0 => .exhausted
  | n + 1 => by
      refine .bind (.expectMark (by decide) hopen) ?_
      refine .bind (expression_complete_rightParen n _ errors h hclose) ?_
      refine .bind (.expectMark (by decide) hclose) ?_
      -- The first branch is closed, so it does not take the `else` for its own.
      refine .bind (statement_complete n _ errors hthen nofun) ?_
      refine .bind (.skip?_true (by decide) hword) ?_
      exact .bind (statement_complete n rest errors hbranch helse) (.pure _ _)
termination_by structural n

theorem forLoop_complete (n : Nat) {isOpen : Bool} {openParen mark closeParen : Token}
    {ts us vs ws : List Token} {i j k l m : NodeId} {initializer : Option Stmt} {condition : Expr}
    {increment : Option Expr} {body : Stmt} (rest : List Token) (errors : List StaticError)
    (hopen : openParen.kind = .leftParen) (hinit : Reading.ForInitializer ts i initializer j)
    (h : Reading.Expression us j condition k) (hmark : mark.kind = .semicolon)
    (hincrement : Reading.OptionalExpression vs k increment l)
    (hclose : closeParen.kind = .rightParen) (hbody : Reading.Statement isOpen ws l body m)
    (helse : isOpen = true → ahead rest ≠ .elseWord) :
    Yields (forStatement n)
      ⟨openParen :: (ts ++ (us ++ mark :: (vs ++ closeParen :: (ws ++ rest)))), i, errors⟩
      (Reading.withInitializer (.whileLoop condition (Reading.withIncrement body increment))
        initializer) ⟨rest, m, errors⟩ :=
  match n with
  | 0 => .exhausted
  | n + 1 => by
      refine .bind (.expectMark (by decide) hopen) ?_
      refine .bind (forInitializer_complete n _ errors hinit) ?_
      refine .bind (optionalExpression_complete_semicolon n _ errors (.some h) hmark) ?_
      refine .bind (.expectMark (by decide) hmark) ?_
      refine .bind (optionalExpression_complete_rightParen n _ errors hincrement hclose) ?_
      refine .bind (.expectMark (by decide) hclose) ?_
      refine .bind (statement_complete n rest errors hbody helse) ?_
      rw [← Reading.forLoop_eq]
      exact .pure _ _
termination_by structural n

theorem forEver_complete (n : Nat) {isOpen : Bool} {openParen mark closeParen : Token}
    {ts vs ws : List Token} {i j l m : NodeId} {initializer : Option Stmt} {increment : Option Expr}
    {body : Stmt} (rest : List Token) (errors : List StaticError)
    (hopen : openParen.kind = .leftParen) (hinit : Reading.ForInitializer ts i initializer j)
    (hmark : mark.kind = .semicolon) (hincrement : Reading.OptionalExpression vs j increment l)
    (hclose : closeParen.kind = .rightParen) (hbody : Reading.Statement isOpen ws l body m)
    (helse : isOpen = true → ahead rest ≠ .elseWord) :
    Yields (forStatement n)
      ⟨openParen :: (ts ++ mark :: (vs ++ closeParen :: (ws ++ rest))), i, errors⟩
      (Reading.withInitializer
        (.whileLoop (.literal m (.bool true)) (Reading.withIncrement body increment)) initializer)
        ⟨rest, m + 1, errors⟩ :=
  match n with
  | 0 => .exhausted
  | n + 1 => by
      refine .bind (.expectMark (by decide) hopen) ?_
      refine .bind (forInitializer_complete n _ errors hinit) ?_
      refine .bind (optionalExpression_complete_semicolon n _ errors .none hmark) ?_
      refine .bind (.expectMark (by decide) hmark) ?_
      refine .bind (optionalExpression_complete_rightParen n _ errors hincrement hclose) ?_
      refine .bind (.expectMark (by decide) hclose) ?_
      refine .bind (statement_complete n rest errors hbody helse) ?_
      -- The condition that stands for the one left out is numbered behind the body.
      rw [← Reading.forLoop_eq]
      exact .bind .fresh (.pure _ _)
termination_by structural n

end

/-- The parser yields the declarations that are read, up to the end of the input. -/
theorem program_complete : ∀ n {ts : List Token} {i j : NodeId} {ss : List Stmt}
    (rest : List Token) (errors : List StaticError), Reading.Declarations ts i ss j →
    ahead rest = .eof → Yields (program n) ⟨ts ++ rest, i, errors⟩ ss ⟨rest, j, errors⟩
  | 0, _, _, _, _, _, _, _, _ => .exhausted
  | n + 1, _, _, _, _, rest, errors, .nil, hrest => .bind (.at?_true hrest) (.pure _ _)
  | n + 1, _, _, _, _, rest, errors, .cons hfirst hmore, hrest => by
      rw [List.append_assoc]
      refine .bind (.at?_false (hfirst.starts.ahead_ne _ rfl)) ?_
      refine .bind (declaration_complete n _ errors hfirst (hmore.ahead_ne ?_ rfl)) ?_
      · simp [hrest]
      exact .bind (program_complete n rest errors hmore hrest) (.pure _ _)

end Parser

end LoxLang
