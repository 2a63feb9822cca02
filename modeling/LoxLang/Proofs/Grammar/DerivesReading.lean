import LoxLang.Proofs.Grammar.ReadingDerives

/-!
# Derivations can be read

Whatever can be derived can be read, from every first number. A derivation may leave open which `if`
an `else` belongs to; `Reading.Statement.append_else` moves it to the nearest one that can take it.
-/

namespace LoxLang

open Grammar

/-! ## Where an `else` goes -/

/-- An `else` behind a statement that ends in an `if` without one becomes part of it. -/
theorem Reading.Statement.append_else {word : Token} {vs : List Token}
    (hword : word.kind = .elseWord) (hvs : ∀ i, ∃ isOpen s j, Statement isOpen vs i s j) :
    ∀ {isOpen : Bool} {ts : List Token} {i j : NodeId} {s : Stmt}, Statement isOpen ts i s j →
      isOpen = true → ∃ isOpen' s' k, Statement isOpen' (ts ++ word :: vs) i s' k
  | _, _, _, _, _, .whileLoop hkeyword hopen h hclose hbody, hisOpen => by
      rcases hbody.append_else hword hvs hisOpen with ⟨isOpen, body, k, hbody'⟩
      have hread := Statement.whileLoop hkeyword hopen h hclose hbody'
      simp only [List.cons_append, List.append_assoc] at hread ⊢
      exact ⟨_, _, _, hread⟩
  | _, _, _, _, _, @Statement.ifOnly true _ _ _ _ _ _ _ _ _ _ hkeyword hopen h hclose hthen, _ => by
      rcases hthen.append_else hword hvs rfl with ⟨isOpen, thenBranch, k, hthen'⟩
      have hread := Statement.ifOnly hkeyword hopen h hclose hthen'
      simp only [List.cons_append, List.append_assoc] at hread ⊢
      exact ⟨_, _, _, hread⟩
  | _, _, _, _, _, @Statement.ifOnly false _ _ _ _ _ _ _ _ _ _ hkeyword hopen h hclose hthen, _ => by
      -- The branch needs no `else`, so this is the `if` that the new one belongs to.
      rcases hvs _ with ⟨isOpen, elseBranch, k, helse⟩
      have hread := Statement.ifElse hkeyword hopen h hclose hthen hword helse
      simp only [List.cons_append, List.append_assoc] at hread ⊢
      exact ⟨_, _, _, hread⟩
  | _, _, _, _, _, .ifElse hkeyword hopen h hclose hthen hword' hbody, hisOpen => by
      rcases hbody.append_else hword hvs hisOpen with ⟨isOpen, body, k, hbody'⟩
      have hread := Statement.ifElse hkeyword hopen h hclose hthen hword' hbody'
      simp only [List.cons_append, List.append_assoc] at hread ⊢
      exact ⟨_, _, _, hread⟩
  | _, _, _, _, _, .forLoop hkeyword hopen hinit h hmark hincrement hclose hbody, hisOpen => by
      rcases hbody.append_else hword hvs hisOpen with ⟨isOpen, body, k, hbody'⟩
      have hread := Statement.forLoop hkeyword hopen hinit h hmark hincrement hclose hbody'
      simp only [List.cons_append, List.append_assoc] at hread ⊢
      exact ⟨_, _, _, hread⟩
  | _, _, _, _, _, .forEver hkeyword hopen hinit hmark hincrement hclose hbody, hisOpen => by
      rcases hbody.append_else hword hvs hisOpen with ⟨isOpen, body, k, hbody'⟩
      have hread := Statement.forEver hkeyword hopen hinit hmark hincrement hclose hbody'
      simp only [List.cons_append, List.append_assoc] at hread ⊢
      exact ⟨_, _, _, hread⟩
  | _, _, _, _, _, .expression _, hisOpen | _, _, _, _, _, .print _ _ _, hisOpen
  | _, _, _, _, _, .returnValue _ _ _, hisOpen | _, _, _, _, _, .block _ _ _, hisOpen => by
      cases hisOpen

namespace Grammar

open LoxLang.Reading (Precedence)

/-! ## What the names stand for -/

/-- Tokens that can be read from every first number. -/
def ReadsAs {α : Type} (R : List Token → NodeId → α → NodeId → Prop) (ts : List Token) : Prop :=
  ∀ i, ∃ a j, R ts i a j

/-- Tokens that can be read as operators of the precedences that a name belongs to. -/
def ReadsAsOperation (name : Symbol) (ts : List Token) : Prop :=
  ∀ ps, Names ps name → ReadsAs (Reading.Operation ps) ts

def ReadsAsStatement (ts : List Token) : Prop :=
  ∀ i, ∃ isOpen s j, Reading.Statement isOpen ts i s j

/-- What a name stands for, by how its tokens can be read. -/
def Readable : Symbol → List Token → Prop
  | .program, ts =>
      ∃ us eof, ts = us ++ [eof] ∧ eof.kind = .eof ∧ ReadsAs Reading.Declarations us
  | .declaration, ts | .classDecl, ts | .funDecl, ts => ReadsAs Reading.Declaration ts
  | .function, ts => ReadsAs Reading.Function ts
  | .parameters, ts => ∃ params, Reading.Parameters ts params
  | .varDecl, ts =>
      ∃ keyword us, ts = keyword :: us ∧ keyword.kind = .varWord ∧
        ReadsAs Reading.VarDeclaration us
  | .exprStmt, ts => ReadsAs Reading.ExpressionStatement ts
  | .statement, ts | .forStmt, ts | .ifStmt, ts | .printStmt, ts | .returnStmt, ts
  | .whileStmt, ts => ReadsAsStatement ts
  | .block, ts =>
      ∃ openBrace us closeBrace, ts = openBrace :: us ++ [closeBrace] ∧
        openBrace.kind = .leftBrace ∧ closeBrace.kind = .rightBrace ∧
        ReadsAs Reading.Declarations us
  | .expression, ts | .assignment, ts => ReadsAs Reading.Expression ts
  | .logicOr, ts => ReadsAsOperation .logicOr ts
  | .logicAnd, ts => ReadsAsOperation .logicAnd ts
  | .equality, ts => ReadsAsOperation .equality ts
  | .comparison, ts => ReadsAsOperation .comparison ts
  | .term, ts => ReadsAsOperation .term ts
  | .factor, ts => ReadsAsOperation .factor ts
  | .unary, ts => ReadsAsOperation .unary ts
  | .call, ts => ReadsAs Reading.Call ts
  | .arguments, ts => ReadsAs Reading.Arguments ts
  | .primary, ts => ReadsAs Reading.Primary ts

/-! ## Expressions -/

/-- Operators with their operands, derived in any number, are read as a chain from the left. -/
theorem readsAs_chain {p : Precedence} {tighter : List Precedence} {operand : Symbol}
    {G : Symbol → List Token → Prop} {ts : List Token}
    (hoperand : ∀ us, G operand us → ReadsAs (Reading.Operation tighter) us)
    (h : Repeated ((Form.oneOf p.operators ++ Form.symbol operand).Means G) ts) :
    ∀ left, ReadsAs (Reading.Chain p tighter left) ts := by
  induction h with
  | nil => exact fun left i => ⟨left, i, .done⟩
  | cons hfirst _ ih =>
      intro left i
      rcases hfirst with ⟨us, vs, rfl, hword, hright⟩
      rcases means_oneOf.1 hword with ⟨operator, rfl, hkind⟩
      rcases hoperand vs hright i with ⟨right, j, hright⟩
      rcases ih (p.node j left operator right) (j + 1) with ⟨e, k, hchain⟩
      exact ⟨e, k, .more hkind hright hchain⟩

/-- One level of the grammar is one level of precedence. -/
theorem readsAsOperation_operands {name operand : Symbol} {operators : List Kind}
    {G : Symbol → List Token → Prop} {ts : List Token} (hunary : name ≠ .unary)
    (hrule : rule name = .operands operand operators)
    (hoperand : ∀ us, G operand us → ReadsAsOperation operand us)
    (h : (Form.operands operand operators).Means G ts) : ReadsAsOperation name ts := by
  intro ps hnames i
  rcases h with ⟨us, vs, rfl, hleft, hchain⟩
  cases hnames with
  | unary => exact absurd rfl hunary
  | operators htighter hrule' =>
      cases hrule.symm.trans hrule'
      rcases hoperand us hleft _ htighter i with ⟨left, j, hleft⟩
      rcases readsAs_chain (fun us hus => hoperand us hus _ htighter) hchain left j with
        ⟨e, k, hchain⟩
      exact ⟨e, k, .chain hleft hchain⟩

/-- Calls and properties, derived in any number, are read one behind the other. -/
theorem readsAs_calls {ts : List Token}
    (h : Repeated ((Form.word .leftParen ++ .optional (.symbol .arguments) ++ .word .rightParen |||
      Form.word .dot ++ .word .identifier).Means Readable) ts) :
    ∀ callee, ReadsAs (Reading.Calls callee) ts := by
  -- A call applies to what has been read before it, so the callee changes along the induction.
  induction h with
  | nil => exact fun callee i => ⟨callee, i, .done⟩
  | cons hfirst _ ih =>
      intro callee i
      simp only [means_or, means_append, means_word, means_optional, means_symbol] at hfirst
      rcases hfirst with ⟨_, _, rfl, ⟨_, us, rfl, ⟨openParen, rfl, hopen⟩, hargs⟩, paren, rfl, hparen⟩ |
        ⟨_, _, rfl, ⟨dot, rfl, hdot⟩, name, rfl, hname⟩
      · have harguments : ∃ es j, Reading.Arguments us i es j := by
          rcases hargs with rfl | hargs
          · exact ⟨[], i, .none⟩
          · exact hargs i
        rcases harguments with ⟨es, j, hes⟩
        rcases ih (.call j callee paren es) (j + 1) with ⟨e, k, hcalls⟩
        have hread := Reading.Calls.call hopen hes hparen hcalls
        exact ⟨e, k, by simpa using hread⟩
      · rcases ih (.get i callee name) (i + 1) with ⟨e, k, hcalls⟩
        exact ⟨e, k, .get hdot hname hcalls⟩

/-- The limit on arguments in the grammar is the one in the reading, counted from the other end. -/
theorem readsAs_moreArguments {count : Nat} {ts : List Token}
    (h : RepeatedUpTo ((Form.word .comma ++ .symbol .expression).Means Readable) count ts) :
    ∀ before : List Expr, before.length + count ≤ 255 →
      ReadsAs (Reading.MoreArguments before) ts := by
  induction h with
  | nil => exact fun before _ i => ⟨before, i, .done⟩
  | cons hfirst _ ih =>
      intro before hcount i
      simp only [means_append, means_word, means_symbol] at hfirst
      rcases hfirst with ⟨_, us, rfl, ⟨comma, rfl, hcomma⟩, hargument⟩
      rcases hargument i with ⟨e, j, he⟩
      rcases ih (before ++ [e]) (by simp; omega) j with ⟨es, k, hmore⟩
      exact ⟨es, k, .more hcomma (by omega) he hmore⟩

theorem readsAs_moreParameters {count : Nat} {ts : List Token}
    (h : RepeatedUpTo ((Form.word .comma ++ .word .identifier).Means Readable) count ts) :
    ∀ before : List Token, before.length + count ≤ 255 →
      ∃ params, Reading.MoreParameters before ts params := by
  induction h with
  | nil => exact fun before _ => ⟨before, .done⟩
  | cons hfirst _ ih =>
      intro before hcount
      simp only [means_append, means_word] at hfirst
      rcases hfirst with ⟨_, _, rfl, ⟨comma, rfl, hcomma⟩, param, rfl, hparam⟩
      rcases ih (before ++ [param]) (by simp; omega) with ⟨params, hmore⟩
      exact ⟨params, .more hcomma (by omega) hparam hmore⟩

theorem readsAs_optionalExpression {ts : List Token}
    (h : (Form.optional (.symbol .expression)).Means Readable ts) :
    ReadsAs Reading.OptionalExpression ts := by
  intro i
  rcases h with rfl | h
  · exact ⟨none, i, .none⟩
  · rcases h i with ⟨e, j, he⟩
    exact ⟨some e, j, .some he⟩

theorem readsAs_initializer {ts : List Token}
    (h : (Form.optional (.word .equal ++ .symbol .expression)).Means Readable ts) :
    ReadsAs Reading.Initializer ts := by
  intro i
  simp only [means_optional, means_append, means_word, means_symbol] at h
  rcases h with rfl | ⟨_, _, rfl, ⟨equals, rfl, hequals⟩, h⟩
  · exact ⟨none, i, .none⟩
  · rcases h i with ⟨e, j, he⟩
    exact ⟨some e, j, .some hequals he⟩

theorem readsAs_superclass {ts : List Token}
    (h : (Form.optional (.word .less ++ .word .identifier)).Means Readable ts) :
    ReadsAs Reading.Superclass ts := by
  intro i
  simp only [means_optional, means_append, means_word] at h
  rcases h with rfl | ⟨_, _, rfl, ⟨less, rfl, hless⟩, name, rfl, hname⟩
  · exact ⟨none, i, .none⟩
  · exact ⟨_, _, .some hless hname⟩

theorem readsAs_forInitializer {ts : List Token}
    (h : (Form.symbol .varDecl ||| .symbol .exprStmt ||| .word .semicolon).Means Readable ts) :
    ReadsAs Reading.ForInitializer ts := by
  intro i
  simp only [means_or, means_word, means_symbol] at h
  rcases h with (⟨keyword, us, rfl, hkeyword, h⟩ | h) | ⟨mark, rfl, hmark⟩
  · rcases h i with ⟨s, j, hs⟩
    exact ⟨some s, j, .variable hkeyword hs⟩
  · rcases h i with ⟨s, j, hs⟩
    exact ⟨some s, j, .expression hs⟩
  · exact ⟨none, i, .none hmark⟩

/-- An assignment is read as one to what stands left of it, a name or a property. -/
theorem readsAs_assignment {ts : List Token} (h : (rule .assignment).Means Readable ts) :
    ReadsAs Reading.Expression ts := by
  intro i
  simp only [rule, means_or, means_append, means_word, means_optional, means_symbol] at h
  rcases h with ⟨_, us, rfl, ⟨_, _, rfl, ⟨_, _, rfl, htarget, name, rfl, hname⟩,
    equals, rfl, hequals⟩, hvalue⟩ | h
  · rcases htarget with rfl | ⟨vs, _, rfl, hobject, dot, rfl, hdot⟩
    · rcases hvalue (i + 1) with ⟨value, j, hvalue⟩
      exact ⟨_, _, .assign hname hequals hvalue⟩
    · rcases hobject i with ⟨object, j, hobject⟩
      rcases hvalue (j + 1) with ⟨value, k, hvalue⟩
      have hread := Reading.Expression.set hobject hdot hname hequals hvalue
      exact ⟨_, _, by simpa using hread⟩
  · rcases h _ names_logicOr i with ⟨e, j, he⟩
    exact ⟨e, j, .plain he⟩

/-- Whatever is no operator is read as a call. -/
theorem readsAsOperation_unary {ts : List Token} (h : (rule .unary).Means Readable ts) :
    ReadsAsOperation .unary ts := by
  intro ps hnames i
  cases hnames with
  | operators _ hrule => cases hrule
  | unary =>
      simp only [rule, means_or, means_append, means_oneOf, means_symbol] at h
      rcases h with ⟨_, us, rfl, ⟨operator, rfl, hoperator⟩, hright⟩ | hcall
      · rcases hright [] .unary i with ⟨right, j, hright⟩
        rcases hright with ⟨hright⟩
        have hkind : operator.kind = .bang ∨ operator.kind = .minus := by simpa using hoperator
        exact ⟨_, _, .unary (.operator hkind hright)⟩
      · rcases hcall i with ⟨e, j, he⟩
        exact ⟨e, j, .unary (.call he)⟩

theorem readsAs_primary {ts : List Token} (h : (rule .primary).Means Readable ts) :
    ReadsAs Reading.Primary ts := by
  intro i
  simp only [rule, means_or, means_append, means_oneOf, means_word, means_symbol, List.mem_cons,
    List.not_mem_nil, or_false] at h
  rcases h with (⟨t, rfl, ht⟩ | h) | h
  · rcases ht with ht | ht | ht | ht | ht | ht | ht
    · exact ⟨_, _, .trueWord ht⟩
    · exact ⟨_, _, .falseWord ht⟩
    · exact ⟨_, _, .nilWord ht⟩
    · exact ⟨_, _, .this ht⟩
    · exact ⟨_, _, .number ht⟩
    · exact ⟨_, _, .string ht⟩
    · exact ⟨_, _, .variable ht⟩
  · rcases h with ⟨_, _, rfl, ⟨_, us, rfl, ⟨openParen, rfl, hopen⟩, hinner⟩, closeParen, rfl, hclose⟩
    rcases hinner i with ⟨inner, j, hinner⟩
    exact ⟨_, _, .grouping hopen hinner hclose⟩
  · rcases h with ⟨_, _, rfl, ⟨_, _, rfl, ⟨keyword, rfl, hkeyword⟩, dot, rfl, hdot⟩,
      method, rfl, hmethod⟩
    exact ⟨_, _, .super hkeyword hdot hmethod⟩

/-! ## Statements -/

theorem readsAs_declarations {ts : List Token}
    (h : Repeated ((Form.symbol .declaration).Means Readable) ts) :
    ReadsAs Reading.Declarations ts := by
  induction h with
  | nil => exact fun i => ⟨[], i, .nil⟩
  | cons hfirst _ ih =>
      intro i
      rcases hfirst i with ⟨s, j, hs⟩
      rcases ih j with ⟨ss, k, hss⟩
      exact ⟨s :: ss, k, .cons hs hss⟩

theorem readsAs_methods {ts : List Token}
    (h : Repeated ((Form.symbol .function).Means Readable) ts) : ReadsAs Reading.Methods ts := by
  induction h with
  | nil => exact fun i => ⟨[], i, .nil⟩
  | cons hfirst _ ih =>
      intro i
      rcases hfirst i with ⟨decl, j, hdecl⟩
      rcases ih j with ⟨decls, k, hdecls⟩
      exact ⟨decl :: decls, k, .cons hdecl hdecls⟩

theorem readsAs_classDecl {ts : List Token} (h : (rule .classDecl).Means Readable ts) :
    ReadsAs Reading.Declaration ts := by
  intro i
  simp only [rule, means_append, means_word, means_many] at h
  rcases h with ⟨_, _, rfl, ⟨_, _, rfl, ⟨_, _, rfl, ⟨_, _, rfl, ⟨_, _, rfl, ⟨keyword, rfl, hkeyword⟩,
    name, rfl, hname⟩, hsuper⟩, openBrace, rfl, hopen⟩, hmethods⟩, closeBrace, rfl, hclose⟩
  rcases readsAs_superclass hsuper i with ⟨superclass, j, hsuperclass⟩
  rcases readsAs_methods hmethods j with ⟨methods, k, hmethods⟩
  have hread := Reading.Declaration.classDecl hkeyword hname hsuperclass hopen hmethods hclose
  exact ⟨_, _, by simpa using hread⟩

theorem readsAs_function {ts : List Token} (h : (rule .function).Means Readable ts) :
    ReadsAs Reading.Function ts := by
  intro i
  simp only [rule, means_append, means_word, means_optional, means_symbol] at h
  rcases h with ⟨_, _, rfl, ⟨_, _, rfl, ⟨_, us, rfl, ⟨_, _, rfl, ⟨name, rfl, hname⟩,
    openParen, rfl, hopen⟩, hparams⟩, closeParen, rfl, hclose⟩,
    openBrace, vs, closeBrace, rfl, hopenBody, hcloseBody, hbody⟩
  have hparameters : ∃ params, Reading.Parameters us params := by
    rcases hparams with rfl | hparams
    · exact ⟨[], .none⟩
    · exact hparams
  rcases hparameters with ⟨params, hparameters⟩
  rcases hbody i with ⟨body, j, hbody⟩
  have hread := Reading.Function.mk hname hopen hparameters hclose hopenBody hbody hcloseBody
  exact ⟨_, _, by simpa using hread⟩

theorem readable_varDecl {ts : List Token} (h : (rule .varDecl).Means Readable ts) :
    Readable .varDecl ts := by
  simp only [rule, means_append, means_word] at h
  rcases h with ⟨_, _, rfl, ⟨_, us, rfl, ⟨_, _, rfl, ⟨keyword, rfl, hkeyword⟩, name, rfl, hname⟩,
    hvalue⟩, mark, rfl, hmark⟩
  refine ⟨keyword, name :: us ++ [mark], by simp, hkeyword, ?_⟩
  intro i
  rcases readsAs_initializer hvalue i with ⟨value, j, hvalue⟩
  exact ⟨_, j, .mk hname hvalue hmark⟩

/-- The clauses of a `for` are cut apart where the grammar has its semicolons. -/
theorem readsAsStatement_for {ts : List Token} (h : (rule .forStmt).Means Readable ts) :
    ReadsAsStatement ts := by
  intro i
  simp only [rule, means_append, means_word, means_symbol] at h
  rcases h with ⟨_, _, rfl, ⟨_, _, rfl, ⟨_, _, rfl, ⟨_, _, rfl, ⟨_, _, rfl, ⟨_, _, rfl, ⟨_, _, rfl,
    ⟨keyword, rfl, hkeyword⟩, openParen, rfl, hopen⟩, hinit⟩, hcondition⟩, mark, rfl, hmark⟩,
    hincrement⟩, closeParen, rfl, hclose⟩, hbody⟩
  rcases readsAs_forInitializer hinit i with ⟨initializer, j, hinitializer⟩
  rcases readsAs_optionalExpression hcondition j with ⟨condition, k, hcondition⟩
  rcases readsAs_optionalExpression hincrement k with ⟨increment, l, hincrement⟩
  rcases hbody l with ⟨isOpen, body, m, hbody⟩
  -- A loop without a condition is read by a production of its own.
  cases hcondition with
  | none =>
      have hread :=
        Reading.Statement.forEver hkeyword hopen hinitializer hmark hincrement hclose hbody
      exact ⟨_, _, _, by simpa using hread⟩
  | some hcondition =>
      have hread := Reading.Statement.forLoop hkeyword hopen hinitializer hcondition hmark
        hincrement hclose hbody
      exact ⟨_, _, _, by simpa using hread⟩

/-- An `if` without `else` is open, so an `else` behind it would have been its own. -/
theorem readsAsStatement_if {ts : List Token} (h : (rule .ifStmt).Means Readable ts) :
    ReadsAsStatement ts := by
  intro i
  simp only [rule, means_append, means_optional, means_word, means_symbol] at h
  rcases h with ⟨_, _, rfl, ⟨_, _, rfl, ⟨_, _, rfl, ⟨_, _, rfl, ⟨_, _, rfl,
    ⟨keyword, rfl, hkeyword⟩, openParen, rfl, hopen⟩, hcondition⟩, closeParen, rfl, hclose⟩, hthen⟩,
    helse⟩
  rcases hcondition i with ⟨condition, j, hcondition⟩
  rcases hthen j with ⟨isOpen, thenBranch, k, hthen⟩
  rcases helse with rfl | ⟨_, _, rfl, ⟨word, rfl, hword⟩, helse⟩
  · have hread := Reading.Statement.ifOnly hkeyword hopen hcondition hclose hthen
    exact ⟨_, _, _, by simpa using hread⟩
  · cases isOpen with
    | false =>
        rcases helse k with ⟨isOpen, elseBranch, l, helse⟩
        have hread := Reading.Statement.ifElse hkeyword hopen hcondition hclose hthen hword helse
        exact ⟨_, _, _, by simpa using hread⟩
    | true =>
        -- The `else` goes to an `if` in the branch, and none is left for this one.
        rcases hthen.append_else hword helse rfl with ⟨isOpen, thenBranch, l, hthen⟩
        have hread := Reading.Statement.ifOnly hkeyword hopen hcondition hclose hthen
        exact ⟨_, _, _, by simpa using hread⟩

theorem readsAsStatement_while {ts : List Token} (h : (rule .whileStmt).Means Readable ts) :
    ReadsAsStatement ts := by
  intro i
  simp only [rule, means_append, means_word, means_symbol] at h
  rcases h with ⟨_, _, rfl, ⟨_, _, rfl, ⟨_, _, rfl, ⟨_, _, rfl, ⟨keyword, rfl, hkeyword⟩,
    openParen, rfl, hopen⟩, hcondition⟩, closeParen, rfl, hclose⟩, hbody⟩
  rcases hcondition i with ⟨condition, j, hcondition⟩
  rcases hbody j with ⟨isOpen, body, k, hbody⟩
  have hread := Reading.Statement.whileLoop hkeyword hopen hcondition hclose hbody
  exact ⟨_, _, _, by simpa using hread⟩

theorem readsAsStatement_print {ts : List Token} (h : (rule .printStmt).Means Readable ts) :
    ReadsAsStatement ts := by
  intro i
  simp only [rule, means_append, means_word, means_symbol] at h
  rcases h with ⟨_, _, rfl, ⟨_, _, rfl, ⟨keyword, rfl, hkeyword⟩, he⟩, mark, rfl, hmark⟩
  rcases he i with ⟨e, j, he⟩
  exact ⟨_, _, _, .print hkeyword he hmark⟩

theorem readsAsStatement_return {ts : List Token} (h : (rule .returnStmt).Means Readable ts) :
    ReadsAsStatement ts := by
  intro i
  simp only [rule, means_append, means_word] at h
  rcases h with ⟨_, _, rfl, ⟨_, _, rfl, ⟨keyword, rfl, hkeyword⟩, hvalue⟩, mark, rfl, hmark⟩
  rcases readsAs_optionalExpression hvalue i with ⟨value, j, hvalue⟩
  exact ⟨_, _, _, .returnValue hkeyword hvalue hmark⟩

/-- Every alternative of a statement has been dealt with. -/
theorem readsAsStatement_choice {ts : List Token} (h : (rule .statement).Means Readable ts) :
    ReadsAsStatement ts := by
  simp only [rule, means_or, means_symbol] at h
  rcases h with (((((h | h) | h) | h) | h) | h) | ⟨openBrace, us, closeBrace, rfl, hopen, hclose, h⟩
  · intro i
    rcases h i with ⟨s, j, hs⟩
    exact ⟨_, _, _, .expression hs⟩
  all_goals try exact h
  intro i
  rcases h i with ⟨body, j, hbody⟩
  exact ⟨_, _, _, .block hopen hbody hclose⟩

/-! ## All names -/

/-- No rule leads out of what is readable, which makes everything derived readable. -/
theorem readable_rule (name : Symbol) (ts : List Token) (h : (rule name).Means Readable ts) :
    Readable name ts := by
  -- Each rule of the grammar is what the production of its name reads.
  cases name with
  | program =>
      rcases h with ⟨us, _, rfl, hus, hlast⟩
      rcases means_word.1 hlast with ⟨eof, rfl, heof⟩
      exact ⟨us, eof, rfl, heof, readsAs_declarations hus⟩
  | declaration =>
      rcases h with ((h | h) | ⟨keyword, us, rfl, hkeyword, h⟩) | h
      · exact h
      · exact h
      · intro i
        rcases h i with ⟨s, j, hs⟩
        exact ⟨s, j, .variable hkeyword hs⟩
      · intro i
        rcases h i with ⟨isOpen, s, j, hs⟩
        exact ⟨s, j, .statement hs⟩
  | classDecl => exact readsAs_classDecl h
  | funDecl =>
      rcases h with ⟨_, us, rfl, hword, h⟩
      rcases means_word.1 hword with ⟨keyword, rfl, hkeyword⟩
      intro i
      rcases h i with ⟨decl, j, hdecl⟩
      exact ⟨_, j, .function hkeyword hdecl⟩
  | function => exact readsAs_function h
  | parameters =>
      rcases h with ⟨_, us, rfl, hword, hmore⟩
      rcases means_word.1 hword with ⟨first, rfl, hfirst⟩
      rcases readsAs_moreParameters hmore [first] (by simp) with ⟨params, hparams⟩
      exact ⟨params, .some hfirst hparams⟩
  | varDecl => exact readable_varDecl h
  | statement => exact readsAsStatement_choice h
  | exprStmt =>
      rcases h with ⟨us, _, rfl, he, hword⟩
      rcases means_word.1 hword with ⟨mark, rfl, hmark⟩
      intro i
      rcases he i with ⟨e, j, he⟩
      exact ⟨_, j, .mk he hmark⟩
  | forStmt => exact readsAsStatement_for h
  | ifStmt => exact readsAsStatement_if h
  | printStmt => exact readsAsStatement_print h
  | returnStmt => exact readsAsStatement_return h
  | whileStmt => exact readsAsStatement_while h
  | block =>
      rcases h with ⟨_, _, rfl, ⟨_, us, rfl, hfirst, hbody⟩, hlast⟩
      rcases means_word.1 hfirst with ⟨openBrace, rfl, hopen⟩
      rcases means_word.1 hlast with ⟨closeBrace, rfl, hclose⟩
      exact ⟨openBrace, us, closeBrace, by simp, hopen, hclose, readsAs_declarations hbody⟩
  | expression => exact h
  | assignment => exact readsAs_assignment h
  | logicOr => exact readsAsOperation_operands (by decide) rfl (fun _ hus => hus) h
  | logicAnd => exact readsAsOperation_operands (by decide) rfl (fun _ hus => hus) h
  | equality => exact readsAsOperation_operands (by decide) rfl (fun _ hus => hus) h
  | comparison => exact readsAsOperation_operands (by decide) rfl (fun _ hus => hus) h
  | term => exact readsAsOperation_operands (by decide) rfl (fun _ hus => hus) h
  | factor => exact readsAsOperation_operands (by decide) rfl (fun _ hus => hus) h
  | unary => exact readsAsOperation_unary h
  | call =>
      rcases h with ⟨us, vs, rfl, hprimary, hcalls⟩
      intro i
      rcases hprimary i with ⟨callee, j, hcallee⟩
      rcases readsAs_calls hcalls callee j with ⟨e, k, he⟩
      exact ⟨e, k, .mk hcallee he⟩
  | arguments =>
      rcases h with ⟨us, vs, rfl, hfirst, hmore⟩
      intro i
      rcases hfirst i with ⟨e, j, he⟩
      rcases readsAs_moreArguments hmore [e] (by simp) j with ⟨es, k, hes⟩
      exact ⟨es, k, .some he hes⟩
  | primary => exact readsAs_primary h

/-- A program that can be derived can be read, whatever its first number is. -/
theorem readsAs_of_derives {ts : List Token} {eof : Token}
    (h : Derives (.symbol .program) (ts ++ [eof])) : ReadsAs Reading.Declarations ts := by
  rcases h.means readable_rule with ⟨us, eof', heq, -, hread⟩
  have hts : ts = us := (List.append_inj' heq rfl).1
  exact hts ▸ hread

end Grammar

end LoxLang
