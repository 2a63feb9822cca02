import LoxLang.Proofs.Grammar.Shape
import LoxLang.Proofs.Parsing.Steady

/-!
# What is read has its shape

Every production makes trees of the shape of `Stmt.Shaped`, whatever the tokens are; where they are
faulty, this holds of what is left.

* `Makes ts p Q`: on tokens that are an end of `ts`, a result of `p` satisfies `Q`, and what is
  ahead then is an end of `ts`, too.
* The proofs follow the productions: one lemma each, by recursion on the bound of their depth.
-/

namespace LoxLang

namespace Parser

variable {α β : Type} {ts : List Token}

/-- What a production may end in if its results satisfy `Q`. -/
def MadeResult (ts : List Token) (Q : α → Prop) : EStateM.Result Stop Input α → Prop
  | .ok a s => s.rest <:+ ts ∧ Q a
  | .error .panic s => s.rest <:+ ts
  | .error .exhausted _ => True

/-- On the tokens of an end of `ts`, the results of `p` satisfy `Q`. -/
def Makes (ts : List Token) (p : Parser α) (Q : α → Prop) : Prop :=
  ∀ s : Input, s.rest <:+ ts → MadeResult ts Q (p s)

namespace Makes

variable {P : α → Prop} {Q : β → Prop}

theorem pure {a : α} (h : P a) : Makes ts (Pure.pure a) P := fun _ hs => ⟨hs, h⟩

theorem exhausted : Makes ts (throw .exhausted) P := fun _ _ => trivial

/-- What is made in two steps is made of what the first one makes. -/
theorem bind {x : Parser α} {f : α → Parser β} (hx : Makes ts x P)
    (hf : ∀ a, P a → Makes ts (f a) Q) : Makes ts (x >>= f) Q := by
  intro s hs
  have hfirst := hx s hs
  rw [bind_run]
  cases hrun : x s with
  | ok a s' =>
      rw [hrun] at hfirst
      exact hf a hfirst.2 s' hfirst.1
  | error reason s' =>
      rw [hrun] at hfirst
      cases reason <;> exact hfirst

theorem map {x : Parser α} (f : α → β) (hx : Makes ts x fun a => Q (f a)) :
    Makes ts (f <$> x) Q := by
  rw [← bind_pure_comp]
  exact hx.bind fun _ h => pure h

theorem mono {p : Parser α} {P' : α → Prop} (hp : Makes ts p P) (h : ∀ a, P a → P' a) :
    Makes ts p P' := by
  intro s hs
  have hrun := hp s hs
  cases hp : p s with
  | ok a s' =>
      rw [hp] at hrun
      exact ⟨hrun.1, h a hrun.2⟩
  | error reason s' =>
      rw [hp] at hrun
      cases reason <;> exact hrun

/-- A part that may be missing is there. -/
theorem mapSome {p : Parser α} (hp : Makes ts p P) : Makes ts (some <$> p) fun o => ∀ a ∈ o, P a :=
  map some (hp.mono fun _ h _ ha => Option.some.inj ha ▸ h)

/-- All that is asked of a result may be that there is one. -/
theorem of_steady {p : Parser α} (h : Steady p) : Makes ts p fun _ => True := by
  intro s hs
  have hrun := h s
  cases hp : p s with
  | ok a s' =>
      rw [hp] at hrun
      exact ⟨hrun.rest.trans hs, trivial⟩
  | error reason s' =>
      rw [hp] at hrun
      cases reason with
      | panic => exact hrun.1.rest.trans hs
      | exhausted => trivial

/-- A step whose result does not matter. -/
theorem after {x : Parser α} {f : α → Parser β} (hx : Steady x) (hf : ∀ a, Makes ts (f a) Q) :
    Makes ts (x >>= f) Q := (of_steady hx).bind fun a _ => hf a

theorem fail (fault : SyntaxFault) : Makes ts (Parser.fail fault : Parser α) P := by
  intro s hs
  rw [fail_run]
  exact hs

theorem recovering {p : Parser α} (hp : Makes ts p P) :
    Makes ts (recovering p) fun first => ∀ a ∈ first, P a := by
  intro s hs
  have hrun := hp s hs
  unfold Parser.recovering
  cases h : p s with
  | ok a s' =>
      rw [h] at hrun
      exact ⟨hrun.1, fun _ ha => Option.some.inj ha ▸ hrun.2⟩
  | error reason s' =>
      rw [h] at hrun
      cases reason with
      | panic => exact ⟨(synchronize_suffix s'.rest).trans hrun, nofun⟩
      | exhausted => trivial

end Makes

variable {N : Token → Prop}

/-- The names among some tokens are of a kind. -/
def Names (N : Token → Prop) (ts : List Token) : Prop := ∀ t ∈ ts, t.kind = .identifier → N t

/-- A name that is ahead is one of the names. -/
theorem name_of_head (hN : Names N ts) {s : Input} (hs : s.rest <:+ ts)
    (hkind : s.head.kind = .identifier) :
    N s.head := by
  refine hN _ (hs.mem ?_) hkind
  rw [s.rest_eq_cons (by simp [hkind])]
  exact List.mem_cons_self ..

/-- A token ahead that is an identifier is among the names. -/
theorem makes_current (hN : Names N ts) : Makes ts current fun t => t.kind = .identifier → N t :=
  fun _ hs => ⟨hs, name_of_head hN hs⟩

theorem makes_expectName (hN : Names N ts) (role : NameRole) : Makes ts (expectName role) N := by
  intro s hs
  unfold expectName
  rw [expect_run]
  split
  · exact ⟨(Input.Leads.next s).rest.trans hs, name_of_head hN hs ‹_›⟩
  · exact hs

/-! ## Expressions -/

mutual

/-- By induction on the bound: every name in an expression is an identifier of the tokens. -/
theorem makes_expression (hN : Names N ts) : ∀ n, Makes ts (expression n) (Expr.Shaped N)
  | 0 => .exhausted
  | n + 1 => by
      unfold expression
      refine (makes_operation hN n fun _ h => h).bind fun left hleft => ?_
      refine .after (Steady.accept _) fun equals => ?_
      cases equals with
      | none => exact .pure hleft
      | some equals =>
          refine (makes_expression hN n).bind fun value hvalue => ?_
          -- The target keeps the name that was read as a variable.
          cases left with
          | «variable» ref => exact .after Steady.fresh fun _ => .pure ⟨hleft, hvalue⟩
          | get _ object name => exact .after Steady.fresh fun _ => .pure ⟨hleft, hvalue⟩
          | _ => exact .after (Steady.report _ _) fun _ => .pure hleft

theorem makes_operation (hN : Names N ts) :
    ∀ n {levels : List Level}, (∀ level ∈ levels, level ∈ Level.all) →
    Makes ts (operation n levels) (Expr.Shaped N)
  | 0, _, _ => .exhausted
  | n + 1, [], _ => makes_unary hN n
  | n + 1, level :: tighter, hlevels => by
      unfold operation
      have htighter := (List.forall_mem_cons.1 hlevels).2
      exact (makes_operation hN n htighter).bind fun left hleft => makes_chain hN n hlevels hleft

theorem makes_chain (hN : Names N ts) : ∀ n {level : Level} {tighter : List Level},
    (∀ level' ∈ level :: tighter, level' ∈ Level.all) → ∀ {left : Expr}, left.Shaped N →
    Makes ts (chain n level tighter left) (Expr.Shaped N)
  | 0, _, _, _, _, _ => .exhausted
  | n + 1, level, tighter, hlevels, left, hleft => by
      rcases List.forall_mem_cons.1 hlevels with ⟨hlevel, htighter⟩
      unfold chain
      refine .after (Steady.accept _) fun operator => ?_
      cases operator with
      | none => exact .pure hleft
      | some operator =>
          refine (makes_operation hN n htighter).bind fun right hright => ?_
          refine .after Steady.fresh fun id => ?_
          exact makes_chain hN n hlevels (Level.shaped_node hlevel hleft hright)

theorem makes_unary (hN : Names N ts) : ∀ n, Makes ts (unary n) (Expr.Shaped N)
  | 0 => .exhausted
  | n + 1 => by
      unfold unary
      refine .after (Steady.accept _) fun operator => ?_
      cases operator with
      | none => exact (makes_primary hN n).bind fun callee hcallee => makes_calls hN n hcallee
      | some operator =>
          refine (makes_unary hN n).bind fun right hright => ?_
          exact .after Steady.fresh fun id => .pure hright

theorem makes_calls (hN : Names N ts) : ∀ n {callee : Expr}, callee.Shaped N →
    Makes ts (calls n callee) (Expr.Shaped N)
  | 0, _, _ => .exhausted
  | n + 1, callee, hcallee => by
      unfold calls
      refine .after (Steady.skip? _) fun isCall => ?_
      split
      · refine (makes_arguments hN n).bind fun arguments harguments => ?_
        refine .after (Steady.expectMark _ _) fun paren => ?_
        exact .after Steady.fresh fun id => makes_calls hN n ⟨hcallee, harguments⟩
      · refine .after (Steady.skip? _) fun isGet => ?_
        split
        · refine .after (Steady.expectName _) fun name => ?_
          exact .after Steady.fresh fun id => makes_calls hN n hcallee
        · exact .pure hcallee

theorem makes_arguments (hN : Names N ts) : ∀ n, Makes ts (arguments n) (Expr.AllShaped N)
  | 0 => .exhausted
  | n + 1 => by
      unfold arguments
      refine .after (Steady.at? _) fun isEmpty => ?_
      split
      · exact .pure trivial
      · refine (makes_expression hN n).bind fun first hfirst => ?_
        exact makes_moreArguments hN n ⟨hfirst, trivial⟩

theorem makes_moreArguments (hN : Names N ts) : ∀ n {before : List Expr}, Expr.AllShaped N before →
    Makes ts (moreArguments n before) (Expr.AllShaped N)
  | 0, _, _ => .exhausted
  | n + 1, before, hbefore => by
      unfold moreArguments
      refine .after (Steady.skip? _) fun isMore => ?_
      split
      · refine .after (Steady.reportExcess _ _) fun _ => ?_
        refine (makes_expression hN n).bind fun argument hargument => ?_
        exact makes_moreArguments hN n (hbefore.append hargument)
      · exact .pure hbefore

theorem makes_primary (hN : Names N ts) : ∀ n, Makes ts (primary n) (Expr.Shaped N)
  | 0 => .exhausted
  | n + 1 => by
      unfold primary
      refine (makes_current hN).bind fun token htoken => ?_
      have hliteral : ∀ value, Makes ts (do
          let _ ← advance
          return Expr.literal (← fresh) value) (Expr.Shaped N) := fun value =>
        .after Steady.advance fun _ => .after Steady.fresh fun _ => .pure trivial
      -- five literals, `super`, `this`, a name, parentheses, and anything else
      split
      · exact hliteral _
      · exact hliteral _
      · exact hliteral _
      · exact hliteral _
      · exact hliteral _
      · refine .after Steady.advance fun _ => .after (Steady.expectMark _ _) fun _ => ?_
        refine .after (Steady.expectName _) fun _ => ?_
        exact .after Steady.fresh fun _ => .pure trivial
      · exact .after Steady.advance fun _ => .after Steady.fresh fun _ => .pure trivial
      · exact .after Steady.advance fun _ => .after Steady.fresh fun _ => .pure (htoken ‹_›)
      · refine .after Steady.advance fun _ => (makes_expression hN n).bind fun inner hinner => ?_
        refine .after (Steady.expectMark _ _) fun _ => ?_
        exact .after Steady.fresh fun _ => .pure hinner
      · exact .fail _

end

/-! ## Clauses without a statement -/

theorem makes_optionalExpression (hN : Names N ts) (n : Nat) (mark : Kind) :
    Makes ts (optionalExpression n mark) fun o => ∀ e ∈ o, e.Shaped N := by
  refine .after (Steady.at? mark) fun isMissing => ?_
  split
  · exact .pure nofun
  · exact (makes_expression hN n).mapSome

/-- A statement that declares nothing. -/
abbrev Plain (N : Token → Prop) (s : Stmt) : Prop := s.declared? = none ∧ s.Shaped N

theorem makes_expressionStatement (hN : Names N ts) (n : Nat) :
    Makes ts (expressionStatement n) (Plain N) := by
  refine (makes_expression hN n).bind fun e he => ?_
  exact .after (Steady.expectMark _ _) fun _ => .pure ⟨rfl, he⟩

theorem makes_printStatement (hN : Names N ts) (n : Nat) :
    Makes ts (printStatement n) (Plain N) := by
  refine (makes_expression hN n).bind fun e he => ?_
  exact .after (Steady.expectMark _ _) fun _ => .pure ⟨rfl, he⟩

theorem makes_returnStatement (hN : Names N ts) (n : Nat) (keyword : Token) :
    Makes ts (returnStatement n keyword) (Plain N) := by
  refine (makes_optionalExpression hN n _).bind fun value hvalue => ?_
  exact .after (Steady.expectMark _ _) fun _ => .pure ⟨rfl, hvalue⟩

theorem makes_initializer (hN : Names N ts) (n : Nat) :
    Makes ts (initializer n) fun o => ∀ e ∈ o, e.Shaped N := by
  refine .after (Steady.skip? _) fun isGiven => ?_
  split
  · exact (makes_expression hN n).mapSome
  · exact .pure nofun

theorem makes_varDeclaration (hN : Names N ts) (n : Nat) :
    Makes ts (varDeclaration n) (Stmt.Shaped N) := by
  refine (makes_expectName hN _).bind fun name hname => ?_
  refine (makes_initializer hN n).bind fun value hvalue => ?_
  exact .after (Steady.expectMark _ _) fun _ => .pure ⟨hname, hvalue⟩

theorem makes_moreParameters (hN : Names N ts) :
    ∀ n {params : List Token}, (∀ param ∈ params, N param) →
    Makes ts (moreParameters n params) fun params => ∀ param ∈ params, N param
  | 0, _, _ => .exhausted
  | n + 1, params, hparams => by
      unfold moreParameters
      refine .after (Steady.skip? _) fun isMore => ?_
      split
      · refine .after (Steady.reportExcess _ _) fun _ => ?_
        refine (makes_expectName hN _).bind fun param hparam => ?_
        exact makes_moreParameters hN n (List.forall_mem_append.2 ⟨hparams, by simpa using hparam⟩)
      · exact .pure hparams

theorem makes_parameters (hN : Names N ts) (n : Nat) :
    Makes ts (parameters n) fun params => ∀ param ∈ params, N param := by
  refine .after (Steady.at? _) fun isEmpty => ?_
  split
  · exact .pure nofun
  · refine (makes_expectName hN _).bind fun first hfirst => ?_
    exact makes_moreParameters hN n (by simpa using hfirst)

theorem makes_forInitializer (hN : Names N ts) (n : Nat) :
    Makes ts (forInitializer n) fun o => ∀ s ∈ o, s.Shaped N := by
  refine .after (Steady.skip? _) fun isMissing => ?_
  split
  · exact .pure nofun
  · refine .after (Steady.skip? _) fun isVariable => ?_
    split
    · exact (makes_varDeclaration hN n).mapSome
    · exact ((makes_expressionStatement hN n).mono fun s hs => hs.2).mapSome

theorem makes_superclass (hN : Names N ts) :
    Makes ts superclass fun o => ∀ ref ∈ o, N ref.name := by
  refine .after (Steady.skip? _) fun isGiven => ?_
  split
  · refine (makes_expectName hN _).bind fun name hname => ?_
    exact .after Steady.fresh fun id => .pure fun ref h => Option.some.inj h ▸ hname
  · exact .pure nofun

/-! ## Statements -/

mutual

/-- A declaration that is kept has good names, and one that is dropped has none. -/
theorem makes_declaration (hN : Names N ts) :
    ∀ n, Makes ts (declaration n) fun first => ∀ s ∈ first, s.Shaped N
  | 0 => .exhausted
  | n + 1 => by
      have hbody : Makes ts (declarationBody n) (Stmt.Shaped N) := by
        refine .after (Steady.skip? _) fun isClass => ?_
        split
        · exact makes_classDeclaration hN n
        · refine .after (Steady.skip? _) fun isFunction => ?_
          split
          · exact (makes_function hN n .function).bind fun decl hdecl => .pure hdecl
          · refine .after (Steady.skip? _) fun isVariable => ?_
            split
            · exact makes_varDeclaration hN n
            · exact (makes_statement hN n).mono fun s hs => hs.2
      rw [declaration_succ]
      exact hbody.recovering

theorem makes_classDeclaration (hN : Names N ts) :
    ∀ n, Makes ts (classDeclaration n) (Stmt.Shaped N)
  | 0 => .exhausted
  | n + 1 => by
      unfold classDeclaration
      refine (makes_expectName hN _).bind fun name hname => ?_
      refine (makes_superclass hN).bind fun superclass hsuperclass => ?_
      refine .after (Steady.expectMark _ _) fun _ => ?_
      refine (makes_methods hN n).bind fun methods hmethods => ?_
      exact .after (Steady.expectMark _ _) fun _ => .pure ⟨hname, hsuperclass, hmethods⟩

theorem makes_methods (hN : Names N ts) : ∀ n, Makes ts (methods n) (FunctionDecl.AllShaped N)
  | 0 => .exhausted
  | n + 1 => by
      unfold methods
      refine .after Steady.atBodyEnd fun isEnd => ?_
      split
      · exact .pure trivial
      · refine (makes_function hN n .method).bind fun method hmethod => ?_
        exact (makes_methods hN n).bind fun rest hrest => .pure ⟨hmethod, hrest⟩

theorem makes_function (hN : Names N ts) :
    ∀ n callable, Makes ts (function n callable) (FunctionDecl.Shaped N)
  | 0, _ => .exhausted
  | n + 1, callable => by
      unfold function
      refine (makes_expectName hN _).bind fun name hname => ?_
      refine .after (Steady.expectMark _ _) fun _ => ?_
      refine (makes_parameters hN n).bind fun params hparams => ?_
      refine .after (Steady.expectMark _ _) fun _ => ?_
      refine .after (Steady.expectMark _ _) fun _ => ?_
      exact (makes_block hN n).bind fun body hbody => .pure ⟨hname, hparams, hbody⟩

theorem makes_block (hN : Names N ts) : ∀ n, Makes ts (block n) (Stmt.AllShaped N)
  | 0 => .exhausted
  | n + 1 => by
      unfold block
      refine .after Steady.atBodyEnd fun isEnd => ?_
      split
      · exact .after (Steady.expectMark _ _) fun _ => .pure trivial
      · refine (makes_declaration hN n).bind fun first hfirst => ?_
        exact (makes_block hN n).bind fun rest hrest => .pure (.append_toList hfirst hrest)

/-- What may stand as a branch or a body declares no name. -/
theorem makes_statement (hN : Names N ts) : ∀ n, Makes ts (statement n) (Plain N)
  | 0 => .exhausted
  | n + 1 => by
      unfold statement
      refine .after Steady.current fun token => ?_
      split
      · exact .after Steady.advance fun _ => makes_forStatement hN n
      · exact .after Steady.advance fun _ => makes_ifStatement hN n
      · exact .after Steady.advance fun _ => makes_printStatement hN n
      · exact .after Steady.advance fun _ => makes_returnStatement hN n token
      · exact .after Steady.advance fun _ => makes_whileStatement hN n
      · refine .after Steady.advance fun _ => ?_
        exact (makes_block hN n).bind fun body hbody => .pure ⟨rfl, hbody⟩
      · exact makes_expressionStatement hN n

theorem makes_forStatement (hN : Names N ts) : ∀ n, Makes ts (forStatement n) (Plain N)
  | 0 => .exhausted
  | n + 1 => by
      unfold forStatement
      refine .after (Steady.expectMark _ _) fun _ => ?_
      refine (makes_forInitializer hN n).bind fun initializer hinit => ?_
      refine (makes_optionalExpression hN n _).bind fun condition hcondition => ?_
      refine .after (Steady.expectMark _ _) fun _ => ?_
      refine (makes_optionalExpression hN n _).bind fun increment hincrement => ?_
      refine .after (Steady.expectMark _ _) fun _ => ?_
      refine (makes_statement hN n).bind fun body hbody => ?_
      cases condition with
      | none =>
          refine .after Steady.fresh fun id => .pure ?_
          exact Stmt.shaped_forLoop hinit trivial hincrement hbody.1 hbody.2
      | some e =>
          exact .pure (Stmt.shaped_forLoop hinit (hcondition e rfl) hincrement hbody.1 hbody.2)

theorem makes_ifStatement (hN : Names N ts) : ∀ n, Makes ts (ifStatement n) (Plain N)
  | 0 => .exhausted
  | n + 1 => by
      unfold ifStatement
      refine .after (Steady.expectMark _ _) fun _ => ?_
      refine (makes_expression hN n).bind fun condition hcondition => ?_
      refine .after (Steady.expectMark _ _) fun _ => ?_
      refine (makes_statement hN n).bind fun thenBranch hthen => ?_
      refine .after (Steady.skip? _) fun hasElse => ?_
      split
      · refine (makes_statement hN n).bind fun elseBranch helse => ?_
        exact .pure ⟨rfl, hcondition, hthen, helse⟩
      · exact .pure ⟨rfl, hcondition, hthen⟩

theorem makes_whileStatement (hN : Names N ts) : ∀ n, Makes ts (whileStatement n) (Plain N)
  | 0 => .exhausted
  | n + 1 => by
      unfold whileStatement
      refine .after (Steady.expectMark _ _) fun _ => ?_
      refine (makes_expression hN n).bind fun condition hcondition => ?_
      refine .after (Steady.expectMark _ _) fun _ => ?_
      exact (makes_statement hN n).bind fun body hbody => .pure ⟨rfl, hcondition, hbody⟩

end

theorem makes_program (hN : Names N ts) : ∀ n, Makes ts (program n) (Stmt.AllShaped N)
  | 0 => .exhausted
  | n + 1 => by
      unfold program
      refine .after (Steady.at? _) fun isEnd => ?_
      split
      · exact .pure trivial
      · refine (makes_declaration hN n).bind fun first hfirst => ?_
        exact (makes_program hN n).bind fun rest hrest => .pure (.append_toList hfirst hrest)

end Parser

/-! ## Whole programs -/

namespace Program

/-- What is read from any tokens has its shape. -/
theorem shaped_ofTokens {N : Token → Prop} {tokens : List Token}
    (hN : Parser.Names N tokens) (firstId : NodeId) :
    Stmt.AllShaped N (ofTokens tokens firstId).statements := by
  have hmade := Parser.makes_program hN (Parser.depthBound tokens) ⟨tokens, firstId, []⟩
    List.suffix_rfl
  unfold ofTokens
  split
  · rename_i ss s hrun
    rw [hrun] at hmade
    exact hmade.2
  · trivial

end Program

end LoxLang
