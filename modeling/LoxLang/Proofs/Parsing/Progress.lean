import LoxLang.Proofs.Parsing.Inside
import LoxLang.Proofs.Parsing.Sequence

/-!
# Progress of a reading

A reading passes tokens until it stands at the end of input, and never looks outside the list.

* `follows_*`: every production does by positions what it does with the tokens ahead. One lemma
  each, by recursion on the bound of their depth.
* `turn_cases`: the turn of a loop passes a token, or it panics with a fault more.
* `program_eq`: a whole reading gives what the tokens ahead give.
* `program_inside` puts these together for every list of tokens that the end of input ends.
-/

namespace LoxLang

namespace Cursor

/-! ## Expressions -/

mutual

/-- By induction on the bound: each production of the positional parser follows the one on lists. -/
theorem follows_expression : ∀ n, Follows (expression n) (Parser.expression n)
  | 0 => .exhausted
  | n + 1 => by
      unfold expression Parser.expression
      refine (follows_operation n Level.all).bind fun left => ?_
      refine (Follows.accept _).bind fun equals => ?_
      cases equals with
      | none => exact .pure left
      | some equals =>
          refine (follows_expression n).bind fun value => ?_
          cases left with
          | «variable» ref => exact Follows.fresh.bind fun _ => .pure _
          | get _ object name => exact Follows.fresh.bind fun _ => .pure _
          | _ => exact (Follows.report _ _).bind fun _ => .pure _

theorem follows_operation :
    ∀ n levels, Follows (operation n levels) (Parser.operation n levels)
  | 0, _ => .exhausted
  | n + 1, [] => follows_unary n
  | n + 1, level :: tighter => by
      unfold operation Parser.operation
      exact (follows_operation n tighter).bind fun left => follows_chain n level tighter left

theorem follows_chain : ∀ n level tighter left,
    Follows (chain n level tighter left) (Parser.chain n level tighter left)
  | 0, _, _, _ => .exhausted
  | n + 1, level, tighter, left => by
      unfold chain Parser.chain
      refine (Follows.accept _).bind fun operator => ?_
      cases operator with
      | none => exact .pure left
      | some operator =>
          refine (follows_operation n tighter).bind fun right => ?_
          exact Follows.fresh.bind fun id => follows_chain n level tighter _

theorem follows_unary : ∀ n, Follows (unary n) (Parser.unary n)
  | 0 => .exhausted
  | n + 1 => by
      unfold unary Parser.unary
      refine (Follows.accept _).bind fun operator => ?_
      cases operator with
      | none => exact (follows_primary n).bind fun callee => follows_calls n callee
      | some operator =>
          exact (follows_unary n).bind fun right => Follows.fresh.bind fun id => .pure _

theorem follows_calls : ∀ n callee, Follows (calls n callee) (Parser.calls n callee)
  | 0, _ => .exhausted
  | n + 1, callee => by
      unfold calls Parser.calls
      refine (Follows.skip? _).bind fun isCall => ?_
      split
      · refine (follows_arguments n).bind fun arguments => ?_
        refine (Follows.expectMark _ _).bind fun paren => ?_
        exact Follows.fresh.bind fun id => follows_calls n _
      · refine (Follows.skip? _).bind fun isGet => ?_
        split
        · refine (Follows.expectName _).bind fun name => ?_
          exact Follows.fresh.bind fun id => follows_calls n _
        · exact .pure callee

theorem follows_arguments : ∀ n, Follows (arguments n) (Parser.arguments n)
  | 0 => .exhausted
  | n + 1 => by
      unfold arguments Parser.arguments
      refine (Follows.at? _).bind fun isEmpty => ?_
      split
      · exact .pure []
      · exact (follows_expression n).bind fun first => follows_moreArguments n [first]

theorem follows_moreArguments : ∀ n before,
    Follows (moreArguments n before) (Parser.moreArguments n before)
  | 0, _ => .exhausted
  | n + 1, before => by
      unfold moreArguments Parser.moreArguments
      refine (Follows.skip? _).bind fun isMore => ?_
      split
      · refine (Follows.reportExcess _ _).bind fun _ => ?_
        exact (follows_expression n).bind fun argument => follows_moreArguments n _
      · exact .pure before

theorem follows_primary : ∀ n, Follows (primary n) (Parser.primary n)
  | 0 => .exhausted
  | n + 1 => by
      unfold primary Parser.primary
      refine Follows.current.bind fun token => ?_
      -- A literal, `this` and a name are one token each.
      have hleaf : ∀ f : NodeId → Expr, Follows (do let _ ← advance; return f (← fresh))
          (do let _ ← Parser.advance; return f (← Parser.fresh)) := fun f =>
        Follows.advance.bind fun _ => Follows.fresh.bind fun _ => .pure _
      generalize token.kind = kind
      cases kind with
      | falseWord | trueWord | nilWord | number | string | thisWord => exact hleaf _
      | identifier => exact hleaf fun id => .variable ⟨id, token⟩
      | superWord =>
          refine Follows.advance.bind fun _ => (Follows.expectMark _ _).bind fun _ => ?_
          exact (Follows.expectName _).bind fun _ => Follows.fresh.bind fun _ => .pure _
      | leftParen =>
          refine Follows.advance.bind fun _ => (follows_expression n).bind fun inner => ?_
          exact (Follows.expectMark _ _).bind fun _ => Follows.fresh.bind fun _ => .pure _
      | _ => exact .fail _

end

/-! ## Clauses without a statement -/

theorem follows_optionalExpression (n : Nat) (mark : Kind) :
    Follows (optionalExpression n mark) (Parser.optionalExpression n mark) := by
  refine (Follows.at? mark).bind fun isMissing => ?_
  split
  · exact .pure none
  · exact (follows_expression n).map some

theorem follows_expressionStatement (n : Nat) :
    Follows (expressionStatement n) (Parser.expressionStatement n) := by
  refine (follows_expression n).bind fun e => ?_
  exact (Follows.expectMark _ _).bind fun _ => .pure _

theorem follows_printStatement (n : Nat) :
    Follows (printStatement n) (Parser.printStatement n) := by
  refine (follows_expression n).bind fun e => ?_
  exact (Follows.expectMark _ _).bind fun _ => .pure _

theorem follows_initializer (n : Nat) : Follows (initializer n) (Parser.initializer n) := by
  refine (Follows.skip? _).bind fun isGiven => ?_
  split
  · exact (follows_expression n).map some
  · exact .pure none

theorem follows_varDeclaration (n : Nat) :
    Follows (varDeclaration n) (Parser.varDeclaration n) := by
  refine (Follows.expectName _).bind fun name => ?_
  refine (follows_initializer n).bind fun value => ?_
  exact (Follows.expectMark _ _).bind fun _ => .pure _

theorem follows_moreParameters : ∀ n params,
    Follows (moreParameters n params) (Parser.moreParameters n params)
  | 0, _ => .exhausted
  | n + 1, params => by
      unfold moreParameters Parser.moreParameters
      refine (Follows.skip? _).bind fun isMore => ?_
      split
      · refine (Follows.reportExcess _ _).bind fun _ => ?_
        exact (Follows.expectName _).bind fun param => follows_moreParameters n _
      · exact .pure params

theorem follows_parameters (n : Nat) : Follows (parameters n) (Parser.parameters n) := by
  refine (Follows.at? _).bind fun isEmpty => ?_
  split
  · exact .pure []
  · exact (Follows.expectName _).bind fun first => follows_moreParameters n [first]

theorem follows_forInitializer (n : Nat) :
    Follows (forInitializer n) (Parser.forInitializer n) := by
  refine (Follows.skip? _).bind fun isMissing => ?_
  split
  · exact .pure none
  · refine (Follows.skip? _).bind fun isVariable => ?_
    split
    · exact (follows_varDeclaration n).map some
    · exact (follows_expressionStatement n).map some

theorem follows_superclass : Follows superclass Parser.superclass := by
  refine (Follows.skip? _).bind fun isGiven => ?_
  split
  · exact (Follows.expectName _).bind fun name => Follows.fresh.bind fun id => .pure _
  · exact .pure none

/-! ## Statements -/

/-- A return statement takes its keyword from the position in front of it. -/
theorem followsAt_returnStatement (n : Nat) {c : Cursor} {keyword : Token} (hc : c.Inside)
    (hprevious : previous c = .ok keyword c) :
    c.FollowsAt (returnStatement n) (Parser.returnStatement n keyword) := by
  have hrest : Follows (do
      let value ← optionalExpression n .semicolon
      let _ ← expectMark .semicolon .afterReturnValue
      return .returnValue keyword value) (Parser.returnStatement n keyword) := by
    refine (follows_optionalExpression n _).bind fun value => ?_
    exact (Follows.expectMark _ _).bind fun _ => .pure _
  unfold FollowsAt returnStatement
  rw [bind_run, hprevious]
  exact hrest c hc

/-- A keyword is looked for before anything else. -/
theorem FollowsAt.skip_else {α : Type} {kind : Kind} {x y : Production α} {p : Parser α}
    {c : Cursor} (hc : c.Inside)
    (hthen : c.input.head.kind = kind → c.Matches (x c.next) (p c.input))
    (helse : c.input.head.kind ≠ kind → c.FollowsAt y p) :
    c.FollowsAt (do if ← skip? kind then x else y) p := by
  unfold FollowsAt
  rw [bind_run, skip?_run hc]
  by_cases hkind : c.input.head.kind = kind
  · rw [if_pos hkind]
    exact hthen hkind
  · rw [if_neg hkind]
    exact helse hkind

mutual

/-- A declaration that panics is dropped by both parsers, up to the same token. -/
theorem follows_declaration : ∀ n, Follows (declaration n) (Parser.declaration n)
  | 0 => .exhausted
  | n + 1 => by
      unfold declaration Parser.declaration
      refine Follows.recovering ?_
      refine (Follows.skip? _).bind fun isClass => ?_
      split
      · exact follows_classDeclaration n
      · refine (Follows.skip? _).bind fun isFunction => ?_
        split
        · exact (follows_function n .function).bind fun decl => .pure _
        · refine (Follows.skip? _).bind fun isVariable => ?_
          split
          · exact follows_varDeclaration n
          · exact follows_statement n

theorem follows_classDeclaration : ∀ n, Follows (classDeclaration n) (Parser.classDeclaration n)
  | 0 => .exhausted
  | n + 1 => by
      unfold classDeclaration Parser.classDeclaration
      refine (Follows.expectName _).bind fun name => ?_
      refine follows_superclass.bind fun superclass => ?_
      refine (Follows.expectMark _ _).bind fun _ => ?_
      refine (follows_methods n).bind fun methods => ?_
      exact (Follows.expectMark _ _).bind fun _ => .pure _

theorem follows_methods : ∀ n, Follows (methods n) (Parser.methods n)
  | 0 => .exhausted
  | n + 1 => by
      unfold methods Parser.methods
      refine Follows.atBodyEnd.bind fun isEnd => ?_
      split
      · exact .pure []
      · refine (follows_function n .method).bind fun method => ?_
        exact (follows_methods n).bind fun rest => .pure _

theorem follows_function : ∀ n callable, Follows (function n callable) (Parser.function n callable)
  | 0, _ => .exhausted
  | n + 1, callable => by
      unfold function Parser.function
      refine (Follows.expectName _).bind fun name => ?_
      refine (Follows.expectMark _ _).bind fun _ => ?_
      refine (follows_parameters n).bind fun params => ?_
      refine (Follows.expectMark _ _).bind fun _ => ?_
      refine (Follows.expectMark _ _).bind fun _ => ?_
      exact (follows_block n).bind fun body => .pure _

theorem follows_block : ∀ n, Follows (block n) (Parser.block n)
  | 0 => .exhausted
  | n + 1 => by
      unfold block Parser.block
      refine Follows.atBodyEnd.bind fun isEnd => ?_
      split
      · exact (Follows.expectMark _ _).bind fun _ => .pure []
      · refine (follows_declaration n).bind fun first => ?_
        exact (follows_block n).bind fun rest => .pure _

theorem follows_statement : ∀ n, Follows (statement n) (Parser.statement n)
  | 0 => .exhausted
  | n + 1 => by
      -- By positions the keywords are looked for one after the other; on the tokens ahead the first
      -- token decides at once.
      intro c hc
      have hkeyword : ∀ {q : Production Stmt} {p : Parser Stmt}, c.next.FollowsAt q p →
          c.Matches (q c.next) (p c.input.next) := by
        intro q p h
        rw [← input_next]
        exact h.after (.next hc)
      unfold statement
      refine .skip_else hc (fun h => ?_) fun hfor => ?_
      · rw [Parser.statement_run, h]
        exact hkeyword (follows_forStatement n _ hc.next)
      refine .skip_else hc (fun h => ?_) fun hif => ?_
      · rw [Parser.statement_run, h]
        exact hkeyword (follows_ifStatement n _ hc.next)
      refine .skip_else hc (fun h => ?_) fun hprint => ?_
      · rw [Parser.statement_run, h]
        exact hkeyword (follows_printStatement n _ hc.next)
      refine .skip_else hc (fun h => ?_) fun hreturn => ?_
      · rw [Parser.statement_run, h]
        have hhead : c.input.head.kind ≠ .eof := h ▸ by decide
        exact hkeyword (followsAt_returnStatement n hc.next (previous_next hc hhead))
      refine .skip_else hc (fun h => ?_) fun hwhile => ?_
      · rw [Parser.statement_run, h]
        exact hkeyword (follows_whileStatement n _ hc.next)
      refine .skip_else hc (fun h => ?_) fun hbrace => ?_
      · rw [Parser.statement_run, h]
        exact hkeyword (((follows_block n).bind fun body => .pure _) _ hc.next)
      have hplain : Parser.statement (n + 1) c.input = Parser.expressionStatement n c.input := by
        rw [Parser.statement_run]
        split <;> first | contradiction | rfl
      unfold FollowsAt
      rw [hplain]
      exact follows_expressionStatement n c hc

theorem follows_forStatement : ∀ n, Follows (forStatement n) (Parser.forStatement n)
  | 0 => .exhausted
  | n + 1 => by
      unfold forStatement Parser.forStatement
      refine (Follows.expectMark _ _).bind fun _ => ?_
      refine (follows_forInitializer n).bind fun initializer => ?_
      refine (follows_optionalExpression n _).bind fun condition => ?_
      refine (Follows.expectMark _ _).bind fun _ => ?_
      refine (follows_optionalExpression n _).bind fun increment => ?_
      refine (Follows.expectMark _ _).bind fun _ => ?_
      refine (follows_statement n).bind fun body => ?_
      cases condition with
      | none => exact Follows.fresh.bind fun id => .pure _
      | some e => exact .pure _

theorem follows_ifStatement : ∀ n, Follows (ifStatement n) (Parser.ifStatement n)
  | 0 => .exhausted
  | n + 1 => by
      unfold ifStatement Parser.ifStatement
      refine (Follows.expectMark _ _).bind fun _ => ?_
      refine (follows_expression n).bind fun condition => ?_
      refine (Follows.expectMark _ _).bind fun _ => ?_
      refine (follows_statement n).bind fun thenBranch => ?_
      refine (Follows.skip? _).bind fun hasElse => ?_
      split
      · exact (follows_statement n).bind fun elseBranch => .pure _
      · exact .pure _

theorem follows_whileStatement : ∀ n, Follows (whileStatement n) (Parser.whileStatement n)
  | 0 => .exhausted
  | n + 1 => by
      unfold whileStatement Parser.whileStatement
      refine (Follows.expectMark _ _).bind fun _ => ?_
      refine (follows_expression n).bind fun condition => ?_
      refine (Follows.expectMark _ _).bind fun _ => ?_
      exact (follows_statement n).bind fun body => .pure _

end

/-- Both parsers go on until the end of the input is ahead. -/
theorem follows_program : ∀ n, Follows (program n) (Parser.program n)
  | 0 => .exhausted
  | n + 1 => by
      unfold program Parser.program
      refine (Follows.at? _).bind fun isEnd => ?_
      split
      · exact .pure []
      · refine (follows_declaration n).bind fun first => ?_
        exact (follows_program n).bind fun rest => .pure _

/-! ## Turns of a loop -/

/-- What remains is what is behind the position. -/
theorem length_rest (c : Cursor) : c.input.rest.length = c.tokens.length - c.position :=
  List.length_drop

/-- A cursor on tokens that are ended by the end of input. -/
theorem inside_of_eq {ts : List Token} {eof : Token} {c : Cursor} (heof : eof.kind = .eof)
    (htokens : c.tokens = ts ++ [eof]) (hposition : c.position ≤ ts.length) : c.Inside := by
  refine ⟨?_, ?_⟩
  · rw [htokens, List.length_append, List.length_singleton]
    exact Nat.lt_succ_of_le hposition
  · simp [htokens, heof]

section Turn

variable {α : Type} {q : Nat → Production α} {p : Nat → Parser α} {c : Cursor}

/-- What a production ends in that is run as the turn of a loop: it has passed a token, or it panics
with a fault more, or the bound on its depth was too small. -/
theorem turn_cases (hfollows : ∀ n, Follows (q n) (p n))
    (hrepeats : ∀ {n m}, n ≤ m → Parser.Repeats [] (p n) (p m)) (hsteady : ∀ n, Parser.Steady (p n))
    (hpasses : ∀ n, Parser.depthBound c.tokens ≤ n → Parser.Passes (p n) c.input) (hc : c.Inside)
    (n : Nat) :
    (∃ a c', q n c = .ok a c' ∧ p n c.input = .ok a c'.input ∧ c.Leads c' ∧
        c.position < c'.position) ∨
      (∃ c', q n c = .error .panic c' ∧ p n c.input = .error .panic c'.input ∧ c.Leads c' ∧
        c.errors.length < c'.errors.length) ∨
      n < Parser.depthBound c.tokens ∧ ∃ c', q n c = .error .exhausted c' := by
  have hrun := hfollows n c hc
  have hmore := hsteady n c.input
  unfold FollowsAt at hrun
  generalize hq : q n c = r, hp : p n c.input = r' at hrun hmore
  cases hrun with
  | @ok a c' hlead =>
      -- With a larger bound it does the same, and then it is known to pass a token.
      let m := max (Parser.depthBound c.tokens) n
      have hpass := hpasses m (Nat.le_max_left _ n)
      unfold Parser.Passes Parser.Finishes at hpass
      have hagain : p m c.input = .ok a c'.input := (hrepeats (Nat.le_max_right _ n)).run_eq hp
      rw [hagain] at hpass
      have hless : c'.input.rest.length < c.input.rest.length := hpass
      rw [length_rest, length_rest, hlead.tokens] at hless
      exact .inl ⟨a, c', rfl, rfl, hlead, by omega⟩
  | @panic c' hlead => exact .inr (.inl ⟨c', rfl, rfl, hlead, hmore.2⟩)
  | @exhausted c' s =>
      refine .inr (.inr ⟨Nat.lt_of_not_le fun hle => ?_, c', rfl⟩)
      have hpass := hpasses n hle
      unfold Parser.Passes Parser.Finishes at hpass
      rw [hp] at hpass
      exact hpass

end Turn

/-! ## Whole programs -/

section Whole

variable {ts : List Token} {eof : Token} {c : Cursor}

/-- The only end of input is the last token. -/
theorem head_kind_eq_eof (hts : ∀ t ∈ ts, t.kind ≠ .eof) (hc : c.Inside)
    (htokens : c.tokens = ts ++ [eof]) (h : c.input.head.kind = .eof) : c.position = ts.length := by
  have hlt := hc.position_lt
  rw [htokens, List.length_append, List.length_singleton] at hlt
  refine Nat.le_antisymm (Nat.le_of_lt_succ hlt) (Nat.le_of_not_lt fun hless => ?_)
  have hhead := hc.getElem?
  rw [htokens, List.getElem?_append_left hless] at hhead
  exact hts _ (List.mem_of_getElem? hhead) h

/-- Before the last token the end is not ahead. -/
theorem head_kind_ne_eof (hts : ∀ t ∈ ts, t.kind ≠ .eof) (hc : c.Inside)
    (htokens : c.tokens = ts ++ [eof]) (h : c.position < ts.length) : c.input.head.kind ≠ .eof :=
  fun heof => Nat.ne_of_lt h (head_kind_eq_eof hts hc htokens heof)

/-- No step leads behind the last token. -/
theorem Leads.position_le {c' : Cursor} (h : c.Leads c') (htokens : c.tokens = ts ++ [eof]) :
    c'.tokens = ts ++ [eof] ∧ c'.position ≤ ts.length := by
  have hlt := h.inside.position_lt
  rw [h.tokens, htokens, List.length_append, List.length_singleton] at hlt
  exact ⟨h.tokens.trans htokens, Nat.le_of_lt_succ hlt⟩

/-- The bound for all of the tokens suffices for those ahead. -/
theorem enough_of_depthBound {n : Nat} (hn : Parser.depthBound c.tokens ≤ n) :
    20 * c.input.rest.length + 13 ≤ n := by
  rw [length_rest]
  simp only [Parser.depthBound] at hn
  omega

/-- A whole reading gives what the tokens ahead give, and ends at the end of input. -/
theorem program_eq (hts : ∀ t ∈ ts, t.kind ≠ .eof) (heof : eof.kind = .eof) (firstId : NodeId)
    {n : Nat} (hn : Parser.depthBound (ts ++ [eof]) ≤ n) :
    let reading := Program.ofTokens (ts ++ [eof]) firstId
    program n ⟨ts ++ [eof], 0, firstId, []⟩ =
      .ok reading.statements ⟨ts ++ [eof], ts.length, reading.nextId, reading.errors⟩ := by
  intro reading
  -- With the bound, the run on the tokens ahead ends at the end of input, and by positions it is
  -- that run.
  let c : Cursor := ⟨ts ++ [eof], 0, firstId, []⟩
  have hc : c.Inside := inside_of_eq heof rfl (Nat.zero_le _)
  have hfinish := Parser.finishes_program n c.input (enough_of_depthBound hn)
  rcases Program.program_eq_ofTokens hfinish with ⟨rest, hprogram⟩
  rw [List.nil_append] at hprogram
  have hinput : Parser.program n c.input = .ok reading.statements
      ⟨rest, reading.nextId, reading.errors⟩ := hprogram
  have hrun := follows_program n c hc
  unfold Parser.Finishes at hfinish
  unfold FollowsAt at hrun
  rw [hinput] at hrun hfinish
  generalize program n c = r at hrun
  generalize hs : (⟨rest, reading.nextId, reading.errors⟩ : Parser.Input) = s at hrun hfinish
  cases hrun with
  | @ok _ c' hlead =>
      have hend := head_kind_eq_eof hts hlead.inside hlead.tokens hfinish
      have htokens : c'.tokens = ts ++ [eof] := hlead.tokens
      have hnext : reading.nextId = c'.nextId := congrArg Parser.Input.nextId hs
      have herrors : reading.errors = c'.errors := congrArg Parser.Input.errors hs
      rw [hnext, herrors, ← htokens, ← hend]

/-- Reading tokens that are ended by their only end of input comes to an end there, and looks no
token up outside the list; what is read is the program that the tokens ahead give. In the loops over
declarations, no turn ends without a token passed, even if the declaration is faulty. In the loop
over methods, a turn passes a token, or it ends the loop by a panic with a fault that has been
recorded. Neither looks outside the list, and both end in what the tokens ahead give. -/
theorem program_inside (hts : ∀ t ∈ ts, t.kind ≠ .eof) (heof : eof.kind = .eof)
    (firstId : NodeId) :
    let tokens := ts ++ [eof]
    let reading := Program.ofTokens tokens firstId
    (∀ n, Parser.depthBound tokens ≤ n →
      program n ⟨tokens, 0, firstId, []⟩ =
        .ok reading.statements ⟨tokens, ts.length, reading.nextId, reading.errors⟩) ∧
    (∀ n (c : Cursor), c.tokens = tokens → c.position < ts.length →
      (∃ first c', declaration n c = .ok first c' ∧
        Parser.declaration n c.input = .ok first c'.input ∧ c'.tokens = tokens ∧
        c.position < c'.position ∧ c'.position ≤ ts.length) ∨
      n < Parser.depthBound tokens ∧ ∃ c', declaration n c = .error .exhausted c') ∧
    (∀ n callable (c : Cursor), c.tokens = tokens → c.position ≤ ts.length →
      (∃ decl c', function n callable c = .ok decl c' ∧
        Parser.function n callable c.input = .ok decl c'.input ∧ c'.tokens = tokens ∧
        c.position < c'.position ∧ c'.position ≤ ts.length) ∨
      (∃ c', function n callable c = .error .panic c' ∧
        Parser.function n callable c.input = .error .panic c'.input ∧ c'.tokens = tokens ∧
        c.position ≤ c'.position ∧ c'.position ≤ ts.length ∧ c.errors.length < c'.errors.length) ∨
      n < Parser.depthBound tokens ∧ ∃ c', function n callable c = .error .exhausted c') := by
  intro tokens reading
  refine ⟨fun n hn => ?_, fun n c htokens hposition => ?_, fun n callable c htokens hposition => ?_⟩
  · exact program_eq hts heof firstId hn
  -- a declaration always ends with progress, as it recovers from its own panics
  · have hc := inside_of_eq heof htokens (Nat.le_of_lt hposition)
    have hhead := head_kind_ne_eof hts hc htokens hposition
    have hturn := turn_cases follows_declaration Parser.repeats_declaration Parser.steady_declaration
      (fun m hm => Parser.passes_declaration m _ (Nat.le_of_succ_le (enough_of_depthBound hm)) hhead)
      hc n
    rw [htokens] at hturn
    rcases hturn with ⟨first, c', hrun, hahead, hlead, hless⟩ | ⟨c', -, hpanic, -⟩ | hexhausted
    · rcases hlead.position_le htokens with ⟨htokens', hle⟩
      exact .inl ⟨first, c', hrun, hahead, htokens', hless, hle⟩
    · exact absurd hpanic (Parser.declaration_ne_panic _ _ _)
    · exact .inr hexhausted
  -- a function may also panic, and then has reported why
  · have hc := inside_of_eq heof htokens hposition
    have hturn := turn_cases (fun m => follows_function m callable)
      (fun hle => Parser.repeats_function hle callable) (fun m => Parser.steady_function m callable)
      (fun m hm => Parser.passes_function m callable _ (by have := enough_of_depthBound hm; omega))
      hc n
    rw [htokens] at hturn
    rcases hturn with ⟨decl, c', hrun, hahead, hlead, hless⟩ |
      ⟨c', hrun, hahead, hlead, hmore⟩ | hexhausted
    · rcases hlead.position_le htokens with ⟨htokens', hle⟩
      exact .inl ⟨decl, c', hrun, hahead, htokens', hless, hle⟩
    · rcases hlead.position_le htokens with ⟨htokens', hle⟩
      exact .inr (.inl ⟨c', hrun, hahead, htokens', hlead.position, hle, hmore⟩)
    · exact .inr (.inr hexhausted)

/-- The hypotheses hold of `{ print`, where a block and a statement are cut off. The statement is
passed all the same, and a method in its place panics. -/
theorem program_inside_unclosed :
    let brace : Token := ⟨.leftBrace, "\x7b", .nil, 1, 1⟩
    let print : Token := ⟨.printWord, "print", .nil, 1, 3⟩
    let eof := Token.endOfInput 1 8
    let tokens := [brace, print] ++ [eof]
    let n := Parser.depthBound tokens
    let reading := Program.ofTokens tokens 0
    let c : Cursor := ⟨tokens, 1, 0, []⟩
    reading.errors.length = 2 ∧
      program n ⟨tokens, 0, 0, []⟩ =
        .ok reading.statements ⟨tokens, 2, reading.nextId, reading.errors⟩ ∧
      (∃ first c', declaration n c = .ok first c' ∧ 1 < c'.position ∧ c'.position ≤ 2) ∧
      ∃ c', function n .method c = .error .panic c' ∧ c'.position ≤ 2 ∧ 0 < c'.errors.length := by
  intro brace print eof tokens n reading c
  have hts : ∀ t ∈ [brace, print], t.kind ≠ .eof := by decide
  have heof : eof.kind = .eof := rfl
  rcases program_inside hts heof 0 with ⟨hprogram, hdeclaration, hfunction⟩
  refine ⟨by decide, hprogram n (Nat.le_refl _), ?_, ?_⟩
  · rcases hdeclaration n c rfl (by decide) with
      ⟨first, c', hrun, -, -, hless, hle⟩ | ⟨hlt, -⟩
    · exact ⟨first, c', hrun, hless, hle⟩
    · exact absurd hlt (Nat.lt_irrefl _)
  -- there is no name ahead, so a function can only panic
  · have hpanic : ∃ c', function n .method c = .error .panic c' := ⟨_, rfl⟩
    rcases hfunction n .method c rfl (by decide) with
      ⟨decl, c', hrun, -⟩ | ⟨c', hrun, -, -, -, hle, hmore⟩ | ⟨hlt, -⟩
    · rcases hpanic with ⟨c'', hpanic⟩
      exact absurd (hrun.symm.trans hpanic) nofun
    · exact ⟨c', hrun, hle, hmore⟩
    · exact absurd hlt (Nat.lt_irrefl _)

end Whole

end Cursor

end LoxLang
