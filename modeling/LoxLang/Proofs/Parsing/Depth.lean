import LoxLang.Proofs.Parsing.Steady

/-!
# The bound on the depth of productions

`Parser.depthBound` is never used up. Every production finishes if its bound is twenty for each
token ahead and a constant for the production itself: a production that is entered at the same
token has a smaller constant, and twenty are gained whenever a token is passed.
-/

namespace LoxLang

namespace Parser

variable {α : Type}

/-! ## Single steps -/

/-- To take a token that is not the end leaves fewer. -/
theorem Input.length_next_lt {s : Input} (h : s.head.kind ≠ .eof) :
    s.next.rest.length < s.rest.length := by
  have hrest := s.rest_eq_cons h
  have hlength := congrArg List.length hrest
  simp only [List.length_cons] at hlength
  omega

namespace Finishes

theorem of_eq {p : Parser α} {s s' : Input} {a : α} {Q : α → Input → Prop} (h : p s = .ok a s')
    (hQ : Q a s') : Finishes p s Q := by
  unfold Finishes
  rw [h]
  exact hQ

theorem pure {s : Input} {a : α} {Q : α → Input → Prop} (h : Q a s) :
    Finishes (Pure.pure a) s Q := h

theorem fail {s : Input} {fault : SyntaxFault} {Q : α → Input → Prop} :
    Finishes (fail fault) s Q := trivial

theorem current (s : Input) : Finishes current s fun t s' => t = s.head ∧ s' = s :=
  of_eq (current_run s) ⟨rfl, rfl⟩

theorem at? (kind : Kind) (s : Input) :
    Finishes (at? kind) s fun b s' => (b = true ↔ s.head.kind = kind) ∧ s' = s :=
  of_eq (at?_run kind s) ⟨by simp, rfl⟩

theorem atBodyEnd (s : Input) :
    Finishes atBodyEnd s fun b s' =>
      (b = true ↔ s.head.kind = .rightBrace ∨ s.head.kind = .eof) ∧ s' = s :=
  of_eq (atBodyEnd_run s) ⟨by simp, rfl⟩

/-- A token that is not the end is passed. -/
theorem advance {s : Input} (h : s.head.kind ≠ .eof) :
    Finishes advance s fun _ s' => s'.rest.length < s.rest.length :=
  of_eq (advance_run s) (Input.length_next_lt h)

theorem accept {wanted : Kind → Bool} (hwanted : wanted .eof = false) (s : Input) :
    Finishes (accept wanted) s fun o s' =>
      match o with
      | none => s' = s
      | some _ => s'.rest.length < s.rest.length := by
  unfold Finishes
  rw [accept_run]
  split
  · rename_i haccepted
    have hhead : s.head.kind ≠ .eof := by
      intro heof
      simp [heof, hwanted] at haccepted
    exact Input.length_next_lt hhead
  · rfl

theorem skip? {kind : Kind} (hkind : kind ≠ .eof) (s : Input) :
    Finishes (skip? kind) s fun b s' =>
      (b = true → s'.rest.length < s.rest.length) ∧ (b = false → s' = s) := by
  unfold Finishes
  rw [skip?_run]
  split
  · rename_i hhead
    exact ⟨fun _ => Input.length_next_lt (hhead ▸ hkind), by simp⟩
  · exact ⟨by simp, fun _ => rfl⟩

/-- Where the expected token is, it is passed; elsewhere the production panics, which is a way to
finish. -/
theorem expect {kind : Kind} (hkind : kind ≠ .eof) (fault : SyntaxFault) (s : Input) :
    Finishes (expect kind fault) s fun _ s' => s'.rest.length < s.rest.length := by
  unfold Finishes
  rw [expect_run]
  split
  · rename_i hhead
    exact Input.length_next_lt (hhead ▸ hkind)
  · trivial

theorem expectMark {mark : Kind} (hmark : mark ≠ .eof) (place : MarkPlace) (s : Input) :
    Finishes (expectMark mark place) s fun _ s' => s'.rest.length < s.rest.length :=
  expect hmark _ s

theorem expectName (role : NameRole) (s : Input) :
    Finishes (expectName role) s fun _ s' => s'.rest.length < s.rest.length :=
  expect (by decide) _ s

theorem fresh (s : Input) : Finishes fresh s fun _ s' => s'.rest = s.rest :=
  of_eq (fresh_run s) rfl

theorem report (fault : SyntaxFault) (token : Token) (s : Input) :
    Finishes (report fault token) s fun _ s' => s'.rest = s.rest :=
  of_eq (report_run fault token s) rfl

theorem reportExcess (count : Nat) (fault : SyntaxFault) (s : Input) :
    Finishes (reportExcess count fault) s fun _ s' => s'.rest = s.rest := by
  unfold Finishes
  rw [reportExcess_run]
  split <;> rfl

/-- The last step of many productions: an expression gets its number. -/
theorem fresh_pure (s : Input) (f : NodeId → α) :
    Finishes (do return f (← Parser.fresh)) s fun _ s' => s'.rest = s.rest := by
  refine (fresh s).bind fun id s' h => ?_
  exact pure h

end Finishes

/-- A production passes at least one token. -/
def Passes (p : Parser α) (s : Input) : Prop :=
  Finishes p s fun _ s' => s'.rest.length < s.rest.length

/-- A production may pass tokens. -/
def Stays (p : Parser α) (s : Input) : Prop :=
  Finishes p s fun _ s' => s'.rest.length ≤ s.rest.length

/-! ## Expressions -/

/-- No level has the end of input for an operator. -/
theorem accepts_eof_of_suffix {level : Level} {tighter : List Level}
    (h : level :: tighter <:+ Level.all) : level.accepts .eof = false := by
  have hmem : level ∈ Level.all := h.subset List.mem_cons_self
  simp only [Level.all, List.mem_cons, List.not_mem_nil, or_false] at hmem
  rcases hmem with rfl | rfl | rfl | rfl | rfl | rfl <;> rfl

theorem suffix_of_cons {level : Level} {tighter : List Level}
    (h : level :: tighter <:+ Level.all) : tighter <:+ Level.all :=
  (List.suffix_cons level tighter).trans h

/-- Of the levels that are left to try, there are at most six. -/
theorem length_levels_le {levels : List Level} (h : levels <:+ Level.all) : levels.length ≤ 6 :=
  h.length_le

mutual

/-- The bound goes down with the tokens that are left: twenty for each, and a few for the
productions that may be entered without taking one. -/
theorem passes_expression : ∀ n s, 20 * s.rest.length + 10 ≤ n → Passes (expression n) s
  | 0, s, h => by omega
  | n + 1, s, h => by
      unfold expression
      -- Twenty levels for each token, and ten more for the productions that may nest before the
      -- first one is passed.
      have hlength : Level.all.length = 6 := rfl
      refine (passes_operation n Level.all s List.suffix_rfl (by omega)).bind
        fun left s₁ h₁ => ?_
      refine (Finishes.accept (by rfl) s₁).bind fun equals s₂ h₂ => ?_
      cases equals with
      | none =>
          have hsame : s₂ = s₁ := h₂
          exact Finishes.pure (hsame ▸ h₁)
      | some equals =>
          have hless : s₂.rest.length < s₁.rest.length := h₂
          refine (passes_expression n s₂ (by omega)).bind fun value s₃ h₃ => ?_
          split
          · refine (Finishes.fresh_pure s₃ _).mono fun _ s₄ h₄ => ?_
            rw [h₄]
            omega
          · refine (Finishes.fresh_pure s₃ _).mono fun _ s₄ h₄ => ?_
            rw [h₄]
            omega
          · refine (Finishes.report _ _ s₃).bind fun _ s₄ h₄ => Finishes.pure ?_
            rw [h₄]
            omega

theorem passes_operation : ∀ n levels s, levels <:+ Level.all →
    20 * s.rest.length + 3 + levels.length ≤ n → Passes (operation n levels) s
  | 0, _, s, _, h => by omega
  | n + 1, [], s, _, h => by
      unfold operation
      exact passes_unary n s (by simp only [List.length_nil] at h; omega)
  | n + 1, level :: tighter, s, hlevels, h => by
      unfold operation
      simp only [List.length_cons] at h
      refine (passes_operation n tighter s (suffix_of_cons hlevels) (by omega)).bind
        fun left s₁ h₁ => ?_
      refine (stays_chain n level tighter left s₁ hlevels (by omega)).mono fun _ s₂ h₂ => ?_
      omega

/-- Each turn of a chain takes an operator and an operand, so the bound suffices for as many turns
as there are. -/
theorem stays_chain : ∀ n level tighter left s, level :: tighter <:+ Level.all →
    20 * s.rest.length + 1 ≤ n → Stays (chain n level tighter left) s
  | 0, _, _, _, s, _, h => by omega
  | n + 1, level, tighter, left, s, hlevels, h => by
      unfold chain
      refine (Finishes.accept (accepts_eof_of_suffix hlevels) s).bind fun operator s₁ h₁ => ?_
      cases operator with
      | none =>
          have hsame : s₁ = s := h₁
          exact Finishes.pure (hsame ▸ Nat.le_refl _)
      -- the operator has been taken, which leaves twenty more for its operand and the turns behind
      -- it
      | some operator =>
          have hless : s₁.rest.length < s.rest.length := h₁
          have htighter := suffix_of_cons hlevels
          have hlength := length_levels_le htighter
          refine (passes_operation n tighter s₁ htighter (by omega)).bind fun right s₂ h₂ => ?_
          refine (Finishes.fresh s₂).bind fun id s₃ h₃ => ?_
          refine (stays_chain n level tighter _ s₃ hlevels (by rw [h₃]; omega)).mono
            fun _ s₄ h₄ => ?_
          rw [h₃] at h₄
          omega

theorem passes_unary : ∀ n s, 20 * s.rest.length + 2 ≤ n → Passes (unary n) s
  | 0, s, h => by omega
  | n + 1, s, h => by
      unfold unary
      refine (Finishes.accept (by rfl) s).bind fun operator s₁ h₁ => ?_
      cases operator with
      -- without one, it is the primary expression that passes a token
      | none =>
          have hsame : s₁ = s := h₁
          subst hsame
          refine (passes_primary n s₁ (by omega)).bind fun callee s₂ h₂ => ?_
          refine (stays_calls n callee s₂ (by omega)).mono fun _ s₃ h₃ => ?_
          omega
      -- the operator is the token that is passed
      | some operator =>
          have hless : s₁.rest.length < s.rest.length := h₁
          refine (passes_unary n s₁ (by omega)).bind fun right s₂ h₂ => ?_
          refine (Finishes.fresh_pure s₂ _).mono fun _ s₃ h₃ => ?_
          rw [h₃]
          omega

theorem stays_calls : ∀ n callee s, 20 * s.rest.length + 1 ≤ n → Stays (calls n callee) s
  | 0, _, s, h => by omega
  | n + 1, callee, s, h => by
      unfold calls
      refine (Finishes.skip? (by decide) s).bind fun isCall s₁ h₁ => ?_
      split
      · have hless := h₁.1 ‹_›
        refine (stays_arguments n s₁ (by omega)).bind fun arguments s₂ h₂ => ?_
        refine (Finishes.expectMark (by decide) _ s₂).bind fun paren s₃ h₃ => ?_
        refine (Finishes.fresh s₃).bind fun id s₄ h₄ => ?_
        refine (stays_calls n _ s₄ (by rw [h₄]; omega)).mono fun _ s₅ h₅ => ?_
        rw [h₄] at h₅
        -- Each turn takes a mark, so the bound suffices for the turns that remain.
        omega
      · have hsame := h₁.2 (by simpa using ‹¬ isCall = true›)
        subst hsame
        refine (Finishes.skip? (by decide) s₁).bind fun isGet s₂ h₂ => ?_
        split
        · have hless := h₂.1 ‹_›
          refine (Finishes.expectName _ s₂).bind fun name s₃ h₃ => ?_
          refine (Finishes.fresh s₃).bind fun id s₄ h₄ => ?_
          refine (stays_calls n _ s₄ (by rw [h₄]; omega)).mono fun _ s₅ h₅ => ?_
          rw [h₄] at h₅
          omega
        · have hsame := h₂.2 (by simpa using ‹¬ isGet = true›)
          exact Finishes.pure (hsame ▸ Nat.le_refl _)

theorem stays_arguments : ∀ n s, 20 * s.rest.length + 11 ≤ n → Stays (arguments n) s
  | 0, s, h => by omega
  | n + 1, s, h => by
      unfold arguments
      refine (Finishes.at? _ s).bind fun isEmpty s₁ h₁ => ?_
      rcases h₁ with ⟨-, rfl⟩
      split
      · exact Finishes.pure (Nat.le_refl _)
      · refine (passes_expression n s₁ (by omega)).bind fun first s₂ h₂ => ?_
        refine (stays_moreArguments n _ s₂ (by omega)).mono fun _ s₃ h₃ => ?_
        omega

theorem stays_moreArguments : ∀ n before s, 20 * s.rest.length + 1 ≤ n →
    Stays (moreArguments n before) s
  | 0, _, s, h => by omega
  | n + 1, before, s, h => by
      unfold moreArguments
      refine (Finishes.skip? (by decide) s).bind fun isMore s₁ h₁ => ?_
      split
      · have hless := h₁.1 ‹_›
        refine (Finishes.reportExcess _ _ s₁).bind fun _ s₂ h₂ => ?_
        refine (passes_expression n s₂ (by rw [h₂]; omega)).bind fun argument s₃ h₃ => ?_
        rw [h₂] at h₃
        refine (stays_moreArguments n _ s₃ (by omega)).mono fun _ s₄ h₄ => ?_
        omega
      · have hsame := h₁.2 (by simpa using ‹¬ isMore = true›)
        exact Finishes.pure (hsame ▸ Nat.le_refl _)

theorem passes_primary : ∀ n s, 20 * s.rest.length + 1 ≤ n → Passes (primary n) s
  | 0, s, h => by omega
  | n + 1, s, h => by
      unfold primary
      refine (Finishes.current s).bind fun token s₁ h₁ => ?_
      rcases h₁ with ⟨rfl, rfl⟩
      -- Most expressions of this kind are one token.
      have hleaf : ∀ f : NodeId → Expr, s₁.head.kind ≠ .eof →
          Passes (do let _ ← advance; return f (← fresh)) s₁ := by
        intro f hhead
        refine (Finishes.advance hhead).bind fun _ s₂ h₂ => ?_
        refine (Finishes.fresh_pure s₂ f).mono fun _ s₃ h₃ => ?_
        rw [h₃]
        exact h₂
      split
      · exact hleaf _ (by simp [*])
      · exact hleaf _ (by simp [*])
      · exact hleaf _ (by simp [*])
      · exact hleaf _ (by simp [*])
      · exact hleaf _ (by simp [*])
      · refine (Finishes.advance (by simp [*])).bind fun _ s₂ h₂ => ?_
        refine (Finishes.expectMark (by decide) _ s₂).bind fun _ s₃ h₃ => ?_
        refine (Finishes.expectName _ s₃).bind fun method s₄ h₄ => ?_
        refine (Finishes.fresh_pure s₄ _).mono fun _ s₅ h₅ => ?_
        rw [h₅]
        omega
      · exact hleaf _ (by simp [*])
      · exact hleaf _ (by simp [*])
      · refine (Finishes.advance (by simp [*])).bind fun _ s₂ h₂ => ?_
        refine (passes_expression n s₂ (by omega)).bind fun inner s₃ h₃ => ?_
        refine (Finishes.expectMark (by decide) _ s₃).bind fun _ s₄ h₄ => ?_
        refine (Finishes.fresh_pure s₄ _).mono fun _ s₅ h₅ => ?_
        rw [h₅]
        omega
      · exact Finishes.fail

end

/-! ## Clauses without a statement -/

theorem stays_optionalExpression {n : Nat} {s : Input} (mark : Kind)
    (h : 20 * s.rest.length + 10 ≤ n) : Stays (optionalExpression n mark) s := by
  refine (Finishes.at? mark s).bind fun isMissing s₁ h₁ => ?_
  rcases h₁ with ⟨-, rfl⟩
  split
  · exact Finishes.pure (Nat.le_refl _)
  · refine Finishes.map some ?_
    exact (passes_expression n s₁ h).mono fun _ s₂ h₂ => Nat.le_of_lt h₂

/-- An expression and the semicolon behind it. -/
theorem passes_expression_mark {n : Nat} {s : Input} (place : MarkPlace) (f : Expr → Stmt)
    (h : 20 * s.rest.length + 10 ≤ n) :
    Passes (do
      let e ← expression n
      let _ ← expectMark .semicolon place
      return f e) s := by
  refine (passes_expression n s h).bind fun e s₁ h₁ => ?_
  refine (Finishes.expectMark (by decide) place s₁).bind fun _ s₂ h₂ => ?_
  exact Finishes.pure (Nat.lt_trans h₂ h₁)

theorem passes_expressionStatement {n : Nat} {s : Input} (h : 20 * s.rest.length + 10 ≤ n) :
    Passes (expressionStatement n) s := passes_expression_mark _ _ h

theorem passes_printStatement {n : Nat} {s : Input} (h : 20 * s.rest.length + 10 ≤ n) :
    Passes (printStatement n) s := passes_expression_mark _ _ h

theorem passes_returnStatement {n : Nat} {s : Input} (keyword : Token)
    (h : 20 * s.rest.length + 10 ≤ n) : Passes (returnStatement n keyword) s := by
  refine (stays_optionalExpression _ h).bind fun value s₁ h₁ => ?_
  refine (Finishes.expectMark (by decide) _ s₁).bind fun _ s₂ h₂ => ?_
  exact Finishes.pure (Nat.lt_of_lt_of_le h₂ h₁)

theorem stays_initializer {n : Nat} {s : Input} (h : 20 * s.rest.length + 10 ≤ n) :
    Stays (initializer n) s := by
  refine (Finishes.skip? (by decide) s).bind fun isGiven s₁ h₁ => ?_
  split
  · have hless := h₁.1 ‹_›
    refine Finishes.map some ?_
    refine (passes_expression n s₁ (by omega)).mono fun _ s₂ h₂ => ?_
    omega
  · have hsame := h₁.2 (by simpa using ‹¬ isGiven = true›)
    exact Finishes.pure (hsame ▸ Nat.le_refl _)

theorem passes_varDeclaration {n : Nat} {s : Input} (h : 20 * s.rest.length + 10 ≤ n) :
    Passes (varDeclaration n) s := by
  refine (Finishes.expectName _ s).bind fun name s₁ h₁ => ?_
  refine (stays_initializer (by omega)).bind fun value s₂ h₂ => ?_
  refine (Finishes.expectMark (by decide) _ s₂).bind fun _ s₃ h₃ => Finishes.pure ?_
  omega

theorem stays_moreParameters : ∀ n params s, 20 * s.rest.length + 1 ≤ n →
    Stays (moreParameters n params) s
  | 0, _, s, h => by omega
  | n + 1, params, s, h => by
      unfold moreParameters
      refine (Finishes.skip? (by decide) s).bind fun isMore s₁ h₁ => ?_
      split
      · have hless := h₁.1 ‹_›
        refine (Finishes.reportExcess _ _ s₁).bind fun _ s₂ h₂ => ?_
        refine (Finishes.expectName _ s₂).bind fun param s₃ h₃ => ?_
        rw [h₂] at h₃
        refine (stays_moreParameters n _ s₃ (by omega)).mono fun _ s₄ h₄ => ?_
        omega
      · have hsame := h₁.2 (by simpa using ‹¬ isMore = true›)
        exact Finishes.pure (hsame ▸ Nat.le_refl _)

theorem stays_parameters {n : Nat} {s : Input} (h : 20 * s.rest.length + 1 ≤ n) :
    Stays (parameters n) s := by
  refine (Finishes.at? _ s).bind fun isEmpty s₁ h₁ => ?_
  rcases h₁ with ⟨-, rfl⟩
  split
  · exact Finishes.pure (Nat.le_refl _)
  · refine (Finishes.expectName _ s₁).bind fun first s₂ h₂ => ?_
    refine (stays_moreParameters n _ s₂ (by omega)).mono fun _ s₃ h₃ => ?_
    omega

theorem passes_forInitializer {n : Nat} {s : Input} (h : 20 * s.rest.length + 10 ≤ n) :
    Passes (forInitializer n) s := by
  refine (Finishes.skip? (by decide) s).bind fun isMissing s₁ h₁ => ?_
  split
  · exact Finishes.pure (h₁.1 ‹_›)
  · have hsame := h₁.2 (by simpa using ‹¬ isMissing = true›)
    subst hsame
    refine (Finishes.skip? (by decide) s₁).bind fun isVariable s₂ h₂ => ?_
    split
    · have hless := h₂.1 ‹_›
      refine Finishes.map some ?_
      refine (passes_varDeclaration (by omega)).mono fun _ s₃ h₃ => ?_
      omega
    · have hsame := h₂.2 (by simpa using ‹¬ isVariable = true›)
      subst hsame
      exact Finishes.map some (passes_expressionStatement h)

theorem stays_superclass (s : Input) : Stays superclass s := by
  refine (Finishes.skip? (by decide) s).bind fun isGiven s₁ h₁ => ?_
  split
  · have hless := h₁.1 ‹_›
    refine (Finishes.expectName _ s₁).bind fun name s₂ h₂ => ?_
    refine (Finishes.fresh_pure s₂ _).mono fun _ s₃ h₃ => ?_
    rw [h₃]
    omega
  · have hsame := h₁.2 (by simpa using ‹¬ isGiven = true›)
    exact Finishes.pure (hsame ▸ Nat.le_refl _)

/-! ## Statements -/

/-- Giving up on a statement passes its first token at least. -/
theorem length_synchronize_lt {t : Token} (ts : List Token) (h : t.kind ≠ .eof) :
    (synchronize (t :: ts)).length < (t :: ts).length := by
  have hle := (dropStatement_suffix t ts).length_le
  simp only [synchronize, beq_iff_eq, h, if_false, List.length_cons]
  omega

/-- A production that panics at its first token still passes it, since recovering drops one. -/
theorem passes_recovering {p : Parser α} {s : Input} (hsteady : Steady p)
    (hp : Passes p s) (h : s.head.kind ≠ .eof) : Passes (recovering p) s := by
  have hleads := hsteady s
  unfold Passes Finishes at *
  unfold recovering
  cases hrun : p s with
  | ok a s' =>
      rw [hrun] at hp
      exact hp
  | error e s' =>
      rw [hrun] at hp hleads
      cases e with
      | exhausted => exact hp
      | panic =>
          have hsuffix := hleads.1.rest
          have hsync := (synchronize_suffix s'.rest).length_le
          change (synchronize s'.rest).length < s.rest.length
          -- Either the panic came after some token, or the first token is dropped now.
          rcases Nat.lt_or_eq_of_le hsuffix.length_le with hless | heq
          · omega
          · have hsame : s'.rest = s.rest := hsuffix.eq_of_length heq
            rw [hsame, s.rest_eq_cons h]
            exact length_synchronize_lt _ h

mutual

/-- A declaration passes a token even if it is faulty, so a list of them ends. -/
theorem passes_declaration : ∀ n s, 20 * s.rest.length + 12 ≤ n → s.head.kind ≠ .eof →
    Passes (declaration n) s
  | 0, s, h, _ => by omega
  | n + 1, s, h, hhead => by
      -- Whichever word is ahead, it is taken; if none is, a statement takes a token.
      simp only [declaration_succ]
      refine passes_recovering (steady_declarationBody n) ?_ hhead
      refine (Finishes.skip? (by decide) s).bind fun isClass s₁ h₁ => ?_
      split
      · have hless := h₁.1 ‹_›
        refine (passes_classDeclaration n s₁ (by omega)).mono fun _ s₂ h₂ => ?_
        omega
      · have hsame := h₁.2 (by simpa using ‹¬ isClass = true›)
        subst hsame
        refine (Finishes.skip? (by decide) s₁).bind fun isFunction s₂ h₂ => ?_
        split
        · have hless := h₂.1 ‹_›
          refine (passes_function n .function s₂ (by omega)).bind fun decl s₃ h₃ => ?_
          exact Finishes.pure (Nat.lt_trans h₃ hless)
        · have hsame := h₂.2 (by simpa using ‹¬ isFunction = true›)
          subst hsame
          refine (Finishes.skip? (by decide) s₂).bind fun isVariable s₃ h₃ => ?_
          split
          · have hless := h₃.1 ‹_›
            refine (passes_varDeclaration (by omega)).mono fun _ s₄ h₄ => ?_
            omega
          · have hsame := h₃.2 (by simpa using ‹¬ isVariable = true›)
            subst hsame
            exact passes_statement n s₃ (by omega)

theorem passes_classDeclaration : ∀ n s, 20 * s.rest.length + 1 ≤ n →
    Passes (classDeclaration n) s
  | 0, s, h => by omega
  | n + 1, s, h => by
      unfold classDeclaration
      refine (Finishes.expectName _ s).bind fun name s₁ h₁ => ?_
      refine (stays_superclass s₁).bind fun superclass s₂ h₂ => ?_
      refine (Finishes.expectMark (by decide) _ s₂).bind fun _ s₃ h₃ => ?_
      refine (stays_methods n s₃ (by omega)).bind fun methods s₄ h₄ => ?_
      refine (Finishes.expectMark (by decide) _ s₄).bind fun _ s₅ h₅ => Finishes.pure ?_
      omega

theorem stays_methods : ∀ n s, 20 * s.rest.length + 2 ≤ n → Stays (methods n) s
  | 0, s, h => by omega
  | n + 1, s, h => by
      unfold methods
      refine (Finishes.atBodyEnd s).bind fun isEnd s₁ h₁ => ?_
      rcases h₁ with ⟨-, rfl⟩
      split
      · exact Finishes.pure (Nat.le_refl _)
      · refine (passes_function n .method s₁ (by omega)).bind fun method s₂ h₂ => ?_
        refine (stays_methods n s₂ (by omega)).bind fun rest s₃ h₃ => Finishes.pure ?_
        omega

theorem passes_function : ∀ n callable s, 20 * s.rest.length + 1 ≤ n →
    Passes (function n callable) s
  | 0, _, s, h => by omega
  | n + 1, callable, s, h => by
      unfold function
      refine (Finishes.expectName _ s).bind fun name s₁ h₁ => ?_
      refine (Finishes.expectMark (by decide) _ s₁).bind fun _ s₂ h₂ => ?_
      refine (stays_parameters (by omega)).bind fun params s₃ h₃ => ?_
      refine (Finishes.expectMark (by decide) _ s₃).bind fun _ s₄ h₄ => ?_
      refine (Finishes.expectMark (by decide) _ s₄).bind fun _ s₅ h₅ => ?_
      refine (passes_block n s₅ (by omega)).bind fun body s₆ h₆ => Finishes.pure ?_
      omega

theorem passes_block : ∀ n s, 20 * s.rest.length + 13 ≤ n → Passes (block n) s
  | 0, s, h => by omega
  | n + 1, s, h => by
      unfold block
      refine (Finishes.atBodyEnd s).bind fun isEnd s₁ h₁ => ?_
      rcases h₁ with ⟨hend, rfl⟩
      split
      · refine (Finishes.expectMark (by decide) _ s₁).bind fun _ s₂ h₂ => ?_
        exact Finishes.pure h₂
      · have hhead : s₁.head.kind ≠ .eof := fun heof => absurd (hend.2 (.inr heof)) ‹_›
        refine (passes_declaration n s₁ (by omega) hhead).bind fun first s₂ h₂ => ?_
        refine (passes_block n s₂ (by omega)).bind fun rest s₃ h₃ => Finishes.pure ?_
        omega

theorem passes_statement : ∀ n s, 20 * s.rest.length + 11 ≤ n → Passes (statement n) s
  | 0, s, h => by omega
  | n + 1, s, h => by
      unfold statement
      refine (Finishes.current s).bind fun token s₁ h₁ => ?_
      rcases h₁ with ⟨rfl, rfl⟩
      -- A keyword that is passed leaves enough of the bound for what is behind it.
      have hkeyword : ∀ {p : Parser Stmt}, s₁.head.kind ≠ .eof →
          (∀ s₂ : Input, s₂.rest.length < s₁.rest.length → Passes p s₂) →
          Passes (do let _ ← advance; p) s₁ := by
        intro p hhead hp
        refine (Finishes.advance hhead).bind fun _ s₂ h₂ => ?_
        exact (hp s₂ h₂).mono fun _ s₃ h₃ => Nat.lt_trans h₃ h₂
      split
      · exact hkeyword (by simp [*]) fun s₂ h₂ => passes_forStatement n s₂ (by omega)
      · exact hkeyword (by simp [*]) fun s₂ h₂ => passes_ifStatement n s₂ (by omega)
      · exact hkeyword (by simp [*]) fun s₂ h₂ => passes_printStatement (by omega)
      · exact hkeyword (by simp [*]) fun s₂ h₂ => passes_returnStatement _ (by omega)
      · exact hkeyword (by simp [*]) fun s₂ h₂ => passes_whileStatement n s₂ (by omega)
      · refine hkeyword (by simp [*]) fun s₂ h₂ => ?_
        exact (passes_block n s₂ (by omega)).bind fun body s₃ h₃ => Finishes.pure h₃
      · exact passes_expressionStatement (by omega)

theorem passes_forStatement : ∀ n s, 20 * s.rest.length + 1 ≤ n → Passes (forStatement n) s
  | 0, s, h => by omega
  | n + 1, s, h => by
      unfold forStatement
      refine (Finishes.expectMark (by decide) _ s).bind fun _ s₁ h₁ => ?_
      refine (passes_forInitializer (by omega)).bind fun initializer s₂ h₂ => ?_
      refine (stays_optionalExpression _ (by omega)).bind fun condition s₃ h₃ => ?_
      refine (Finishes.expectMark (by decide) _ s₃).bind fun _ s₄ h₄ => ?_
      refine (stays_optionalExpression _ (by omega)).bind fun increment s₅ h₅ => ?_
      refine (Finishes.expectMark (by decide) _ s₅).bind fun _ s₆ h₆ => ?_
      refine (passes_statement n s₆ (by omega)).bind fun body s₇ h₇ => ?_
      cases condition with
      | none =>
          refine (Finishes.fresh_pure s₇ _).mono fun _ s₈ h₈ => ?_
          rw [h₈]
          omega
      | some e => exact Finishes.pure (by omega)

theorem passes_ifStatement : ∀ n s, 20 * s.rest.length + 1 ≤ n → Passes (ifStatement n) s
  | 0, s, h => by omega
  | n + 1, s, h => by
      unfold ifStatement
      refine (Finishes.expectMark (by decide) _ s).bind fun _ s₁ h₁ => ?_
      refine (passes_expression n s₁ (by omega)).bind fun condition s₂ h₂ => ?_
      refine (Finishes.expectMark (by decide) _ s₂).bind fun _ s₃ h₃ => ?_
      refine (passes_statement n s₃ (by omega)).bind fun thenBranch s₄ h₄ => ?_
      refine (Finishes.skip? (by decide) s₄).bind fun hasElse s₅ h₅ => ?_
      split
      · have hless := h₅.1 ‹_›
        refine (passes_statement n s₅ (by omega)).bind fun elseBranch s₆ h₆ => ?_
        exact Finishes.pure (by omega)
      · have hsame := h₅.2 (by simpa using ‹¬ hasElse = true›)
        subst hsame
        exact Finishes.pure (by omega)

theorem passes_whileStatement : ∀ n s, 20 * s.rest.length + 1 ≤ n → Passes (whileStatement n) s
  | 0, s, h => by omega
  | n + 1, s, h => by
      unfold whileStatement
      refine (Finishes.expectMark (by decide) _ s).bind fun _ s₁ h₁ => ?_
      refine (passes_expression n s₁ (by omega)).bind fun condition s₂ h₂ => ?_
      refine (Finishes.expectMark (by decide) _ s₂).bind fun _ s₃ h₃ => ?_
      refine (passes_statement n s₃ (by omega)).bind fun body s₄ h₄ => Finishes.pure ?_
      omega

end

/-- A program is read to its end, whatever its tokens are. -/
theorem finishes_program : ∀ n s, 20 * s.rest.length + 13 ≤ n →
    Finishes (program n) s fun _ s' => s'.head.kind = .eof
  | 0, s, h => by omega
  | n + 1, s, h => by
      unfold program
      refine (Finishes.at? _ s).bind fun isEnd s₁ h₁ => ?_
      rcases h₁ with ⟨hend, rfl⟩
      split
      · exact Finishes.pure (hend.1 ‹_›)
      · have hhead : s₁.head.kind ≠ .eof := fun heof => absurd (hend.2 heof) ‹_›
        refine (passes_declaration n s₁ (by omega) hhead).bind fun first s₂ h₂ => ?_
        refine (finishes_program n s₂ (by omega)).bind fun rest s₃ h₃ => ?_
        exact Finishes.pure h₃

end Parser

end LoxLang
