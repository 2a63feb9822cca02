import LoxLang.Proofs.Parsing.ExpressionSound

/-!
# Statements are read soundly

A production for statements that records no fault has passed tokens that read as its result. For a
statement more is known: if it ends in an `if` without an `else`, then no `else` follows, so an
`else` that does follow never belongs to an `if` further out than the nearest.
-/

namespace LoxLang

theorem Reading.OptionalExpression.none_inv {ts : List Token} {i j : NodeId}
    (h : Reading.OptionalExpression ts i Option.none j) : ts = [] ∧ j = i := by
  cases h
  exact ⟨rfl, rfl⟩

namespace Parser

/-! ## Clauses without a statement -/

/-- Nothing is read where the mark is ahead, an expression elsewhere. -/
theorem optionalExpression_sound {n : Nat} {mark : Kind} {s s' : Input} {o : Option Expr}
    (h : optionalExpression n mark s = .ok o s') (herrors : s'.errors.length ≤ s.errors.length) :
    Reads Reading.OptionalExpression s o s' := by
  simp only [optionalExpression, bind_eq_ok] at h
  rcases h with ⟨isMissing, s₁, hisMissing, h⟩
  rcases at?_inv hisMissing with ⟨-, rfl⟩
  split at h
  · rcases pure_eq_ok.1 h with ⟨rfl, rfl⟩
    exact ⟨[], rfl, .none⟩
  · rcases map_eq_ok.1 h with ⟨e, he, rfl⟩
    rcases expression_sound n he herrors with ⟨ts, hts, hread⟩
    exact ⟨ts, hts, .some hread⟩

theorem expressionStatement_sound {n : Nat} {s s' : Input} {st : Stmt}
    (h : expressionStatement n s = .ok st s') (herrors : s'.errors.length ≤ s.errors.length) :
    Reads Reading.ExpressionStatement s st s' := by
  simp only [expressionStatement, bind_eq_ok, pure_eq_ok] at h
  rcases h with ⟨e, s₁, he, mark, s₂, hmark, rfl, rfl⟩
  rcases expectMark_inv (by decide) hmark with ⟨hkind, htook⟩
  have htaken := htook.length_errors
  rcases expression_sound n he (by omega) with ⟨ts, hts, hread⟩
  refine ⟨ts ++ [mark], by simp [hts, htook.rest], ?_⟩
  rw [htook.nextId]
  exact .mk hread hkind

theorem initializer_sound {n : Nat} {s s' : Input} {o : Option Expr}
    (h : initializer n s = .ok o s') (herrors : s'.errors.length ≤ s.errors.length) :
    Reads Reading.Initializer s o s' := by
  simp only [initializer, bind_eq_ok] at h
  rcases h with ⟨isGiven, s₁, hisGiven, h⟩
  rcases skip?_inv (by decide) hisGiven with ⟨rfl, rfl, -⟩ | ⟨rfl, equals, hequals, htook⟩
  · rcases pure_eq_ok.1 h with ⟨rfl, rfl⟩
    exact ⟨[], rfl, .none⟩
  · rcases map_eq_ok.1 h with ⟨e, he, rfl⟩
    have htaken := htook.length_errors
    rcases expression_sound n he (by omega) with ⟨ts, hts, hread⟩
    rw [htook.nextId] at hread
    exact ⟨equals :: ts, by simp [htook.rest, hts], .some hequals hread⟩

theorem varDeclaration_sound {n : Nat} {s s' : Input} {st : Stmt}
    (h : varDeclaration n s = .ok st s') (herrors : s'.errors.length ≤ s.errors.length) :
    Reads Reading.VarDeclaration s st s' := by
  simp only [varDeclaration, bind_eq_ok, pure_eq_ok] at h
  rcases h with ⟨name, s₁, hname, value, s₂, hvalue, mark, s₃, hmark, rfl, rfl⟩
  rcases expectName_inv hname with ⟨hnameKind, htook⟩
  rcases expectMark_inv (by decide) hmark with ⟨hmarkKind, htook'⟩
  have htaken := htook.length_errors
  have htaken' := htook'.length_errors
  rcases initializer_sound hvalue (by omega) with ⟨ts, hts, hread⟩
  rw [htook.nextId] at hread
  refine ⟨name :: ts ++ [mark], by simp [htook.rest, hts, htook'.rest], ?_⟩
  rw [htook'.nextId]
  exact .mk hnameKind hread hmarkKind

theorem forInitializer_sound {n : Nat} {s s' : Input} {o : Option Stmt}
    (h : forInitializer n s = .ok o s') (herrors : s'.errors.length ≤ s.errors.length) :
    Reads Reading.ForInitializer s o s' := by
  simp only [forInitializer, bind_eq_ok] at h
  rcases h with ⟨isMissing, s₁, hisMissing, h⟩
  rcases skip?_inv (by decide) hisMissing with ⟨rfl, rfl, -⟩ | ⟨rfl, mark, hmark, htook⟩
  · simp only [Bool.false_eq_true, if_false, bind_eq_ok] at h
    rcases h with ⟨isVariable, s₂, hisVariable, h⟩
    rcases skip?_inv (by decide) hisVariable with ⟨rfl, rfl, -⟩ | ⟨rfl, keyword, hkeyword, htook⟩
    · rcases map_eq_ok.1 h with ⟨st, hst, rfl⟩
      rcases expressionStatement_sound hst herrors with ⟨ts, hts, hread⟩
      exact ⟨ts, hts, .expression hread⟩
    · rcases map_eq_ok.1 h with ⟨st, hst, rfl⟩
      have htaken := htook.length_errors
      rcases varDeclaration_sound hst (by omega) with ⟨ts, hts, hread⟩
      rw [htook.nextId] at hread
      exact ⟨keyword :: ts, by simp [htook.rest, hts], .variable hkeyword hread⟩
  · rcases pure_eq_ok.1 h with ⟨rfl, rfl⟩
    refine ⟨[mark], htook.rest, ?_⟩
    rw [htook.nextId]
    exact .none hmark

theorem moreParameters_sound : ∀ n {before : List Token} {s s' : Input} {params : List Token},
    moreParameters n before s = .ok params s' → s'.errors.length ≤ s.errors.length →
    ∃ ts, s.rest = ts ++ s'.rest ∧ s'.nextId = s.nextId ∧
      Reading.MoreParameters before ts params
  | 0, _, _, _, _, h, _ => by cases h
  | n + 1, before, s, s', params, h, herrors => by
      simp only [moreParameters, bind_eq_ok] at h
      rcases h with ⟨isMore, s₁, hisMore, h⟩
      rcases skip?_inv (by decide) hisMore with ⟨rfl, rfl, -⟩ | ⟨rfl, comma, hcomma, htook⟩
      · rcases pure_eq_ok.1 h with ⟨rfl, rfl⟩
        exact ⟨[], rfl, rfl, .done⟩
      · simp only [if_true, bind_eq_ok] at h
        rcases h with ⟨_, s₂, hexcess, param, s₃, hparam, hmore⟩
        rcases expectName_inv hparam with ⟨hkind, htook'⟩
        have htaken := htook.length_errors
        have htaken' := htook'.length_errors
        have hsteady := (steady_moreParameters n _).errors_le hmore
        -- One parameter too many is a fault, and there is none.
        rcases reportExcess_inv hexcess with hfault | ⟨hcount, rfl⟩
        · omega
        · rcases moreParameters_sound n hmore (by omega) with ⟨ts, hts, hnext, hread⟩
          refine ⟨comma :: param :: ts, by simp [htook.rest, htook'.rest, hts], ?_, ?_⟩
          · rw [hnext, htook'.nextId, htook.nextId]
          · exact .more hcomma hcount hkind hread

theorem parameters_sound {n : Nat} {s s' : Input} {params : List Token}
    (h : parameters n s = .ok params s') (herrors : s'.errors.length ≤ s.errors.length) :
    ∃ ts, s.rest = ts ++ s'.rest ∧ s'.nextId = s.nextId ∧ Reading.Parameters ts params := by
  simp only [parameters, bind_eq_ok] at h
  rcases h with ⟨isEmpty, s₁, hisEmpty, h⟩
  rcases at?_inv hisEmpty with ⟨-, rfl⟩
  -- a closing parenthesis is ahead, or a first parameter is
  split at h
  · rcases pure_eq_ok.1 h with ⟨rfl, rfl⟩
    exact ⟨[], rfl, rfl, .none⟩
  · simp only [bind_eq_ok] at h
    rcases h with ⟨first, s₂, hfirst, hmore⟩
    rcases expectName_inv hfirst with ⟨hkind, htook⟩
    have htaken := htook.length_errors
    rcases moreParameters_sound n hmore (by omega) with ⟨ts, hts, hnext, hread⟩
    refine ⟨first :: ts, by simp [htook.rest, hts], ?_, .some hkind hread⟩
    rw [hnext, htook.nextId]

theorem superclass_sound {s s' : Input} {o : Option Reference} (h : superclass s = .ok o s') :
    s'.errors.length = s.errors.length ∧ Reads Reading.Superclass s o s' := by
  simp only [superclass, bind_eq_ok] at h
  rcases h with ⟨isGiven, s₁, hisGiven, h⟩
  rcases skip?_inv (by decide) hisGiven with ⟨rfl, rfl, -⟩ | ⟨rfl, less, hless, htook⟩
  · rcases pure_eq_ok.1 h with ⟨rfl, rfl⟩
    exact ⟨rfl, [], rfl, .none⟩
  · simp only [if_true, bind_eq_ok, pure_eq_ok] at h
    rcases h with ⟨name, s₂, hname, id, s₃, hfresh, rfl, rfl⟩
    rcases expectName_inv hname with ⟨hkind, htook'⟩
    rcases fresh_inv hfresh with ⟨rfl, hgave⟩
    have htaken := htook.length_errors
    have htaken' := htook'.length_errors
    have hgiven := hgave.length_errors
    refine ⟨by omega, [less, name], by simp [htook.rest, htook'.rest, hgave.rest], ?_⟩
    rw [hgave.nextId, htook'.nextId, htook.nextId]
    exact .some hless hkind

/-! ## Statements -/

/-- A declaration that records no fault has not been recovered from. -/
theorem recovering_inv {α : Type} {p : Parser α} (hp : Steady p) {s s' : Input} {o : Option α}
    (h : recovering p s = .ok o s') (herrors : s'.errors.length ≤ s.errors.length) :
    ∃ a, o = some a ∧ p s = .ok a s' := by
  have hsteady := hp s
  unfold recovering at h
  cases hrun : p s with
  | ok a s₁ =>
      rw [hrun] at h
      cases h
      exact ⟨a, rfl, rfl⟩
  | error e s₁ =>
      rw [hrun] at h hsteady
      cases e with
      | panic =>
          cases h
          -- A panic records a fault, which stays.
          have hmore := hsteady.2
          have hle : s₁.errors.length ≤ s.errors.length := herrors
          omega
      | exhausted => cases h

/-- The tokens passed between two inputs read as a statement that needs no `else` to follow. -/
def ReadsStatement (s : Input) (st : Stmt) (s' : Input) : Prop :=
  ∃ isOpen ts, s.rest = ts ++ s'.rest ∧ Reading.Statement isOpen ts s.nextId st s'.nextId ∧
    (isOpen = true → s'.head.kind ≠ .elseWord)

/-- A statement with an `else` behind it is not open: it would have taken that. -/
theorem ReadsStatement.closed {s s' : Input} {st : Stmt} (h : ReadsStatement s st s')
    (helse : s'.head.kind = .elseWord) : Reads (Reading.Statement false) s st s' := by
  rcases h with ⟨isOpen, ts, hts, hread, hopen⟩
  cases isOpen with
  | false => exact ⟨ts, hts, hread⟩
  | true => exact absurd helse (hopen rfl)

/-- The same, for the tokens behind a keyword. -/
def ReadsBehind (word : Kind) (s : Input) (st : Stmt) (s' : Input) : Prop :=
  ∃ isOpen ts, s.rest = ts ++ s'.rest ∧
    (∀ keyword : Token, keyword.kind = word →
      Reading.Statement isOpen (keyword :: ts) s.nextId st s'.nextId) ∧
    (isOpen = true → s'.head.kind ≠ .elseWord)

/-- With its keyword, what was read behind it is a statement. -/
theorem ReadsBehind.statement {word : Kind} {t : Token} {s s₁ s' : Input} {st : Stmt}
    (h : ReadsBehind word s₁ st s') (hkind : t.kind = word) (htook : s.Took t s₁) :
    ReadsStatement s st s' := by
  rcases h with ⟨isOpen, ts, hts, hread, hopen⟩
  have hread' := hread t hkind
  rw [htook.nextId] at hread'
  exact ⟨isOpen, t :: ts, by simp [htook.rest, hts], hread', hopen⟩

theorem printStatement_sound {n : Nat} {s s' : Input} {st : Stmt}
    (h : printStatement n s = .ok st s') (herrors : s'.errors.length ≤ s.errors.length) :
    ReadsBehind .printWord s st s' := by
  simp only [printStatement, bind_eq_ok, pure_eq_ok] at h
  rcases h with ⟨e, s₁, he, mark, s₂, hmark, rfl, rfl⟩
  rcases expectMark_inv (by decide) hmark with ⟨hmarkKind, htook⟩
  have htaken := htook.length_errors
  rcases expression_sound n he (by omega) with ⟨ts, hts, hread⟩
  refine ⟨false, ts ++ [mark], by simp [hts, htook.rest], fun keyword hkeyword => ?_, by simp⟩
  rw [htook.nextId]
  exact .print hkeyword hread hmarkKind

/-- The tree of a `return` holds the keyword, so this is about the tokens from there on. -/
theorem returnStatement_sound {n : Nat} {keyword : Token} {s s₁ s' : Input} {st : Stmt}
    (hkeyword : keyword.kind = .returnWord) (htook : s.Took keyword s₁)
    (h : returnStatement n keyword s₁ = .ok st s') (herrors : s'.errors.length ≤ s₁.errors.length) :
    ReadsStatement s st s' := by
  simp only [returnStatement, bind_eq_ok, pure_eq_ok] at h
  rcases h with ⟨value, s₂, hvalue, mark, s₃, hmark, rfl, rfl⟩
  rcases expectMark_inv (by decide) hmark with ⟨hmarkKind, htook'⟩
  have htaken := htook'.length_errors
  rcases optionalExpression_sound hvalue (by omega) with ⟨ts, hts, hread⟩
  rw [htook.nextId] at hread
  refine ⟨false, keyword :: ts ++ [mark], by simp [htook.rest, hts, htook'.rest], ?_, by simp⟩
  rw [htook'.nextId]
  exact .returnValue hkeyword hread hmarkKind

mutual

/-- By induction on the bound: without an error, a declaration is made, and it is a reading of the
tokens taken. -/
theorem declaration_sound : ∀ n {s s' : Input} {o : Option Stmt}, declaration n s = .ok o s' →
    s'.errors.length ≤ s.errors.length →
    ∃ st, o = some st ∧ Reads Reading.Declaration s st s'
  | 0, _, _, _, h, _ => by cases h
  | n + 1, s, s', o, h, herrors => by
      rw [declaration_succ] at h
      rcases recovering_inv (steady_declarationBody n) h herrors with ⟨st, rfl, hbody⟩
      refine ⟨st, rfl, ?_⟩
      -- The keywords are looked for one after the other, and the tree is told by the first found.
      simp only [declarationBody, bind_eq_ok] at hbody
      rcases hbody with ⟨isClass, s₁, hisClass, hbody⟩
      rcases skip?_inv (by decide) hisClass with ⟨rfl, rfl, -⟩ | ⟨rfl, keyword, hkeyword, htook⟩
      · simp only [Bool.false_eq_true, if_false, bind_eq_ok] at hbody
        rcases hbody with ⟨isFunction, s₂, hisFunction, hbody⟩
        rcases skip?_inv (by decide) hisFunction with
          ⟨rfl, rfl, -⟩ | ⟨rfl, keyword, hkeyword, htook⟩
        · simp only [Bool.false_eq_true, if_false, bind_eq_ok] at hbody
          rcases hbody with ⟨isVariable, s₃, hisVariable, hbody⟩
          rcases skip?_inv (by decide) hisVariable with
            ⟨rfl, rfl, -⟩ | ⟨rfl, keyword, hkeyword, htook⟩
          · simp only [Bool.false_eq_true, if_false] at hbody
            rcases statement_sound n hbody herrors with ⟨isOpen, ts, hts, hread, -⟩
            exact ⟨ts, hts, .statement hread⟩
          · simp only [if_true] at hbody
            have htaken := htook.length_errors
            rcases varDeclaration_sound hbody (by omega) with ⟨ts, hts, hread⟩
            rw [htook.nextId] at hread
            exact ⟨keyword :: ts, by simp [htook.rest, hts], .variable hkeyword hread⟩
        · simp only [if_true, bind_eq_ok, pure_eq_ok] at hbody
          rcases hbody with ⟨decl, s₃, hdecl, rfl, rfl⟩
          have htaken := htook.length_errors
          rcases function_sound n hdecl (by omega) with ⟨ts, hts, hread⟩
          rw [htook.nextId] at hread
          exact ⟨keyword :: ts, by simp [htook.rest, hts], .function hkeyword hread⟩
      · simp only [if_true] at hbody
        have htaken := htook.length_errors
        rcases classDeclaration_sound n hbody (by omega) with ⟨ts, hts, hread⟩
        have hread' := hread keyword hkeyword
        rw [htook.nextId] at hread'
        exact ⟨keyword :: ts, by simp [htook.rest, hts], hread'⟩

theorem classDeclaration_sound : ∀ n {s s' : Input} {st : Stmt},
    classDeclaration n s = .ok st s' → s'.errors.length ≤ s.errors.length →
    ∃ ts, s.rest = ts ++ s'.rest ∧ ∀ keyword : Token, keyword.kind = .classWord →
      Reading.Declaration (keyword :: ts) s.nextId st s'.nextId
  | 0, _, _, _, h, _ => by cases h
  | n + 1, s, s', st, h, herrors => by
      simp only [classDeclaration, bind_eq_ok, pure_eq_ok] at h
      rcases h with ⟨name, s₁, hname, superclass, s₂, hsuperclass, openBrace, s₃, hopen, methods,
        s₄, hmethods, closeBrace, s₅, hclose, rfl, rfl⟩
      rcases expectName_inv hname with ⟨hnameKind, htook₁⟩
      rcases superclass_sound hsuperclass with ⟨hsame, ts, hts, hread⟩
      rcases expectMark_inv (by decide) hopen with ⟨hopenKind, htook₂⟩
      rcases expectMark_inv (by decide) hclose with ⟨hcloseKind, htook₃⟩
      -- The faults do not become fewer on the way, so the methods add none.
      have htaken₁ := htook₁.length_errors
      have htaken₂ := htook₂.length_errors
      have htaken₃ := htook₃.length_errors
      rcases methods_sound n hmethods (by omega) with ⟨us, hus, hread'⟩
      rw [htook₁.nextId] at hread
      rw [htook₂.nextId] at hread'
      refine ⟨name :: ts ++ openBrace :: us ++ [closeBrace], ?_, ?_⟩
      · simp [htook₁.rest, hts, htook₂.rest, hus, htook₃.rest]
      · intro keyword hkeyword
        rw [htook₃.nextId]
        exact .classDecl hkeyword hnameKind hread hopenKind hread' hcloseKind

theorem methods_sound : ∀ n {s s' : Input} {decls : List FunctionDecl},
    methods n s = .ok decls s' → s'.errors.length ≤ s.errors.length →
    Reads Reading.Methods s decls s'
  | 0, _, _, _, h, _ => by cases h
  | n + 1, s, s', decls, h, herrors => by
      simp only [methods, bind_eq_ok] at h
      rcases h with ⟨isEnd, s₁, hisEnd, h⟩
      rcases atBodyEnd_inv hisEnd with ⟨-, rfl⟩
      split at h
      · rcases pure_eq_ok.1 h with ⟨rfl, rfl⟩
        exact ⟨[], rfl, .nil⟩
      · simp only [bind_eq_ok, pure_eq_ok] at h
        rcases h with ⟨decl, s₂, hdecl, rest, s₃, hrest, rfl, rfl⟩
        have hsteady := (steady_function n .method).errors_le hdecl
        have hsteady' := (steady_methods n).errors_le hrest
        rcases function_sound n hdecl (by omega) with ⟨ts, hts, hread⟩
        rcases methods_sound n hrest (by omega) with ⟨us, hus, hread'⟩
        exact ⟨ts ++ us, by simp [hts, hus], .cons hread hread'⟩

theorem function_sound : ∀ n {callable : Callable} {s s' : Input} {decl : FunctionDecl},
    function n callable s = .ok decl s' → s'.errors.length ≤ s.errors.length →
    Reads Reading.Function s decl s'
  | 0, _, _, _, _, h, _ => by cases h
  | n + 1, callable, s, s', decl, h, herrors => by
      simp only [function, bind_eq_ok, pure_eq_ok] at h
      rcases h with ⟨name, s₁, hname, openParen, s₂, hopenParen, params, s₃, hparams, closeParen,
        s₄, hcloseParen, openBrace, s₅, hopenBrace, body, s₆, hbody, rfl, rfl⟩
      rcases expectName_inv hname with ⟨hnameKind, htook₁⟩
      rcases expectMark_inv (by decide) hopenParen with ⟨hopenParenKind, htook₂⟩
      rcases expectMark_inv (by decide) hcloseParen with ⟨hcloseParenKind, htook₃⟩
      rcases expectMark_inv (by decide) hopenBrace with ⟨hopenBraceKind, htook₄⟩
      -- None of the steps has reported anything, since there is no more at the end than at the
      -- start.
      have htaken₁ := htook₁.length_errors
      have htaken₂ := htook₂.length_errors
      have htaken₃ := htook₃.length_errors
      have htaken₄ := htook₄.length_errors
      have hsteady := (steady_parameters n).errors_le hparams
      have hsteady' := (steady_block n).errors_le hbody
      rcases parameters_sound hparams (by omega) with ⟨ts, hts, hnext, hread⟩
      rcases block_sound n hbody (by omega) with ⟨us, closeBrace, hus, hcloseKind, hread'⟩
      rw [htook₄.nextId, htook₃.nextId, hnext, htook₂.nextId, htook₁.nextId] at hread'
      refine ⟨name :: openParen :: ts ++ closeParen :: openBrace :: us ++ [closeBrace], ?_, ?_⟩
      · simp [htook₁.rest, htook₂.rest, hts, htook₃.rest, htook₄.rest, hus]
      · exact .mk hnameKind hopenParenKind hread hcloseParenKind hopenBraceKind hread' hcloseKind

theorem block_sound : ∀ n {s s' : Input} {body : List Stmt}, block n s = .ok body s' →
    s'.errors.length ≤ s.errors.length →
    ∃ ts closeBrace, s.rest = ts ++ closeBrace :: s'.rest ∧ closeBrace.kind = .rightBrace ∧
      Reading.Declarations ts s.nextId body s'.nextId
  | 0, _, _, _, h, _ => by cases h
  | n + 1, s, s', body, h, herrors => by
      simp only [block, bind_eq_ok] at h
      rcases h with ⟨isEnd, s₁, hisEnd, h⟩
      rcases atBodyEnd_inv hisEnd with ⟨-, rfl⟩
      split at h
      · simp only [bind_eq_ok, pure_eq_ok] at h
        rcases h with ⟨closeBrace, s₂, hclose, rfl, rfl⟩
        rcases expectMark_inv (by decide) hclose with ⟨hkind, htook⟩
        refine ⟨[], closeBrace, htook.rest, hkind, ?_⟩
        rw [htook.nextId]
        exact .nil
      · simp only [bind_eq_ok, pure_eq_ok] at h
        rcases h with ⟨first, s₂, hfirst, rest, s₃, hrest, rfl, rfl⟩
        have hsteady := (steady_declaration n).errors_le hfirst
        have hsteady' := (steady_block n).errors_le hrest
        rcases declaration_sound n hfirst (by omega) with ⟨st, rfl, ts, hts, hread⟩
        rcases block_sound n hrest (by omega) with ⟨us, closeBrace, hus, hkind, hread'⟩
        exact ⟨ts ++ us, closeBrace, by simp [hts, hus], hkind, .cons hread hread'⟩

/-- Each kind of statement is read behind the word it begins with. -/
theorem statement_sound : ∀ n {s s' : Input} {st : Stmt}, statement n s = .ok st s' →
    s'.errors.length ≤ s.errors.length → ReadsStatement s st s'
  | 0, _, _, _, h, _ => by cases h
  | n + 1, s, s', st, h, herrors => by
      rw [statement_run] at h
      have hnext : s'.errors.length ≤ s.next.errors.length := by rwa [s.next_errors]
      -- The keyword ahead has chosen the statement, and is in front of what is read behind it.
      split at h
      · rename_i hkind
        exact (forStatement_sound n h hnext).statement hkind (Input.took_next (by simp [hkind]))
      · rename_i hkind
        exact (ifStatement_sound n h hnext).statement hkind (Input.took_next (by simp [hkind]))
      · rename_i hkind
        exact (printStatement_sound h hnext).statement hkind (Input.took_next (by simp [hkind]))
      · rename_i hkind
        exact returnStatement_sound hkind (Input.took_next (by simp [hkind])) h hnext
      · rename_i hkind
        exact (whileStatement_sound n h hnext).statement hkind (Input.took_next (by simp [hkind]))
      · rename_i hkind
        simp only [bind_eq_ok, pure_eq_ok] at h
        rcases h with ⟨body, s₁, hbody, rfl, rfl⟩
        rcases block_sound n hbody hnext with ⟨ts, closeBrace, hts, hcloseKind, hread⟩
        have hblock : ReadsBehind .leftBrace s.next (.block body) s₁ :=
          ⟨false, ts ++ [closeBrace], by simp [hts],
            fun openBrace hopen => .block hopen hread hcloseKind, by simp⟩
        exact hblock.statement hkind (Input.took_next (by simp [hkind]))
      · rcases expressionStatement_sound h herrors with ⟨ts, hts, hread⟩
        exact ⟨false, ts, hts, .expression hread, by simp⟩

theorem forStatement_sound : ∀ n {s s' : Input} {st : Stmt}, forStatement n s = .ok st s' →
    s'.errors.length ≤ s.errors.length → ReadsBehind .forWord s st s'
  | 0, _, _, _, h, _ => by cases h
  | n + 1, s, s', st, h, herrors => by
      simp only [forStatement, bind_eq_ok] at h
      rcases h with ⟨openParen, s₁, hopen, initializer, s₂, hinitializer, condition, s₃, hcondition,
        mark, s₄, hmark, increment, s₅, hincrement, closeParen, s₆, hclose, body, s₇, hbody, h⟩
      rcases expectMark_inv (by decide) hopen with ⟨hopenKind, htook₁⟩
      rcases expectMark_inv (by decide) hmark with ⟨hmarkKind, htook₂⟩
      rcases expectMark_inv (by decide) hclose with ⟨hcloseKind, htook₃⟩
      have htaken₁ := htook₁.length_errors
      have htaken₂ := htook₂.length_errors
      have htaken₃ := htook₃.length_errors
      have hsteady₁ := (steady_forInitializer n).errors_le hinitializer
      have hsteady₂ := (steady_optionalExpression n _).errors_le hcondition
      have hsteady₃ := (steady_optionalExpression n _).errors_le hincrement
      have hsteady₄ := (steady_statement n).errors_le hbody
      -- A fault in any clause would still be there at the end.
      have hlast : s₇.errors.length ≤ s'.errors.length := by
        cases condition with
        | some e =>
            rcases pure_eq_ok.1 h with ⟨-, rfl⟩
            exact Nat.le_refl _
        | none =>
            simp only [bind_eq_ok, pure_eq_ok] at h
            rcases h with ⟨id, s₈, hfresh, -, rfl⟩
            exact Nat.le_of_eq (fresh_inv hfresh).2.length_errors.symm
      rcases forInitializer_sound hinitializer (by omega) with ⟨ts, hts, hread₁⟩
      rcases optionalExpression_sound hcondition (by omega) with ⟨us, hus, hread₂⟩
      rcases optionalExpression_sound hincrement (by omega) with ⟨vs, hvs, hread₃⟩
      rcases statement_sound n hbody (by omega) with ⟨isOpen, ws, hws, hread₄, hisOpen⟩
      rw [htook₁.nextId] at hread₁
      rw [htook₂.nextId] at hread₃
      rw [htook₃.nextId] at hread₄
      cases condition with
      | some e =>
          rcases pure_eq_ok.1 h with ⟨rfl, rfl⟩
          cases hread₂ with
          | some hread₂ =>
              refine ⟨isOpen, openParen :: ts ++ us ++ mark :: vs ++ closeParen :: ws, ?_, ?_,
                hisOpen⟩
              · simp [htook₁.rest, hts, hus, htook₂.rest, hvs, htook₃.rest, hws]
              · intro keyword hkeyword
                rw [Reading.forLoop_eq]
                exact .forLoop hkeyword hopenKind hread₁ hread₂ hmarkKind hread₃ hcloseKind hread₄
      | none =>
          simp only [bind_eq_ok, pure_eq_ok] at h
          rcases h with ⟨id, s₈, hfresh, rfl, rfl⟩
          rcases fresh_inv hfresh with ⟨rfl, hgave⟩
          rcases hread₂.none_inv with ⟨rfl, hnext⟩
          rw [hnext] at hread₃
          refine ⟨isOpen, openParen :: ts ++ mark :: vs ++ closeParen :: ws, ?_, ?_, ?_⟩
          · simp [htook₁.rest, hts, hus, htook₂.rest, hvs, htook₃.rest, hws, hgave.rest]
          · intro keyword hkeyword
            rw [hgave.nextId, Reading.forLoop_eq]
            exact .forEver hkeyword hopenKind hread₁ hmarkKind hread₃ hcloseKind hread₄
          · simpa [Input.head, hgave.rest] using hisOpen

theorem ifStatement_sound : ∀ n {s s' : Input} {st : Stmt}, ifStatement n s = .ok st s' →
    s'.errors.length ≤ s.errors.length → ReadsBehind .ifWord s st s'
  | 0, _, _, _, h, _ => by cases h
  | n + 1, s, s', st, h, herrors => by
      simp only [ifStatement, bind_eq_ok] at h
      rcases h with ⟨openParen, s₁, hopen, condition, s₂, hcondition, closeParen, s₃, hclose,
        thenBranch, s₄, hthen, hasElse, s₅, hhasElse, h⟩
      rcases expectMark_inv (by decide) hopen with ⟨hopenKind, htook₁⟩
      rcases expectMark_inv (by decide) hclose with ⟨hcloseKind, htook₂⟩
      have htaken₁ := htook₁.length_errors
      have htaken₂ := htook₂.length_errors
      have hsteady₁ := (steady_expression n).errors_le hcondition
      have hsteady₂ := (steady_statement n).errors_le hthen
      rcases skip?_inv (by decide) hhasElse with ⟨rfl, rfl, hhead⟩ | ⟨rfl, elseWord, helse, htook₃⟩
      · rcases pure_eq_ok.1 h with ⟨rfl, rfl⟩
        rcases expression_sound n hcondition (by omega) with ⟨ts, hts, hread₁⟩
        rcases statement_sound n hthen (by omega) with ⟨isOpen, us, hus, hread₂, -⟩
        rw [htook₁.nextId] at hread₁
        rw [htook₂.nextId] at hread₂
        refine ⟨true, openParen :: ts ++ closeParen :: us, ?_, ?_, fun _ => hhead⟩
        · simp [htook₁.rest, hts, htook₂.rest, hus]
        · intro keyword hkeyword
          exact .ifOnly hkeyword hopenKind hread₁ hcloseKind hread₂
      · simp only [if_true, bind_eq_ok, pure_eq_ok] at h
        rcases h with ⟨elseBranch, s₆, helseBranch, rfl, rfl⟩
        have htaken₃ := htook₃.length_errors
        have hsteady₃ := (steady_statement n).errors_le helseBranch
        have hnext : s₄.head.kind = .elseWord := by
          simpa [Input.head, htook₃.rest] using helse
        rcases expression_sound n hcondition (by omega) with ⟨ts, hts, hread₁⟩
        -- The `else` that follows shows that the first branch is closed.
        rcases (statement_sound n hthen (by omega)).closed hnext with ⟨us, hus, hread₂⟩
        rcases statement_sound n helseBranch (by omega) with ⟨isOpen, vs, hvs, hread₃, hisOpen⟩
        rw [htook₁.nextId] at hread₁
        rw [htook₂.nextId] at hread₂
        rw [htook₃.nextId] at hread₃
        refine ⟨isOpen, openParen :: ts ++ closeParen :: us ++ elseWord :: vs, ?_, ?_, hisOpen⟩
        · simp [htook₁.rest, hts, htook₂.rest, hus, htook₃.rest, hvs]
        · intro keyword hkeyword
          exact .ifElse hkeyword hopenKind hread₁ hcloseKind hread₂ helse hread₃

theorem whileStatement_sound : ∀ n {s s' : Input} {st : Stmt}, whileStatement n s = .ok st s' →
    s'.errors.length ≤ s.errors.length → ReadsBehind .whileWord s st s'
  | 0, _, _, _, h, _ => by cases h
  | n + 1, s, s', st, h, herrors => by
      simp only [whileStatement, bind_eq_ok, pure_eq_ok] at h
      rcases h with ⟨openParen, s₁, hopen, condition, s₂, hcondition, closeParen, s₃, hclose,
        body, s₄, hbody, rfl, rfl⟩
      rcases expectMark_inv (by decide) hopen with ⟨hopenKind, htook₁⟩
      rcases expectMark_inv (by decide) hclose with ⟨hcloseKind, htook₂⟩
      -- The faults do not become fewer on the way, so neither part adds one.
      have htaken₁ := htook₁.length_errors
      have htaken₂ := htook₂.length_errors
      have hsteady₁ := (steady_expression n).errors_le hcondition
      have hsteady₂ := (steady_statement n).errors_le hbody
      rcases expression_sound n hcondition (by omega) with ⟨ts, hts, hread₁⟩
      rcases statement_sound n hbody (by omega) with ⟨isOpen, us, hus, hread₂, hisOpen⟩
      rw [htook₁.nextId] at hread₁
      rw [htook₂.nextId] at hread₂
      refine ⟨isOpen, openParen :: ts ++ closeParen :: us, ?_, ?_, hisOpen⟩
      · simp [htook₁.rest, hts, htook₂.rest, hus]
      · intro keyword hkeyword
        exact .whileLoop hkeyword hopenKind hread₁ hcloseKind hread₂

end

/-- Without an error, a program is a reading of all tokens before the end. -/
theorem program_sound : ∀ n {s s' : Input} {ss : List Stmt}, program n s = .ok ss s' →
    s'.errors.length ≤ s.errors.length → Reads Reading.Declarations s ss s'
  | 0, _, _, _, h, _ => by cases h
  | n + 1, s, s', ss, h, herrors => by
      simp only [program, bind_eq_ok] at h
      rcases h with ⟨isEnd, s₁, hisEnd, h⟩
      rcases at?_inv hisEnd with ⟨-, rfl⟩
      split at h
      · rcases pure_eq_ok.1 h with ⟨rfl, rfl⟩
        exact ⟨[], rfl, .nil⟩
      · simp only [bind_eq_ok, pure_eq_ok] at h
        rcases h with ⟨first, s₂, hfirst, rest, s₃, hrest, rfl, rfl⟩
        have hsteady := (steady_declaration n).errors_le hfirst
        have hsteady' := (steady_program n).errors_le hrest
        rcases declaration_sound n hfirst (by omega) with ⟨st, rfl, ts, hts, hread⟩
        rcases program_sound n hrest (by omega) with ⟨us, hus, hread'⟩
        exact ⟨ts ++ us, by simp [hts, hus], .cons hread hread'⟩

end Parser

end LoxLang
