import LoxLang.Proofs.Parsing.Renumbered
import LoxLang.Proofs.Parsing.Sequence

/-!
# Recovery from a faulty statement

A statement without a body is given up on no further than its semicolon, and no earlier: whatever
is wrong in front of the semicolon, what stands behind it reads as it does alone.

* `isPlain` are the kinds of token that neither end nor start a statement, and `opensSimple` are the
  keywords that a statement without a body may start with.
* `Fence.upTo` puts tokens behind a semicolon, with plain tokens in front of it. A statement without
  a body is read up to the semicolon, or panics in front of it (`Fence.Closed`); from there a panic
  drops everything up to the semicolon (`synchronize_plain`).
* `Program.ofTokens_recovers` is the result for programs.
-/

namespace LoxLang

namespace Parser

/-- A kind of token that neither ends nor starts a statement. -/
def isPlain (kind : Kind) : Bool :=
  !(kind == .semicolon || kind == .leftBrace || kind == .rightBrace || kind == .eof ||
    startsStatement kind)

/-- The keywords of the statements that have no statement inside. -/
def opensSimple (kind : Kind) : Bool :=
  kind == .varWord || kind == .printWord || kind == .returnWord

/-! ## Up to a semicolon -/

section UpTo

variable {plain : List Token} {mark : Token}

/-- What is left in front of the semicolon. -/
theorem eq_nil_of_suffix_semicolon (hplain : ∀ t ∈ plain, isPlain t.kind = true) {t : Token}
    {ts : List Token} (h : t :: ts <:+ plain ++ [mark]) (ht : t.kind = .semicolon) : ts = [] := by
  rcases h with ⟨us, hus⟩
  rcases List.eq_nil_or_concat ts with rfl | ⟨vs, v, rfl⟩
  · rfl
  · have hcut : us ++ t :: vs = plain := by
      rw [List.concat_eq_append, ← List.cons_append, ← List.append_assoc] at hus
      exact (List.append_inj' hus rfl).1
    have hkind := hplain t (hcut ▸ by simp)
    simp [isPlain, ht] at hkind

/-- A token that is not the semicolon has something behind it, the semicolon at least. -/
theorem ne_nil_of_suffix {t : Token} {ts : List Token} (h : t :: ts <:+ plain ++ [mark])
    (hmark : mark.kind = .semicolon) (ht : t.kind ≠ .semicolon) : ts ≠ [] := by
  rintro rfl
  rcases h with ⟨us, hus⟩
  have heq : t = mark := List.singleton_inj.1 (List.append_inj' hus rfl).2
  exact ht (heq ▸ hmark)

/-- Some tokens up to a semicolon are ahead, and others are behind it. -/
def Fence.upTo (plain : List Token) (mark : Token) (hmark : mark.kind = .semicolon)
    (behind : List Token) : Fence where
  behind := behind
  Ahead ts := ts ≠ [] ∧ ts <:+ plain ++ [mark]
  Fault e := ∃ fault, ∃ t ∈ plain ++ [mark], e = .atToken (.parse fault) t
  headD_append := by
    rintro (_ | ⟨t, ts⟩) _ ⟨hne, -⟩
    · exact absurd rfl hne
    · rfl
  fault := by
    rintro (_ | ⟨t, ts⟩) ⟨hne, hsuffix⟩ fault
    · exact absurd rfl hne
    · exact ⟨fault, t, hsuffix.mem (by simp), rfl⟩
  tail := by
    rintro (_ | ⟨t, ts⟩) ⟨hne, hsuffix⟩ hhead
    · exact absurd rfl hne
    · exact ⟨ne_nil_of_suffix hsuffix hmark hhead, (List.suffix_cons t ts).trans hsuffix⟩

/-- Between the fault and the semicolon nothing begins a statement or a block. -/
theorem kind_of_mem_plain (hplain : ∀ t ∈ plain, isPlain t.kind = true)
    (hmark : mark.kind = .semicolon) {t : Token} (ht : t ∈ plain ++ [mark]) :
    t.kind ≠ .eof ∧ t.kind ≠ .leftBrace ∧ startsStatement t.kind = false := by
  rcases List.mem_append.1 ht with hmem | hmem
  · have hkind := hplain t hmem
    simp only [isPlain, Bool.not_eq_true', Bool.or_eq_false_iff, beq_eq_false_iff_ne] at hkind
    exact ⟨hkind.1.2, hkind.1.1.1.2, hkind.2⟩
  · rw [List.mem_singleton.1 hmem, hmark]
    exact ⟨by decide, by decide, rfl⟩

/-- Skipping goes on up to the semicolon, and stops behind it. -/
theorem dropStatement_plain (hplain : ∀ t ∈ plain, isPlain t.kind = true)
    (hmark : mark.kind = .semicolon) (us : List Token) {ts : List Token} {previous : Token}
    (h : previous :: ts <:+ plain ++ [mark]) : dropStatement previous (ts ++ us) = us := by
  induction ts generalizing previous with
  | nil =>
      -- Only the semicolon itself has nothing behind it.
      have hprevious : previous.kind = .semicolon :=
        Decidable.byContradiction fun hne => ne_nil_of_suffix h hmark hne rfl
      cases us with
      | nil => rfl
      | cons u us => simp [dropStatement, hprevious]
  | cons t ts ih =>
      have hsuffix := (List.suffix_cons previous (t :: ts)).trans h
      have hprevious : previous.kind ≠ .semicolon := fun hkind =>
        absurd (eq_nil_of_suffix_semicolon hplain h hkind) (List.cons_ne_nil t ts)
      have ht := kind_of_mem_plain hplain hmark (hsuffix.mem (List.mem_cons_self ..))
      rw [List.cons_append, dropStatement]
      simp only [ht, hprevious, beq_iff_eq, or_false, Bool.or_eq_true, if_false,
        Bool.false_eq_true]
      exact ih hsuffix

/-- A panic in front of the semicolon, or at it, drops exactly what is left up to it. -/
theorem synchronize_plain (hplain : ∀ t ∈ plain, isPlain t.kind = true)
    (hmark : mark.kind = .semicolon) (us : List Token) {ts : List Token} (hne : ts ≠ [])
    (h : ts <:+ plain ++ [mark]) : synchronize (ts ++ us) = us := by
  cases ts with
  | nil => exact absurd rfl hne
  | cons t ts =>
      have ht := kind_of_mem_plain hplain hmark (h.mem (List.mem_cons_self ..))
      rw [List.cons_append, synchronize]
      simp only [ht, beq_iff_eq, if_false]
      exact dropStatement_plain hplain hmark us h

/-! ## Statements without a body -/

/-- What a statement ends in without the tokens behind the semicolon, and with them: it is read up
to the semicolon, or it panics in front of it or at it. -/
def Fence.Closed {α : Type} (F : Fence) (faults : List StaticError) :
    EStateM.Result Stop Input α → EStateM.Result Stop Input α → Prop
  | .ok a s, result =>
    s.rest = [] ∧ (∀ e ∈ s.errors, F.Fault e) ∧ result = .ok a (F.put faults s)
  | .error .panic s, result => F.Holds s ∧ result = .error .panic (F.put faults s)
  | .error .exhausted _, _ => True

/-- In front of a fence and after `faults`, `p'` reads up to the semicolon what `p` reads. -/
def Closes {α : Type} (F : Fence) (faults : List StaticError) (p p' : Parser α) : Prop :=
  ∀ s : Input, F.Holds s → F.Closed faults (p s) (p' (F.put faults s))

/-- A production that stays inside the fence may be followed by one that closes it. -/
theorem Fenced.bind_closes {α β : Type} {F : Fence} {faults : List StaticError}
    {x x' : Parser α} {f f' : α → Parser β} (hx : Fenced F faults x x')
    (hf : ∀ a, Closes F faults (f a) (f' a)) : Closes F faults (x >>= f) (x' >>= f') := by
  intro s hs
  have hfirst := hx s hs
  unfold FencedAt at hfirst
  rw [bind_run, bind_run]
  cases hrun : x s with
  | ok a s' =>
      rw [hrun] at hfirst
      rw [hfirst.2]
      exact hf a s' hfirst.1
  | error reason s' =>
      rw [hrun] at hfirst
      cases reason with
      | panic =>
          rw [hfirst.2]
          exact ⟨hfirst.1, rfl⟩
      | exhausted => trivial

variable (hplain : ∀ t ∈ plain, isPlain t.kind = true) (hmark : mark.kind = .semicolon)
  (us : List Token) (faults : List StaticError) {n m : Nat} (hle : n ≤ m)

include hplain in
/-- A statement ends with the semicolon, which is the last token inside. -/
theorem closes_mark {α : Type} (place : MarkPlace) (a : α) :
    Closes (.upTo plain mark hmark us) faults
      (do let _ ← expectMark .semicolon place; return a)
      (do let _ ← expectMark .semicolon place; return a) := by
  intro s hs
  unfold expectMark
  rw [bind_run, bind_run, expect_run, expect_run, Fence.put_report, hs.head]
  by_cases hhead : s.head.kind = .semicolon
  · rw [if_pos hhead, if_pos hhead, hs.put_next]
    have hrest := s.rest_eq_cons (by simp [hhead])
    refine ⟨?_, by simpa using hs.fault, rfl⟩
    exact eq_nil_of_suffix_semicolon hplain (hrest ▸ hs.ahead.2) hhead
  · rw [if_neg hhead, if_neg hhead]
    exact ⟨hs.report (Fence.fault _ hs.ahead _), rfl⟩

include hplain hle

theorem closes_expressionStatement : Closes (.upTo plain mark hmark us) faults
    (expressionStatement n) (expressionStatement m) :=
  (fenced_expression hle).bind_closes fun _ => closes_mark hplain hmark us faults _ _

theorem closes_printStatement : Closes (.upTo plain mark hmark us) faults
    (printStatement n) (printStatement m) :=
  (fenced_expression hle).bind_closes fun _ => closes_mark hplain hmark us faults _ _

theorem closes_returnStatement (keyword : Token) : Closes (.upTo plain mark hmark us) faults
    (returnStatement n keyword) (returnStatement m keyword) :=
  (fenced_optionalExpression hle _).bind_closes fun _ => closes_mark hplain hmark us faults _ _

theorem closes_varDeclaration : Closes (.upTo plain mark hmark us) faults
    (varDeclaration n) (varDeclaration m) := by
  refine (Fenced.expectName _).bind_closes fun name => ?_
  refine (fenced_initializer hle).bind_closes fun initializer => ?_
  exact closes_mark hplain hmark us faults _ _

end UpTo

/-! ## Which statement it is -/

section Kinds

variable (n : Nat) {t : Token} {ts : List Token} {i : NodeId} {errors : List StaticError}

theorem declarationBody_var (h : t.kind = .varWord) :
    declarationBody n ⟨t :: ts, i, errors⟩ = varDeclaration n ⟨ts, i, errors⟩ := by
  simp [declarationBody, bind_run, skip?_run, h, Input.next]

/-- A declaration that begins with none of the three words is a statement. -/
theorem declarationBody_statement (hclass : t.kind ≠ .classWord) (hfun : t.kind ≠ .funWord)
    (hvar : t.kind ≠ .varWord) :
    declarationBody n ⟨t :: ts, i, errors⟩ = statement n ⟨t :: ts, i, errors⟩ := by
  simp [declarationBody, bind_run, skip?_run, hclass, hfun, hvar]

theorem statement_print (h : t.kind = .printWord) :
    statement (n + 1) ⟨t :: ts, i, errors⟩ = printStatement n ⟨ts, i, errors⟩ := by
  simp [statement_run, Input.next, h]

theorem statement_return (h : t.kind = .returnWord) :
    statement (n + 1) ⟨t :: ts, i, errors⟩ = returnStatement n t ⟨ts, i, errors⟩ := by
  simp [statement_run, Input.next, h]

/-- A statement that begins with no word of its own is an expression. -/
theorem statement_expression (hstarts : startsStatement t.kind = false)
    (hbrace : t.kind ≠ .leftBrace) :
    statement (n + 1) ⟨t :: ts, i, errors⟩ = expressionStatement n ⟨t :: ts, i, errors⟩ := by
  rw [statement, bind_run, current_run]
  refine congrFun (?_ : _ = expressionStatement n) _
  split <;> simp_all [startsStatement]

end Kinds

section Part

variable {plain : List Token} {mark : Token} (hplain : ∀ t ∈ plain, isPlain t.kind = true)
  (hmark : mark.kind = .semicolon) (us : List Token) (faults : List StaticError) (i : NodeId)

/-- The tokens up to the semicolon are inside the fence. -/
theorem holds_upTo : (Fence.upTo plain mark hmark us).Holds ⟨plain ++ [mark], i, []⟩ := by
  have hne : plain ++ [mark] ≠ [] := List.append_ne_nil_of_right_ne_nil _ (List.cons_ne_nil _ _)
  exact ⟨⟨hne, List.suffix_rfl⟩, fun _ he => absurd he List.not_mem_nil⟩

/-- To put the rest of the program behind the fence is to have it there. -/
theorem put_upTo : (Fence.upTo plain mark hmark us).put faults ⟨plain ++ [mark], i, []⟩ =
    ⟨plain ++ [mark] ++ us, i, faults⟩ := by
  simp only [Fence.put, Fence.upTo, List.append_nil]

/-- A statement that its first token settles, where what stands behind that token is closed. -/
theorem closed_declarationBody_statement {n m : Nat} (hle : n ≤ m) {t : Token}
    (hclass : t.kind ≠ .classWord) (hfun : t.kind ≠ .funWord) (hvar : t.kind ≠ .varWord)
    {p : Nat → Parser Stmt}
    (hrun : ∀ n ts errors, statement (n + 1) ⟨t :: ts, i, errors⟩ = p n ⟨ts, i, errors⟩)
    (hcloses : ∀ {n m : Nat}, n ≤ m → Closes (.upTo plain mark hmark us) faults (p n) (p m)) :
    (Fence.upTo plain mark hmark us).Closed faults
      (declarationBody n ⟨t :: (plain ++ [mark]), i, []⟩)
      (declarationBody m ⟨t :: (plain ++ [mark] ++ us), i, faults⟩) := by
  rw [declarationBody_statement n hclass hfun hvar, declarationBody_statement m hclass hfun hvar]
  cases n with
  | zero => trivial
  | succ n =>
      rcases Nat.exists_eq_add_of_lt hle with ⟨k, rfl⟩
      rw [hrun, hrun, ← put_upTo hmark us faults i]
      exact hcloses (Nat.le_add_right n k) _ (holds_upTo hmark us i)

include hplain

/-- A simple statement ends at the semicolon, with or without a fault. -/
theorem closed_declarationBody_keyword {n m : Nat} (hle : n ≤ m) {t : Token}
    (ht : opensSimple t.kind = true) :
    (Fence.upTo plain mark hmark us).Closed faults
      (declarationBody n ⟨t :: (plain ++ [mark]), i, []⟩)
      (declarationBody m ⟨t :: (plain ++ [mark] ++ us), i, faults⟩) := by
  have hkind : t.kind = .varWord ∨ t.kind = .printWord ∨ t.kind = .returnWord := by
    simpa [opensSimple, or_assoc] using ht
  rcases hkind with hvar | hprint | hreturn
  · rw [declarationBody_var n hvar, declarationBody_var m hvar, ← put_upTo hmark us faults i]
    exact closes_varDeclaration hplain hmark us faults hle _ (holds_upTo hmark us i)
  · exact closed_declarationBody_statement hmark us faults i hle (by simp [hprint])
      (by simp [hprint]) (by simp [hprint]) (fun n _ _ => statement_print n hprint)
      (closes_printStatement hplain hmark us faults)
  · exact closed_declarationBody_statement hmark us faults i hle (by simp [hreturn])
      (by simp [hreturn]) (by simp [hreturn]) (fun n _ _ => statement_return n hreturn)
      fun hle => closes_returnStatement hplain hmark us faults hle t

/-- An expression ends at the semicolon, with or without a fault. -/
theorem closed_declarationBody_plain {n m : Nat} (hle : n ≤ m) :
    (Fence.upTo plain mark hmark us).Closed faults
      (declarationBody n ⟨plain ++ [mark], i, []⟩)
      (declarationBody m ⟨plain ++ [mark] ++ us, i, faults⟩) := by
  have hne : plain ++ [mark] ≠ [] := (holds_upTo hmark us i).ahead.1
  rcases List.exists_cons_of_ne_nil hne with ⟨t, ts, hts⟩
  have ht := kind_of_mem_plain hplain hmark (t := t) (hts ▸ List.mem_cons_self ..)
  -- no word of a declaration is ahead, so it is a statement
  have hstatement : ∀ (k : Nat) {ts : List Token} {errors : List StaticError},
      declarationBody k ⟨t :: ts, i, errors⟩ = statement k ⟨t :: ts, i, errors⟩ := by
    intro k ts errors
    refine declarationBody_statement k ?_ ?_ ?_ <;>
      exact fun h => absurd ht.2.2 (by simp [h, startsStatement])
  cases n with
  | zero =>
      simp only [hts, hstatement]
      trivial
  | succ n =>
      -- and no word of a statement, so it is an expression up to the semicolon
      rcases Nat.exists_eq_add_of_lt hle with ⟨k, rfl⟩
      have hclosed := closes_expressionStatement hplain hmark us faults
        (Nat.le_add_right n k) _ (holds_upTo hmark us i)
      rw [put_upTo] at hclosed
      simp only [hts, List.cons_append] at hclosed ⊢
      rw [hstatement, hstatement, statement_expression n ht.2.2 ht.2.1,
        statement_expression _ ht.2.2 ht.2.1]
      exact hclosed

include hmark

/-- What the tokens up to the semicolon are read as, whatever stands behind them: a statement or
nothing, a next number and faults. -/
theorem declaration_upTo {n m : Nat} (hle : n ≤ m) {keyword : Option Token}
    (hkeyword : ∀ t ∈ keyword, opensSimple t.kind = true) {Q : Option Stmt → Input → Prop}
    (hfinish : Finishes (declaration n) ⟨keyword.toList ++ (plain ++ [mark]), i, []⟩ Q) :
    ∃ (first : Option Stmt) (j : NodeId) (found : List StaticError),
      declaration n ⟨keyword.toList ++ (plain ++ [mark]), i, []⟩ = .ok first ⟨[], j, found⟩ ∧
      declaration m ⟨keyword.toList ++ (plain ++ [mark] ++ us), i, faults⟩ =
        .ok first ⟨us, j, faults ++ found⟩ ∧
      (∀ e ∈ found, ∃ fault, ∃ t ∈ plain ++ [mark], e = .atToken (.parse fault) t) ∧
      (first = none → found ≠ []) := by
  cases n with
  | zero => exact hfinish.elim
  | succ n =>
      rcases Nat.exists_eq_add_of_lt hle with ⟨k, rfl⟩
      have hle := Nat.le_add_right n k
      have hclosed : (Fence.upTo plain mark hmark us).Closed faults
          (declarationBody n ⟨keyword.toList ++ (plain ++ [mark]), i, []⟩)
          (declarationBody (n + k) ⟨keyword.toList ++ (plain ++ [mark] ++ us), i, faults⟩) := by
        cases keyword with
        | none => exact closed_declarationBody_plain hplain hmark us faults i hle
        | some t => exact closed_declarationBody_keyword hplain hmark us faults i hle (hkeyword t rfl)
      have hsteady := steady_declarationBody n ⟨keyword.toList ++ (plain ++ [mark]), i, []⟩
      unfold Finishes at hfinish
      rw [declaration_succ] at hfinish ⊢
      rw [declaration_succ]
      unfold recovering at *
      cases hrun : declarationBody n ⟨keyword.toList ++ (plain ++ [mark]), i, []⟩ with
      | ok s t =>
          rw [hrun] at hclosed
          rcases t with ⟨rest, j, found⟩
          rcases hclosed with ⟨hrest, hfound, hbehind⟩
          cases hrest
          rw [hbehind]
          exact ⟨some s, j, found, rfl, rfl, hfound, fun h => absurd h (Option.some_ne_none s)⟩
      | error reason t =>
          rw [hrun] at hclosed hsteady hfinish
          cases reason with
          | exhausted => exact hfinish.elim
          | panic =>
              rcases t with ⟨rest, j, found⟩
              rcases hclosed with ⟨⟨⟨hne, hsuffix⟩, hfound⟩, hbehind⟩
              -- The panic came in front of the semicolon or at it, so all up to it is dropped.
              have hdrop := fun us => synchronize_plain hplain hmark us hne hsuffix
              rw [hbehind]
              refine ⟨none, j, found, ?_, ?_, hfound, fun _ => List.ne_nil_of_length_pos hsteady.2⟩
              · have hnone := hdrop []
                rw [List.append_nil] at hnone
                simp [hnone]
              · simp [Fence.put, Fence.upTo, hdrop]

theorem ahead_upTo_ne {keyword : Option Token}
    (hkeyword : ∀ t ∈ keyword, opensSimple t.kind = true) :
    ahead (keyword.toList ++ (plain ++ [mark]) ++ us) ≠ .eof := by
  cases keyword with
  | none =>
      cases plain with
      | nil => simp [hmark]
      | cons t ts => exact (kind_of_mem_plain hplain hmark (List.mem_cons_self ..)).1
  | some t =>
      intro heof
      have ht := hkeyword t rfl
      rw [show t.kind = .eof from heof] at ht
      cases ht

/-- The outcome is one for all that may stand behind, and for all bounds that suffice for the tokens
up to the semicolon. -/
theorem exists_declaration_upTo {keyword : Option Token}
    (hkeyword : ∀ t ∈ keyword, opensSimple t.kind = true) :
    let part := keyword.toList ++ (plain ++ [mark])
    ∃ (first : Option Stmt) (j : NodeId) (found : List StaticError),
      i ≤ j ∧
      (∀ (us : List Token) (m : Nat), 20 * part.length + 12 ≤ m →
        declaration m ⟨part ++ us, i, []⟩ = .ok first ⟨us, j, found⟩) ∧
      (∀ e ∈ found, ∃ fault, ∃ t ∈ plain ++ [mark], e = .atToken (.parse fault) t) ∧
      (first = none → found ≠ []) := by
  intro part
  have hhead : ahead part ≠ .eof := by
    rw [← List.append_nil part]
    exact ahead_upTo_ne hplain hmark [] hkeyword
  have hfinish := passes_declaration (20 * part.length + 12) ⟨part, i, []⟩ (Nat.le_refl _) hhead
  have hsteady := steady_declaration (20 * part.length + 12) ⟨part, i, []⟩
  rcases declaration_upTo hplain hmark [] [] i (Nat.le_refl _) hkeyword hfinish with
    ⟨first, j, found, hrun, -, hfound, hnone⟩
  rw [show declaration _ ⟨part, i, []⟩ = _ from hrun] at hsteady
  refine ⟨first, j, found, hsteady.nextId, fun us m hle => ?_, hfound, hnone⟩
  rcases declaration_upTo hplain hmark us [] i hle hkeyword hfinish with
    ⟨first', j', found', hrun', hbehind, -⟩
  -- Without anything behind, the declaration has one outcome only.
  cases hrun.symm.trans hrun'
  rwa [← List.append_assoc, List.nil_append] at hbehind

end Part

end Parser

/-! ## Whole programs -/

namespace Program

open LoxLang.Parser

/-- What stands behind the semicolon reads as it does alone, and what stands in front of it reads in
the same way whatever is behind. -/
theorem ofTokens_upTo {keyword : Option Token} {plain : List Token} {mark : Token}
    (hkeyword : ∀ t ∈ keyword, opensSimple t.kind = true)
    (hplain : ∀ t ∈ plain, isPlain t.kind = true) (hmark : mark.kind = .semicolon)
    (firstId : NodeId) :
    ∃ (first : Option Stmt) (j : NodeId) (found : List StaticError),
      firstId ≤ j ∧
      (∀ us : List Token, ofTokens (keyword.toList ++ plain ++ [mark] ++ us) firstId =
        ⟨first.toList ++ (ofTokens us j).statements, found ++ (ofTokens us j).errors,
          (ofTokens us j).nextId⟩) ∧
      (∀ e ∈ found, ∃ fault, ∃ t ∈ plain ++ [mark], e = .atToken (.parse fault) t) ∧
      (first = none → found ≠ []) := by
  rcases exists_declaration_upTo hplain hmark firstId hkeyword with
    ⟨first, j, found, hle, hdeclaration, hfound, hnone⟩
  refine ⟨first, j, found, hle, fun us => ?_, hfound, hnone⟩
  let part := keyword.toList ++ (plain ++ [mark])
  -- One more than this is the bound for the whole, and it suffices for either part.
  let bound := 20 * (part.length + us.length) + 19
  have hbound : depthBound (part ++ us) = bound + 1 := by
    simp only [depthBound, List.length_append, bound]
    omega
  have hrun : declaration bound ⟨part ++ us, firstId, []⟩ = .ok first ⟨us, j, found⟩ :=
    hdeclaration us bound (by simp only [bound, part]; omega)
  have hrest : Finishes (program bound) ⟨us, j, found⟩ fun _ _ => True :=
    (finishes_program _ ⟨us, j, found⟩ (by simp only [bound]; omega)).mono fun _ _ _ => trivial
  rcases program_eq_ofTokens hrest with ⟨rest, hprogram⟩
  have hhead : (⟨part ++ us, firstId, []⟩ : Input).head.kind ≠ .eof :=
    ahead_upTo_ne hplain hmark us hkeyword
  rw [List.append_assoc keyword.toList, ofTokens, hbound, program_succ _ hhead, bind_run, hrun]
  dsimp only
  rw [map_run, hprogram]

/-- A faulty statement without a body spoils nothing behind its semicolon. The tokens up to the
semicolon may be anything but braces and keywords that start a statement, except for the one in
front. They read as at most one statement, and as none only if they are faulty; their faults are
found in them. What follows reads as it does alone, with later numbers. -/
theorem ofTokens_recovers {keyword : Option Token} {plain rest : List Token} {mark eof : Token}
    (hkeyword : ∀ t ∈ keyword, opensSimple t.kind = true)
    (hplain : ∀ t ∈ plain, isPlain t.kind = true) (hmark : mark.kind = .semicolon)
    (heof : eof.kind = .eof) (firstId : NodeId) :
    let part := keyword.toList ++ plain ++ [mark]
    let first := ofTokens (part ++ [eof]) firstId
    let alone := ofTokens (rest ++ [eof]) firstId
    let used := first.nextId - firstId
    ofTokens (part ++ rest ++ [eof]) firstId =
        ⟨first.statements ++ Stmt.renumberAll (· + used) alone.statements,
          first.errors ++ alone.errors, alone.nextId + used⟩ ∧
      first.statements.length ≤ 1 ∧
      (∀ e ∈ first.errors, ∃ fault, ∃ t ∈ part, e = .atToken (.parse fault) t) ∧
      (first.statements = [] → first.errors ≠ []) := by
  intro part first alone used
  rcases ofTokens_upTo hkeyword hplain hmark firstId with
    ⟨statement, j, found, hle, hread, hfound, hnone⟩
  have hend : ofTokens [eof] j = ⟨[], [], j⟩ :=
    (ofTokens_eq_iff_reading heof (List.forall_mem_nil _)).2 .nil
  have hfirst : first = ⟨statement.toList, found, j⟩ := by
    rw [show first = _ from hread [eof], hend, List.append_nil, List.append_nil]
  -- What follows is numbered from `j` on, and alone it would be numbered from `firstId` on.
  have hused : firstId + used = j := by
    rw [show used = j - firstId by rw [← show first.nextId = j by rw [hfirst]]]
    exact Nat.add_sub_of_le hle
  refine ⟨?_, ?_, ?_, ?_⟩
  · have hrest := hread (rest ++ [eof])
    rw [← hused, ofTokens_add] at hrest
    rw [List.append_assoc, hrest, hfirst]
  · rw [hfirst]
    cases statement <;> simp
  · intro e he
    rcases hfound e (by rw [hfirst] at he; exact he) with ⟨fault, t, ht, hat⟩
    exact ⟨fault, t, by simpa [part] using Or.inr (by simpa using ht), hat⟩
  · rw [hfirst]
    intro hstatement
    exact hnone (by simpa using hstatement)

/-- The hypotheses hold of `print nil nil;`, which is faulty, in front of `print nil;`. -/
theorem ofTokens_recovers_print :
    let print : Token := ⟨.printWord, "print", .nil, 1, 1⟩
    let word : Token := ⟨.nilWord, "nil", .nil, 1, 7⟩
    let mark : Token := ⟨.semicolon, ";", .nil, 1, 14⟩
    let eof := Token.endOfInput 2 1
    let first := ofTokens ([print, word, word, mark] ++ [eof]) 0
    let alone := ofTokens ([print, word, mark] ++ [eof]) 0
    first.statements = [] ∧ first.errors ≠ [] ∧ alone.statements ≠ [] ∧
      ofTokens ([print, word, word, mark] ++ [print, word, mark] ++ [eof]) 0 =
        ⟨first.statements ++ Stmt.renumberAll (· + (first.nextId - 0)) alone.statements,
          first.errors ++ alone.errors, alone.nextId + (first.nextId - 0)⟩ := by
  intro print word mark eof
  -- the second `nil` is the fault, and the semicolon ends the recovery
  have hkeyword : ∀ t ∈ some print, opensSimple t.kind = true := by decide
  have hplain : ∀ t ∈ [word, word], isPlain t.kind = true := by decide
  exact ⟨by decide, by decide, by decide, (ofTokens_recovers hkeyword hplain rfl rfl 0).1⟩

end Program

end LoxLang
