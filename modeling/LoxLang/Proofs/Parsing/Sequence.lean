import LoxLang.Proofs.Grammar.Exact
import LoxLang.Proofs.Parsing.Fence

/-!
# Programs in sequence

A program without faults reads in front of other tokens as it reads alone, and what stands behind it
reads as it does alone, even if that is faulty.

* `Repeats faults p p'`: after `faults`, `p'` does what `p` does, unless `p` uses up its bound. It
  is the case of `Fenced` in which nothing is put behind. Statements are followed through it, since
  they may pass semicolons.
* `program_agree` says that all bounds that are not used up give the same reading.
* `Program.ofTokens_append` is the result for two programs.
-/

namespace LoxLang

namespace Parser

variable {α β : Type} {faults : List StaticError}

/-! ## The same tokens after other faults -/

/-- Nothing is put behind, and whatever is ahead may be met. -/
def Fence.nothing : Fence where
  behind := []
  Ahead _ := True
  Fault _ := True
  headD_append _ := by rw [List.append_nil]
  fault _ _ := trivial
  tail _ _ := trivial

theorem Fence.nothing_passes (kind : Kind) : Fence.nothing.Passes kind := fun _ _ _ => trivial

theorem Fence.nothing_holds (s : Input) : Fence.nothing.Holds s := ⟨trivial, fun _ _ => trivial⟩

theorem Fence.nothing_put (s : Input) :
    Fence.nothing.put faults s = { s with errors := faults ++ s.errors } := by
  unfold Fence.put Fence.nothing
  rw [List.append_nil]

/-- After `faults`, `p'` does what `p` does. -/
abbrev Repeats (faults : List StaticError) (p p' : Parser α) : Prop :=
  Fenced .nothing faults p p'

namespace Repeats

theorem advance : Repeats faults advance advance := fun s hs =>
  Fenced.advance_at hs (Fence.nothing_passes s.head.kind)

theorem skip? (kind : Kind) : Repeats faults (skip? kind) (skip? kind) :=
  Fenced.skip? (Fence.nothing_passes kind)

theorem expectMark (mark : Kind) (place : MarkPlace) :
    Repeats faults (expectMark mark place) (expectMark mark place) :=
  Fenced.expectMark (Fence.nothing_passes mark) place

/-- Both recover at the same token, or neither has to. -/
theorem recovering {p p' : Parser α} (hp : Repeats faults p p') :
    Repeats faults (recovering p) (recovering p') := by
  intro s hs
  have hrun := hp s hs
  unfold FencedAt Parser.recovering at *
  cases h : p s with
  | ok a s' =>
      rw [h] at hrun
      rw [hrun.2]
      exact ⟨hrun.1, rfl⟩
  | error reason s' =>
      rw [h] at hrun
      cases reason with
      | panic =>
          rw [hrun.2]
          refine ⟨Fence.nothing_holds _, ?_⟩
          simp only [Fence.nothing_put]
      | exhausted => trivial

/-- What ends in a value ends in it again. -/
theorem run_eq {p p' : Parser α} (h : Repeats faults p p') {s s' : Input} {a : α}
    (hrun : p s = .ok a s') :
    p' { s with errors := faults ++ s.errors } =
      .ok a { s' with errors := faults ++ s'.errors } := by
  have hagree := h s (Fence.nothing_holds s)
  rw [FencedAt, hrun, Fence.nothing_put] at hagree
  rw [hagree.2, Fence.nothing_put]

end Repeats

/-! ## Statements after other faults -/

theorem repeats_expressionStatement {n m : Nat} (hle : n ≤ m) :
    Repeats faults (expressionStatement n) (expressionStatement m) := by
  refine (fenced_expression hle).bind fun e => ?_
  exact (Repeats.expectMark _ _).bind fun _ => .pure _

theorem repeats_printStatement {n m : Nat} (hle : n ≤ m) :
    Repeats faults (printStatement n) (printStatement m) := by
  refine (fenced_expression hle).bind fun e => ?_
  exact (Repeats.expectMark _ _).bind fun _ => .pure _

theorem repeats_returnStatement {n m : Nat} (hle : n ≤ m) (keyword : Token) :
    Repeats faults (returnStatement n keyword) (returnStatement m keyword) := by
  refine (fenced_optionalExpression hle _).bind fun value => ?_
  exact (Repeats.expectMark _ _).bind fun _ => .pure _

theorem repeats_varDeclaration {n m : Nat} (hle : n ≤ m) :
    Repeats faults (varDeclaration n) (varDeclaration m) := by
  refine (Fenced.expectName _).bind fun name => ?_
  refine (fenced_initializer hle).bind fun value => ?_
  exact (Repeats.expectMark _ _).bind fun _ => .pure _

theorem repeats_moreParameters : ∀ {n m : Nat}, n ≤ m → ∀ params : List Token,
    Repeats faults (moreParameters n params) (moreParameters m params)
  | 0, _, _, _ => .exhausted
  | n + 1, m + 1, hle, params => by
      have hle := Nat.le_of_succ_le_succ hle
      unfold moreParameters
      refine (Repeats.skip? _).bind fun isMore => ?_
      split
      · refine (Fenced.reportExcess _ _).bind fun _ => ?_
        exact (Fenced.expectName _).bind fun param => repeats_moreParameters hle _
      · exact .pure params

theorem repeats_parameters {n m : Nat} (hle : n ≤ m) :
    Repeats faults (parameters n) (parameters m) := by
  refine (Fenced.at? _).bind fun isEmpty => ?_
  split
  · exact .pure []
  · exact (Fenced.expectName _).bind fun first => repeats_moreParameters hle [first]

theorem repeats_forInitializer {n m : Nat} (hle : n ≤ m) :
    Repeats faults (forInitializer n) (forInitializer m) := by
  refine (Repeats.skip? _).bind fun isMissing => ?_
  split
  · exact .pure none
  · refine (Repeats.skip? _).bind fun isVariable => ?_
    split
    · exact (repeats_varDeclaration hle).map some
    · exact (repeats_expressionStatement hle).map some

theorem repeats_superclass : Repeats faults superclass superclass := by
  refine (Repeats.skip? _).bind fun isGiven => ?_
  split
  · exact (Fenced.expectName _).bind fun name => Fenced.fresh.bind fun id => .pure _
  · exact .pure none

mutual

/-- By induction on the bound: a larger bound and earlier faults make no difference to a
declaration. -/
theorem repeats_declaration : ∀ {n m : Nat}, n ≤ m →
    Repeats faults (declaration n) (declaration m)
  | 0, _, _ => .exhausted
  | n + 1, m + 1, hle => by
      have hle := Nat.le_of_succ_le_succ hle
      have hbody : Repeats faults (declarationBody n) (declarationBody m) := by
        refine (Repeats.skip? _).bind fun isClass => ?_
        split
        · exact repeats_classDeclaration hle
        · refine (Repeats.skip? _).bind fun isFunction => ?_
          split
          · exact (repeats_function hle .function).bind fun decl => .pure _
          · refine (Repeats.skip? _).bind fun isVariable => ?_
            split
            · exact repeats_varDeclaration hle
            · exact repeats_statement hle
      rw [declaration_succ, declaration_succ]
      exact hbody.recovering

theorem repeats_classDeclaration : ∀ {n m : Nat}, n ≤ m →
    Repeats faults (classDeclaration n) (classDeclaration m)
  | 0, _, _ => .exhausted
  | n + 1, m + 1, hle => by
      have hle := Nat.le_of_succ_le_succ hle
      unfold classDeclaration
      refine (Fenced.expectName _).bind fun name => ?_
      refine repeats_superclass.bind fun superclass => ?_
      refine (Repeats.expectMark _ _).bind fun _ => ?_
      refine (repeats_methods hle).bind fun methods => ?_
      exact (Repeats.expectMark _ _).bind fun _ => .pure _

theorem repeats_methods : ∀ {n m : Nat}, n ≤ m → Repeats faults (methods n) (methods m)
  | 0, _, _ => .exhausted
  | n + 1, m + 1, hle => by
      have hle := Nat.le_of_succ_le_succ hle
      unfold methods
      refine Fenced.atBodyEnd.bind fun isEnd => ?_
      split
      · exact .pure []
      · refine (repeats_function hle .method).bind fun method => ?_
        exact (repeats_methods hle).bind fun rest => .pure _

theorem repeats_function : ∀ {n m : Nat}, n ≤ m → ∀ callable : Callable,
    Repeats faults (function n callable) (function m callable)
  | 0, _, _, _ => .exhausted
  | n + 1, m + 1, hle, callable => by
      have hle := Nat.le_of_succ_le_succ hle
      unfold function
      refine (Fenced.expectName _).bind fun name => ?_
      refine (Repeats.expectMark _ _).bind fun _ => ?_
      refine (repeats_parameters hle).bind fun params => ?_
      refine (Repeats.expectMark _ _).bind fun _ => ?_
      refine (Repeats.expectMark _ _).bind fun _ => ?_
      exact (repeats_block hle).bind fun body => .pure _

theorem repeats_block : ∀ {n m : Nat}, n ≤ m → Repeats faults (block n) (block m)
  | 0, _, _ => .exhausted
  | n + 1, m + 1, hle => by
      have hle := Nat.le_of_succ_le_succ hle
      unfold block
      refine Fenced.atBodyEnd.bind fun isEnd => ?_
      split
      · exact (Repeats.expectMark _ _).bind fun _ => .pure []
      · refine (repeats_declaration hle).bind fun first => ?_
        exact (repeats_block hle).bind fun rest => .pure _

theorem repeats_statement : ∀ {n m : Nat}, n ≤ m → Repeats faults (statement n) (statement m)
  | 0, _, _ => .exhausted
  | n + 1, m + 1, hle => by
      have hle := Nat.le_of_succ_le_succ hle
      unfold statement
      intro s hs
      -- a keyword is taken in both, and the statement behind it repeats
      have hpass : ∀ {p p' : Parser Stmt}, Repeats faults p p' →
          FencedAt .nothing faults s (do let _ ← advance; p) (do let _ ← advance; p') :=
        fun hp => (Repeats.advance.bind fun _ => hp) s hs
      refine Fenced.current_bind hs ?_
      split
      · exact hpass (repeats_forStatement hle)
      · exact hpass (repeats_ifStatement hle)
      · exact hpass (repeats_printStatement hle)
      · exact hpass (repeats_returnStatement hle s.head)
      · exact hpass (repeats_whileStatement hle)
      · exact hpass ((repeats_block hle).bind fun body => .pure _)
      · exact repeats_expressionStatement hle s hs

theorem repeats_forStatement : ∀ {n m : Nat}, n ≤ m →
    Repeats faults (forStatement n) (forStatement m)
  | 0, _, _ => .exhausted
  | n + 1, m + 1, hle => by
      have hle := Nat.le_of_succ_le_succ hle
      unfold forStatement
      refine (Repeats.expectMark _ _).bind fun _ => ?_
      refine (repeats_forInitializer hle).bind fun initializer => ?_
      refine (fenced_optionalExpression hle _).bind fun condition => ?_
      refine (Repeats.expectMark _ _).bind fun _ => ?_
      refine (fenced_optionalExpression hle _).bind fun increment => ?_
      refine (Repeats.expectMark _ _).bind fun _ => ?_
      refine (repeats_statement hle).bind fun body => ?_
      cases condition with
      | none => exact Fenced.fresh.bind fun id => .pure _
      | some e => exact .pure _

theorem repeats_ifStatement : ∀ {n m : Nat}, n ≤ m →
    Repeats faults (ifStatement n) (ifStatement m)
  | 0, _, _ => .exhausted
  | n + 1, m + 1, hle => by
      have hle := Nat.le_of_succ_le_succ hle
      unfold ifStatement
      refine (Repeats.expectMark _ _).bind fun _ => ?_
      refine (fenced_expression hle).bind fun condition => ?_
      refine (Repeats.expectMark _ _).bind fun _ => ?_
      refine (repeats_statement hle).bind fun thenBranch => ?_
      refine (Repeats.skip? _).bind fun hasElse => ?_
      split
      · exact (repeats_statement hle).bind fun elseBranch => .pure _
      · exact .pure _

theorem repeats_whileStatement : ∀ {n m : Nat}, n ≤ m →
    Repeats faults (whileStatement n) (whileStatement m)
  | 0, _, _ => .exhausted
  | n + 1, m + 1, hle => by
      have hle := Nat.le_of_succ_le_succ hle
      unfold whileStatement
      refine (Repeats.expectMark _ _).bind fun _ => ?_
      refine (fenced_expression hle).bind fun condition => ?_
      refine (Repeats.expectMark _ _).bind fun _ => ?_
      exact (repeats_statement hle).bind fun body => .pure _

end

theorem repeats_program : ∀ {n m : Nat}, n ≤ m → Repeats faults (program n) (program m)
  | 0, _, _ => .exhausted
  | n + 1, m + 1, hle => by
      have hle := Nat.le_of_succ_le_succ hle
      unfold program
      refine (Fenced.at? _).bind fun isEnd => ?_
      split
      · exact .pure []
      · refine (repeats_declaration hle).bind fun first => ?_
        exact (repeats_program hle).bind fun rest => .pure _

/-! ## All bounds that are not used up -/

/-- A declaration recovers from every panic. -/
theorem declaration_ne_panic (n : Nat) (s s' : Input) :
    declaration n s ≠ .error .panic s' := by
  intro h
  cases n with
  | zero => cases h
  | succ n =>
      rw [declaration_succ] at h
      unfold recovering at h
      split at h <;> cases h

/-- In front of the end of input there is one declaration more. -/
theorem program_succ (n : Nat) {s : Input} (hhead : s.head.kind ≠ .eof) :
    program (n + 1) s = (do let first ← declaration n; (first.toList ++ ·) <$> program n) s := by
  rw [program, bind_run, at?_run]
  simp only [hhead, beq_iff_eq, if_false, map_eq_pure_bind]

/-- A panic goes no further than a declaration. -/
theorem program_ne_panic (n : Nat) (s s' : Input) : program n s ≠ .error .panic s' := by
  intro h
  induction n generalizing s with
  | zero => cases h
  | succ n ih =>
      -- Only a declaration could panic, and it recovers.
      by_cases hhead : s.head.kind = .eof
      · unfold program at h
        rw [bind_run, at?_run] at h
        simp only [hhead, beq_self_eq_true, if_true] at h
        cases h
      · rw [program_succ n hhead, bind_run] at h
        cases hfirst : declaration n s with
        | ok first t =>
            simp only [hfirst, map_run] at h
            cases hrest : program n t with
            | ok rest u =>
                rw [hrest] at h
                cases h
            | error reason u =>
                rw [hrest] at h
                cases h
                exact ih t hrest
        | error reason t =>
            rw [hfirst] at h
            cases h
            exact declaration_ne_panic n s s' hfirst

theorem Finishes.exists_program_eq {n : Nat} {s : Input} {Q : List Stmt → Input → Prop}
    (h : Finishes (program n) s Q) : ∃ ss s', program n s = .ok ss s' := by
  unfold Finishes at h
  cases hrun : program n s with
  | ok ss s' => exact ⟨ss, s', rfl⟩
  | error reason s' =>
      rw [hrun] at h
      cases reason with
      | panic => exact absurd hrun (program_ne_panic n s s')
      | exhausted => exact h.elim

/-- Two bounds that are not used up give the same reading, and the faults found before it stay in
front of those that it finds. -/
theorem program_agree {n m : Nat} {s s' : Input} {ss : List Stmt} {Q : List Stmt → Input → Prop}
    (hn : program n s = .ok ss s')
    (hm : Finishes (program m) { s with errors := faults ++ s.errors } Q) :
    program m { s with errors := faults ++ s.errors } =
      .ok ss { s' with errors := faults ++ s'.errors } := by
  have hrepeats : ∀ {k l : Nat} (before : List StaticError) {t t' : Input} {ss : List Stmt},
      k ≤ l → program k t = .ok ss t' →
      program l { t with errors := before ++ t.errors } =
        .ok ss { t' with errors := before ++ t'.errors } := by
    intro k l before t t' ss hle hrun
    exact (repeats_program hle).run_eq hrun
  -- The run with the smaller bound decides, and neither bound is used up.
  rcases Nat.le_total n m with hle | hle
  · exact hrepeats faults hle hn
  · rcases hm.exists_program_eq with ⟨ss', t, hrun⟩
    have hlarger := hrepeats [] hle hrun
    simp only [List.nil_append] at hlarger
    rw [hrun, ← hlarger]
    exact hrepeats faults (Nat.le_refl n) hn

/-! ## Declarations in front of others -/

/-- What follows a first step is reached. -/
theorem Yields.of_finishes_bind {x : Parser α} {f : α → Parser β} {s s' : Input} {a : α}
    {Q : β → Input → Prop} (h : Yields x s a s') (hfinish : Finishes (x >>= f) s Q) :
    x s = .ok a s' ∧ Finishes (f a) s' Q := by
  unfold Finishes at *
  rw [bind_run] at hfinish
  rcases h with h | ⟨t, h⟩
  · rw [h] at hfinish
    exact ⟨h, hfinish⟩
  · rw [h] at hfinish
    exact hfinish.elim

theorem Finishes.of_map {x : Parser α} {f : α → β} {s : Input} {Q : β → Input → Prop}
    (h : Finishes (f <$> x) s Q) : Finishes x s fun a s' => Q (f a) s' := by
  unfold Finishes at *
  rw [map_run] at h
  cases hrun : x s with
  | ok a s' =>
      rw [hrun] at h
      exact h
  | error reason s' =>
      rw [hrun] at h
      cases reason <;> exact h

/-- The declarations come first, and then whatever the tokens behind them read as. -/
theorem program_append {ts us : List Token} {i j : NodeId} {ss : List Stmt}
    (h : Reading.Declarations ts i ss j) (hus : ahead us ≠ .elseWord) {n : Nat}
    {Q : List Stmt → Input → Prop} (hfinish : Finishes (program n) ⟨ts ++ us, i, faults⟩ Q) :
    ∃ m, Finishes (program m) ⟨us, j, faults⟩ (fun _ _ => True) ∧
      program n ⟨ts ++ us, i, faults⟩ = ((ss ++ ·) <$> program m) ⟨us, j, faults⟩ := by
  induction ss generalizing ts i n Q with
  | nil =>
      cases h
      refine ⟨n, hfinish.mono fun _ _ _ => trivial, ?_⟩
      rw [List.nil_append, map_run]
      cases program n ⟨us, j, faults⟩ <;> rfl
  | cons s ss ih =>
      cases h with
      | @cons ts ts' _ j' _ _ _ hfirst hmore =>
          cases n with
          | zero => exact hfinish.elim
          | succ n =>
              rw [List.append_assoc] at hfinish ⊢
              have hhead : (⟨ts ++ (ts' ++ us), i, faults⟩ : Input).head.kind ≠ .eof :=
                hfirst.starts.ahead_ne _ rfl
              -- Only a missing `else` would be looked for behind the declaration.
              have hyields := declaration_complete n _ faults hfirst (hmore.ahead_ne hus rfl)
              unfold Finishes at hfinish
              rw [program_succ n hhead] at hfinish ⊢
              rcases hyields.of_finishes_bind hfinish with ⟨hrun, hrest⟩
              rcases ih hmore hrest.of_map with ⟨m, hm, heq⟩
              refine ⟨m, hm, ?_⟩
              rw [bind_run, hrun]
              dsimp only
              rw [map_run, heq, map_run, map_run]
              cases program m ⟨us, j, faults⟩ <;> rfl

end Parser

/-! ## Whole programs -/

namespace Program

open LoxLang.Parser

/-- A reading with any bound that is not used up, after other faults. -/
theorem program_eq_ofTokens {n : Nat} {tokens : List Token} {firstId : NodeId}
    {faults : List StaticError} {Q : List Stmt → Input → Prop}
    (h : Finishes (program n) ⟨tokens, firstId, faults⟩ Q) :
    ∃ rest, program n ⟨tokens, firstId, faults⟩ =
      .ok (ofTokens tokens firstId).statements ⟨rest, (ofTokens tokens firstId).nextId,
        faults ++ (ofTokens tokens firstId).errors⟩ := by
  rcases (finishes_depthBound tokens firstId).exists_program_eq with ⟨ss, s, hrun⟩
  have hfinish : Finishes (program n) ⟨tokens, firstId, faults ++ []⟩ Q := by
    rwa [List.append_nil]
  have hagree := program_agree hrun hfinish
  rw [List.append_nil] at hagree
  refine ⟨s.rest, ?_⟩
  rw [hagree, ofTokens, hrun]

/-- A program without faults in front of any other one that does not start with an `else`: the
statements follow each other, and the faults are those of the second one. -/
theorem ofTokens_append {ts us : List Token} {eof eof' : Token} (hts : ∀ t ∈ ts, t.kind ≠ .eof)
    (heof : eof.kind = .eof) (heof' : eof'.kind = .eof) (firstId : NodeId)
    (herrors : (ofTokens (ts ++ [eof]) firstId).errors = [])
    (hus : ∀ t ∈ us.head?, t.kind ≠ .elseWord) :
    let first := ofTokens (ts ++ [eof]) firstId
    let second := ofTokens (us ++ [eof']) first.nextId
    ofTokens (ts ++ us ++ [eof']) firstId =
      ⟨first.statements ++ second.statements, second.errors, second.nextId⟩ := by
  intro first second
  have hfirst : ofTokens (ts ++ [eof]) firstId = ⟨first.statements, [], first.nextId⟩ := by
    rw [← herrors]
  -- Without faults the tokens are a reading by the grammar, which knows nothing of what follows.
  have hread := (ofTokens_eq_iff_reading heof hts).1 hfirst
  have hahead : ahead (us ++ [eof']) ≠ .elseWord := by
    cases us with
    | nil => simp [heof']
    | cons t us => exact hus t rfl
  have hfinish := finishes_depthBound (ts ++ (us ++ [eof'])) firstId
  rcases program_append hread hahead hfinish with ⟨m, hm, hrun⟩
  rcases program_eq_ofTokens hm with ⟨rest, hsecond⟩
  rw [List.append_assoc, ofTokens, hrun, map_run, hsecond]
  rfl

/-- The hypotheses hold of `print nil;` in front of `print;`, which is faulty. -/
theorem ofTokens_append_print :
    let ts : List Token := [⟨.printWord, "print", .nil, 1, 1⟩, ⟨.nilWord, "nil", .nil, 1, 7⟩,
      ⟨.semicolon, ";", .nil, 1, 10⟩]
    let us : List Token := [⟨.printWord, "print", .nil, 2, 1⟩, ⟨.semicolon, ";", .nil, 2, 6⟩]
    let first := ofTokens (ts ++ [Token.endOfInput 1 11]) 0
    let second := ofTokens (us ++ [Token.endOfInput 2 7]) first.nextId
    first.errors = [] ∧ second.errors ≠ [] ∧
      ofTokens (ts ++ us ++ [Token.endOfInput 2 7]) 0 =
        ⟨first.statements ++ second.statements, second.errors, second.nextId⟩ :=
  ⟨by decide, by decide, ofTokens_append (by decide) rfl rfl 0 (by decide) (by decide)⟩

end Program

end LoxLang
