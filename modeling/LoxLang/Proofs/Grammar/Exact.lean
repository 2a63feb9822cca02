import LoxLang.Proofs.Grammar.DerivesReading
import LoxLang.Proofs.Parsing.StatementComplete
import LoxLang.Proofs.Parsing.StatementSound

/-!
# Programs are read exactly

A token list is read without a fault if and only if the grammar derives it, and then the statements
are those of its only reading, numbered from the number given.
-/

namespace LoxLang

/-! ## The end of input -/

namespace Grammar

/-- Whether the end of input can occur in what a form stands for. -/
def Form.hasEof : Form → Bool
  | .oneOf kinds => kinds.contains .eof
  | .symbol name => name == .program
  | .seq first second | .alt first second => first.hasEof || second.hasEof
  | .optional form | .many form | .upTo _ form => form.hasEof

theorem hasEof_append (first second : Form) :
    (first ++ second).hasEof = (first.hasEof || second.hasEof) := rfl

theorem hasEof_or (first second : Form) :
    (first ||| second).hasEof = (first.hasEof || second.hasEof) := rfl

/-- Only a whole program holds the end of input. -/
theorem hasEof_rule {name : Symbol} (h : name ≠ .program) : (rule name).hasEof = false := by
  cases name <;> first | rfl | exact absurd rfl h

/-- A form that does not mention the end of the input derives lists without one. -/
theorem Derives.kind_ne_eof {form : Form} {ts : List Token} (h : Derives form ts) :
    form.hasEof = false → ∀ t ∈ ts, t.kind ≠ .eof := by
  -- If a form mentions no end of input, then neither do its parts, nor the rules of its symbols.
  induction h with
  | oneOf hkind =>
      intro hform t ht
      rcases List.mem_singleton.1 ht with rfl
      rintro heof
      simp [Form.hasEof, heof ▸ hkind] at hform
  | symbol _ ih =>
      intro hform
      exact ih (hasEof_rule (by simpa [Form.hasEof] using hform))
  | seq _ _ ih₁ ih₂ =>
      intro hform t ht
      simp only [hasEof_append, Bool.or_eq_false_iff] at hform
      rcases List.mem_append.1 ht with ht | ht
      · exact ih₁ hform.1 t ht
      · exact ih₂ hform.2 t ht
  | left _ ih =>
      intro hform
      simp only [hasEof_or, Bool.or_eq_false_iff] at hform
      exact ih hform.1
  | right _ ih =>
      intro hform
      simp only [hasEof_or, Bool.or_eq_false_iff] at hform
      exact ih hform.2
  | absent | manyNil | upToNil => exact fun _ => nofun
  | present _ ih => exact ih
  | manyCons _ _ ih₁ ih₂ | upToCons _ _ ih₁ ih₂ =>
      intro hform t ht
      rcases List.mem_append.1 ht with ht | ht
      · exact ih₁ hform t ht
      · exact ih₂ hform t ht

end Grammar

/-- Nothing that is read holds the end of the input, so the token behind it is the first of its
kind. -/
theorem Reading.Declarations.kind_ne_eof {ts : List Token} {i j : NodeId} {ss : List Stmt}
    (h : Reading.Declarations ts i ss j) : ∀ t ∈ ts, t.kind ≠ .eof := h.derives.kind_ne_eof rfl

/-- What is passed before the end of input is all there is in front of it. -/
theorem eq_of_append_eof {ts us rest : List Token} {eof : Token} (hts : ∀ t ∈ ts, t.kind ≠ .eof)
    (hus : ∀ t ∈ us, t.kind ≠ .eof) (heof : eof.kind = .eof) (hrest : Parser.ahead rest = .eof)
    (h : ts ++ [eof] = us ++ rest) : us = ts := by
  rcases List.append_eq_append_iff.1 h with ⟨vs, rfl, hvs⟩ | ⟨vs, rfl, rfl⟩
  · cases vs with
    | nil => exact List.append_nil _
    | cons v vs =>
        rcases List.cons.inj hvs with ⟨rfl, -⟩
        exact absurd heof (hus eof (by simp))
  · cases vs with
    | nil => exact (List.append_nil _).symm
    | cons v vs => exact absurd hrest (hts v (by simp))

/-! ## Whole programs -/

namespace Program

open LoxLang.Parser

/-- The parser ends at the end of the input, with its counter not used up. -/
theorem finishes_depthBound (tokens : List Token) (firstId : NodeId) :
    Finishes (program (depthBound tokens)) ⟨tokens, firstId, []⟩ fun _ s => s.head.kind = .eof :=
  finishes_program _ _ (by simp only [depthBound]; omega)

/-- A program without faults comes from a run of the grammar's productions that gives a result. -/
theorem ofTokens_eq {tokens : List Token} {firstId j : NodeId} {ss : List Stmt}
    (h : ofTokens tokens firstId = ⟨ss, [], j⟩) :
    ∃ rest, program (depthBound tokens) ⟨tokens, firstId, []⟩ = .ok ss ⟨rest, j, []⟩ ∧
      ahead rest = .eof := by
  have hfinish := finishes_depthBound tokens firstId
  have hsteady := steady_program (depthBound tokens) ⟨tokens, firstId, []⟩
  unfold ofTokens at h
  unfold Finishes at hfinish
  cases hrun : program (depthBound tokens) ⟨tokens, firstId, []⟩ with
  | ok ss' s =>
      rw [hrun] at h hfinish
      rcases s with ⟨rest, nextId, errors⟩
      cases h
      exact ⟨rest, rfl, hfinish⟩
  | error e s =>
      rw [hrun] at h hfinish hsteady
      cases e with
      | exhausted => exact hfinish.elim
      | panic =>
          have herrors : s.errors = [] := congrArg Program.errors h
          have hmore := hsteady.2
          simp [herrors] at hmore

/-- Reading without an error is exactly reading as the grammar says, tree and numbers included. -/
theorem ofTokens_eq_iff_reading {ts : List Token} {eof : Token} (heof : eof.kind = .eof)
    (hts : ∀ t ∈ ts, t.kind ≠ .eof) {firstId j : NodeId} {ss : List Stmt} :
    ofTokens (ts ++ [eof]) firstId = ⟨ss, [], j⟩ ↔ Reading.Declarations ts firstId ss j := by
  constructor
  · intro h
    rcases ofTokens_eq h with ⟨rest, hrun, hrest⟩
    rcases program_sound _ hrun (Nat.le_refl _) with ⟨us, hus, hread⟩
    have heq := eq_of_append_eof hts hread.kind_ne_eof heof hrest hus
    exact heq ▸ hread
  · intro h
    have hyields := program_complete (depthBound (ts ++ [eof])) [eof] [] h heof
    have hrun := hyields.eq_ok (finishes_depthBound _ _)
    simp [ofTokens, hrun]

/-- A list of tokens has at most one reading. -/
theorem reading_unique {ts : List Token} {i j j' : NodeId} {ss ss' : List Stmt}
    (h : Reading.Declarations ts i ss j) (h' : Reading.Declarations ts i ss' j') : ss' = ss := by
  let eof := Token.endOfInput 1 1
  have heq := (ofTokens_eq_iff_reading (rfl : eof.kind = .eof) h.kind_ne_eof).2 h
  have heq' := (ofTokens_eq_iff_reading (rfl : eof.kind = .eof) h.kind_ne_eof).2 h'
  exact congrArg Program.statements (heq'.symm.trans heq)

theorem ofTokens_exact {ts : List Token} {eof : Token} (heof : eof.kind = .eof)
    (hts : ∀ t ∈ ts, t.kind ≠ .eof) (firstId : NodeId) :
    ((ofTokens (ts ++ [eof]) firstId).errors = [] ↔
      Grammar.Derives (.symbol .program) (ts ++ [eof])) ∧
    ∀ statements nextId, ofTokens (ts ++ [eof]) firstId = ⟨statements, [], nextId⟩ ↔
      Reading.Declarations ts firstId statements nextId := by
  refine ⟨⟨?_, ?_⟩, fun _ _ => ofTokens_eq_iff_reading heof hts⟩
  · intro herrors
    have hprogram : ofTokens (ts ++ [eof]) firstId =
        ⟨(ofTokens (ts ++ [eof]) firstId).statements, [],
          (ofTokens (ts ++ [eof]) firstId).nextId⟩ := by
      rw [← herrors]
    exact ((ofTokens_eq_iff_reading heof hts).1 hprogram).derives_program heof
  · intro hderives
    rcases Grammar.readsAs_of_derives hderives firstId with ⟨ss, j, hread⟩
    rw [(ofTokens_eq_iff_reading heof hts).2 hread]

/-- A `for` with an `if` under an `if` that takes the `else`. Under them `a - b - c * d` is assigned
to two names, and a property is set to `a or b and c`. -/
theorem ofTokens_exact_for :
    let word (kind : Kind) : Token := ⟨kind, kind.text, .nil, 1, 1⟩
    let name (lexeme : String) : Token := ⟨.identifier, lexeme, .nil, 1, 1⟩
    let use (id : NodeId) (lexeme : String) : Expr := .variable ⟨id, name lexeme⟩
    let clauses := [word .leftParen, word .varWord, name "i", word .equal, name "a", word .semicolon,
      name "b", word .semicolon, name "i", word .equal, name "c", word .rightParen]
    let difference := [name "a", word .minus, name "b", word .minus, name "c", word .star, name "d"]
    let choice := [name "a", word .orWord, name "b", word .andWord, name "c"]
    let thenBranch := [name "x", word .equal, name "y", word .equal] ++ difference ++ [word .semicolon]
    let elseBranch := [name "o", word .dot, name "p", word .equal] ++ choice ++ [word .semicolon]
    let ts := word .forWord :: clauses ++ [word .ifWord, word .leftParen, name "a", word .rightParen,
      word .ifWord, word .leftParen, name "b", word .rightParen] ++ thenBranch ++
      word .elseWord :: elseBranch
    let eof := Token.endOfInput 1 1
    Grammar.Derives (.symbol .program) (ts ++ [eof]) ∧
    ofTokens (ts ++ [eof]) 0 = ⟨[.block
      [.varDecl (name "i") (some (use 0 "a")),
        .whileLoop (use 1 "b") (.block
          [.ifElse (use 5 "a")
            (.ifElse (use 6 "b")
              (.expression (.assign 17 (name "x") (.assign 16 (name "y")
                (.binary 15 (.binary 11 (use 9 "a") (word .minus) (use 10 "b")) (word .minus)
                  (.binary 14 (use 12 "c") (word .star) (use 13 "d"))))))
              (some (.expression (.set 25 (use 18 "o") (name "p")
                (.logical 24 (use 20 "a") (word .orWord)
                  (.logical 23 (use 21 "b") (word .andWord) (use 22 "c")))))))
            none,
          .expression (.assign 4 (name "i") (use 3 "c"))])]], [], 26⟩ := by
  intro word name use clauses difference choice thenBranch elseBranch ts eof
  have huse : ∀ i lexeme, Reading.Call [name lexeme] i (use i lexeme) (i + 1) :=
    fun i _ => .of_name i rfl
  have hexpression : ∀ i lexeme, Reading.Expression [name lexeme] i (use i lexeme) (i + 1) :=
    fun i lexeme => .plain (.of_call (huse i lexeme) _)
  have hinitializer : Reading.ForInitializer [word .varWord, name "i", word .equal, name "a",
      word .semicolon] 0 (some (.varDecl (name "i") (some (use 0 "a")))) 1 :=
    .variable rfl (.mk rfl (.some rfl (hexpression 0 "a")) rfl)
  have hincrement : Reading.Expression [name "i", word .equal, name "c"] 2
      (.assign 4 (name "i") (use 3 "c")) 5 := .assign rfl rfl (hexpression 3 "c")
  have hproduct : Reading.Operation [.factor] [name "c", word .star, name "d"] 12
      (.binary 14 (use 12 "c") (word .star) (use 13 "d")) 15 :=
    Reading.Operation.snoc (.of_call (huse 12 "c") _) (by decide) (.of_call (huse 13 "d") _)
  have hfirst : Reading.Operation [.term, .factor] [name "a", word .minus, name "b"] 9
      (.binary 11 (use 9 "a") (word .minus) (use 10 "b")) 12 :=
    Reading.Operation.snoc (.of_call (huse 9 "a") _) (by decide) (.of_call (huse 10 "b") _)
  -- The first difference is the left operand of the second one, the product the right one.
  have hdifference : Reading.Operation [.term, .factor] difference 9
      (.binary 15 (.binary 11 (use 9 "a") (word .minus) (use 10 "b")) (word .minus)
        (.binary 14 (use 12 "c") (word .star) (use 13 "d"))) 16 :=
    hfirst.snoc (by decide) hproduct
  have hand : Reading.Operation [.logicAnd, .equality, .comparison, .term, .factor]
      [name "b", word .andWord, name "c"] 21
      (.logical 23 (use 21 "b") (word .andWord) (use 22 "c")) 24 :=
    Reading.Operation.snoc (.of_call (huse 21 "b") _) (by decide) (.of_call (huse 22 "c") _)
  have hchoice : Reading.Operation Reading.Precedence.all choice 20
      (.logical 24 (use 20 "a") (word .orWord)
      (.logical 23 (use 21 "b") (word .andWord) (use 22 "c"))) 25 :=
    Reading.Operation.snoc (.of_call (huse 20 "a") _) (by decide) hand
  have hthen : Reading.Statement false thenBranch 7 _ 18 := .expression (.mk (.assign rfl rfl
    (.assign rfl rfl (.plain hdifference.looser.looser.looser.looser))) rfl)
  have hset : Reading.Expression (name "o" :: word .dot :: name "p" :: word .equal :: choice) 18
      _ 26 := Reading.Expression.set (huse 18 "o") rfl rfl rfl (.plain hchoice)
  have helse : Reading.Statement false elseBranch 18 _ 26 := .expression (.mk hset rfl)
  have hinner : Reading.Statement false (word .ifWord :: word .leftParen :: name "b" ::
      word .rightParen :: (thenBranch ++ word .elseWord :: elseBranch)) 6 _ 26 :=
    .ifElse rfl rfl (hexpression 6 "b") rfl hthen rfl helse
  have houter : Reading.Statement true (word .ifWord :: word .leftParen :: name "a" ::
      word .rightParen :: word .ifWord :: word .leftParen :: name "b" :: word .rightParen ::
      (thenBranch ++ word .elseWord :: elseBranch)) 5 _ 26 :=
    .ifOnly rfl rfl (hexpression 5 "a") rfl hinner
  have hloop := Reading.Statement.forLoop (rfl : (word .forWord).kind = .forWord)
    (rfl : (word .leftParen).kind = .leftParen) hinitializer (hexpression 1 "b")
    (rfl : (word .semicolon).kind = .semicolon) (.some hincrement)
    (rfl : (word .rightParen).kind = .rightParen) houter
  have hloops := Reading.Declarations.cons (.statement hloop) .nil
  have hread : Reading.Declarations ts 0 _ 26 := hloops
  have hexact := ofTokens_exact (rfl : eof.kind = .eof) hread.kind_ne_eof 0
  have htree := (hexact.2 _ _).2 hread
  exact ⟨hexact.1.1 (by rw [htree]), htree⟩

end Program

end LoxLang
