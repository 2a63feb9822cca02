import LoxLang.Proofs.Grammar.Formed
import LoxLang.Token.Lexer

/-!
# The spelling of tokens

What is known of the tokens of every source: names are no keywords, `this` is spelled as it is
always spelled, and the end of input comes last and nowhere else.
-/

namespace LoxLang

namespace Kind

/-- A word that is no keyword is a name. -/
theorem isName_of_keyword?_eq_none {word : String} (h : keyword? word = none) : IsName word := by
  have hne : ∀ kind ∈ keywords, kind.text ≠ word := by
    intro kind hkind
    simpa using List.find?_eq_none.1 h kind hkind
  exact ⟨(hne .thisWord (by decide)).symm, (hne .superWord (by decide)).symm⟩

/-- A word that is found among the keywords is one of them. -/
theorem text_of_keyword? {word : String} {kind : Kind} (h : keyword? word = some kind) :
    kind ∈ keywords ∧ kind.text = word :=
  ⟨List.mem_of_find?_eq_some h, by simpa using List.find?_some h⟩

end Kind

/-! ## Pieces -/

/-- A piece whose lexeme is spelled as its kind demands. -/
def Piece.Spelled : Piece → Prop
  | .lexeme kind text =>
      kind ≠ .eof ∧ (kind = .identifier → IsName (String.ofList text)) ∧
        (kind = .thisWord → String.ofList text = "this")
  | _ => True

namespace Piece

/-- Most kinds ask nothing of their lexeme. -/
theorem spelled_of_kind {kind : Kind} (text : List Char) (heof : kind ≠ .eof)
    (hname : kind ≠ .identifier) (hthis : kind ≠ .thisWord) : (lexeme kind text).Spelled :=
  ⟨heof, fun h => absurd h hname, fun h => absurd h hthis⟩

theorem spelled_number (c : Char) (cs : List Char) : (number c cs).1.Spelled := by
  unfold number
  dsimp only
  split <;> exact spelled_of_kind _ (by decide) (by decide) (by decide)

theorem spelled_string (cs : List Char) : (string cs).1.Spelled := by
  unfold string
  dsimp only
  split
  · trivial
  · exact spelled_of_kind _ (by decide) (by decide) (by decide)

/-- A word is spelled like a keyword if it is one, and like none if it is a name. -/
theorem spelled_word (c : Char) (cs : List Char) : (word c cs).1.Spelled := by
  unfold word
  dsimp only
  -- A word is a name, or it is the keyword that it is spelled like.
  cases h : Kind.keyword? (String.ofList (c :: cs.takeWhile isWordChar)) with
  | none => exact ⟨nofun, fun _ => Kind.isName_of_keyword?_eq_none h, nofun⟩
  | some kind =>
      rcases Kind.text_of_keyword? h with ⟨hmem, htext⟩
      refine ⟨?_, ?_, ?_⟩
      · rintro rfl
        exact absurd hmem (by decide)
      · rintro rfl
        exact absurd hmem (by decide)
      · rintro rfl
        exact htext.symm

theorem spelled_punctuation (c : Char) (cs : List Char) : (punctuation c cs).1.Spelled := by
  -- no mark is the end of the input, a name or `this`
  have hdouble : ∀ kind, double? c = some kind → ∀ text, (lexeme kind text).Spelled := by
    intro kind h text
    unfold double? at h
    split at h <;> cases h <;> exact spelled_of_kind _ (by decide) (by decide) (by decide)
  have hsingle : ∀ kind, single? c = some kind → ∀ text, (lexeme kind text).Spelled := by
    intro kind h text
    unfold single? at h
    split at h <;> cases h <;> exact spelled_of_kind _ (by decide) (by decide) (by decide)
  unfold punctuation
  split
  · rename_i h
    exact hdouble _ h _
  · unfold mark
    split
    · rename_i kind h
      exact hsingle kind h _
    · trivial

theorem spelled_next (c : Char) (cs : List Char) : (next c cs).1.Spelled := by
  unfold next
  repeat' split
  · trivial
  · trivial
  · trivial
  · exact spelled_number c cs
  · exact spelled_string cs
  · exact spelled_word c cs
  · exact spelled_punctuation c cs

/-- By induction on the input: all pieces are spelled as their kinds ask. -/
theorem spelled_divide (cs : List Char) : ∀ piece ∈ divide cs, piece.Spelled := by
  fun_induction divide cs with
  | case1 => exact nofun
  | case2 c cs ih =>
      intro piece hpiece
      rcases List.mem_cons.1 hpiece with rfl | hrest
      · exact spelled_next c cs
      · exact ih piece hrest

end Piece

/-! ## Tokens -/

namespace Token

theorem spelled_ofLexeme {kind : Kind} {text : List Char} (p : Position)
    (h : (Piece.lexeme kind text).Spelled) :
    (ofLexeme kind text p).Spelled ∧ (ofLexeme kind text p).kind ≠ .eof :=
  ⟨⟨h.2.1, h.2.2⟩, h.1⟩

/-- The tokens of pieces that are spelled well, with the end of input behind them. -/
theorem ofPieces_eq_append (p : Position) {pieces : List Piece}
    (h : ∀ piece ∈ pieces, piece.Spelled) :
    ∃ ts eof, (ofPieces p pieces).1 = ts ++ [eof] ∧ eof.kind = .eof ∧
      ∀ t ∈ ts, t.Spelled ∧ t.kind ≠ .eof := by
  induction pieces generalizing p with
  | nil => exact ⟨[], endOfInput p.line p.col, rfl, rfl, nofun⟩
  | cons piece pieces ih =>
      rcases List.forall_mem_cons.1 h with ⟨hpiece, hpieces⟩
      rcases ih (p.after piece) hpieces with ⟨ts, eof, heq, heof, hts⟩
      cases piece with
      | lexeme kind text =>
          refine ⟨ofLexeme kind text p :: ts, eof, by simp [ofPieces, heq], heof, ?_⟩
          exact List.forall_mem_cons.2 ⟨spelled_ofLexeme p hpiece, hts⟩
      | _ => exact ⟨ts, eof, heq, heof, hts⟩

/-- The end of the input is the last token, and no other one is of its kind. -/
theorem scan_eq_append (source : String) :
    ∃ ts eof, (scan source).1 = ts ++ [eof] ∧ eof.kind = .eof ∧
      ∀ t ∈ ts, t.Spelled ∧ t.kind ≠ .eof :=
  ofPieces_eq_append .start (Piece.spelled_divide _)

end Token

end LoxLang
