import LoxLang.Proofs.Token.Division

/-!
# Lexemes written apart

The lexemes of a source, with a space between each two of them, are the lexemes of a source again.

* `LexicalClass.longest_apart`: a space ends every lexeme, so what stands behind it does not matter.
* `Piece.division_spaced`: lexemes and the spaces between them are a division.
* `Token.scan_spaced`: scanning what is written so gives the same words, and no faults.
-/

namespace LoxLang

/-! ## Lexical classes -/

namespace LexicalClass

/-- Only strings have blanks inside. -/
theorem space_not_mem {C : LexicalClass} (hC : C ≠ .string) {text : List Char} (h : C.Has text) :
    ' ' ∉ text := by
  have halpha : ¬ IsAlpha ' ' := by unfold IsAlpha; decide
  have hdigit : ¬ IsDigit ' ' := by unfold IsDigit; decide
  intro hmem
  cases C with
  | word =>
      rcases h with ⟨c, cs, rfl, hc, hcs⟩
      rcases List.mem_cons.1 hmem with rfl | hmem
      · exact halpha hc
      · exact (hcs _ hmem).elim halpha hdigit
  | number =>
      rcases h with ⟨whole, -, hwhole, rfl | ⟨fraction, -, hfraction, rfl⟩⟩
      · exact hdigit (hwhole _ hmem)
      · rcases List.mem_append.1 hmem with hmem | hmem
        · exact hdigit (hwhole _ hmem)
        · exact hdigit (hfraction _ ((List.mem_cons.1 hmem).resolve_left (by decide)))
  | string => exact hC rfl
  | operator =>
      rcases h with ⟨kind, hkind, rfl⟩
      -- a look at the list of marks
      have hnone : ∀ kind ∈ Kind.punctuation, ' ' ∉ kind.text.toList := by decide
      exact hnone kind hkind hmem

/-- A text of a class is a lexeme where it ends the input or stands in front of a space. -/
theorem longest_apart {C : LexicalClass} {text rest : List Char} (h : C.Has text)
    (hrest : ∀ c ∈ rest.head?, c = ' ') : C.Longest text (text ++ rest) := by
  refine ⟨h, List.prefix_append _ _, fun other hstarts hother => ?_⟩
  cases rest with
  | nil => exact List.append_nil text ▸ hstarts.length_le
  | cons c rest =>
      obtain rfl := hrest c rfl
      by_cases hC : C = .string
      · -- A string may contain spaces, and ends at its closing quote.
        subst hC
        rcases h with ⟨body, hbody, rfl⟩
        have hlongest := Piece.longest_string hbody (' ' :: rest)
        exact hlongest.longest other (by simpa using hstarts) hother
      · -- Anything longer would contain the space.
        apply Nat.le_of_not_lt
        intro hlt
        have hspace : text ++ [' '] <+: text ++ ' ' :: rest := ⟨rest, by simp⟩
        have hlength : (text ++ [' ']).length ≤ other.length := by
          rw [List.length_append, List.length_singleton]
          exact hlt
        have hwithin := List.prefix_of_prefix_length_le hspace hstarts hlength
        exact space_not_mem hC hother (hwithin.subset (by simp))

end LexicalClass

/-! ## Pieces -/

namespace Piece

def IsWord (word : Kind × List Char) : Prop :=
  word.2 ≠ [] ∧ ¬ ['/', '/'] <+: word.2 ∧
    ∃ C : LexicalClass, C.Has word.2 ∧ C.Names word.2 word.1

/-- Every lexeme of a division is one that the scanner finds again on its own. -/
theorem isWord_of_fits {kind : Kind} {text input : List Char} (h : (lexeme kind text).Fits input)
    (hne : text ≠ []) : IsWord (kind, text) := by
  cases h with
  | @lexeme C _ _ _ hslash hlongest hnames =>
      exact ⟨hne, fun hstarts => hslash (hstarts.trans hlongest.starts), C, hlongest.has, hnames⟩

/-- The lexemes of a source. -/
theorem isWord_of_division {source : List Char} {pieces : List Piece}
    (h : Division source pieces) : ∀ word ∈ pieces.filterMap lexeme?, IsWord word := by
  intro word hword
  rcases List.mem_filterMap.1 hword with ⟨piece, hpiece, hlexeme⟩
  rcases List.append_of_mem hpiece with ⟨before, behind, heq⟩
  have hfits := h.fits before piece behind heq
  cases piece with
  | lexeme kind text =>
      cases hlexeme
      exact isWord_of_fits hfits (h.nonempty _ hpiece)
  | _ => cases hlexeme

/-- A comment cannot arise behind a lexeme if a space does. -/
theorem not_slashes {text rest : List Char} (h : ¬ ['/', '/'] <+: text)
    (hrest : ∀ c ∈ rest.head?, c = ' ') : ¬ ['/', '/'] <+: text ++ rest := by
  -- The second slash at least would have to come from behind the lexeme.
  have hhead : ∀ {cs : List Char}, ¬ '/' :: cs <+: rest := by
    rintro cs ⟨more, rfl⟩
    exact absurd (hrest '/' rfl) (by decide)
  intro hstarts
  cases text with
  | nil => exact hhead hstarts
  | cons c text =>
      rcases List.cons_prefix_cons.1 hstarts with ⟨hc, hmore⟩
      cases text with
      | nil => exact hhead hmore
      | cons d text =>
          rw [← hc, ← (List.cons_prefix_cons.1 hmore).1] at h
          exact h ⟨text, rfl⟩

/-- A lexeme is one wherever it ends the input or stands in front of a space. -/
theorem IsWord.fits {word : Kind × List Char} {rest : List Char} (h : IsWord word)
    (hrest : ∀ c ∈ rest.head?, c = ' ') : (lexeme word.1 word.2).Fits (word.2 ++ rest) := by
  rcases h with ⟨-, hslash, C, hhas, hnames⟩
  exact .lexeme (not_slashes hslash hrest) (LexicalClass.longest_apart hhas hrest) hnames

/-- Lexemes with a space between each two of them. -/
def spaced (words : List (Kind × List Char)) : List Piece :=
  (words.map fun word => lexeme word.1 word.2).intersperse (.blank ' ')

/-- Lexemes with blanks between them are divided at the blanks. -/
theorem division_spaced {words : List (Kind × List Char)} (h : ∀ word ∈ words, IsWord word) :
    Division ([' '].intercalate (words.map Prod.snd)) (spaced words) := by
  induction words with
  | nil => exact ⟨rfl, List.forall_mem_nil _, fun before _ _ heq => by cases before <;> cases heq⟩
  | cons word words ih =>
      rcases List.forall_mem_cons.1 h with ⟨hword, hwords⟩
      have hmore := ih hwords
      cases words with
      | nil =>
          have hnil : Division [] [] := hmore
          exact division_cons.2 ⟨hword.1, hword.fits (by simp), [], rfl, hnil⟩
      | cons word' words =>
          -- The blank between two words is a piece of its own.
          let rest := [' '].intercalate ((word' :: words).map Prod.snd)
          have hblank : Division (' ' :: rest) (.blank ' ' :: spaced (word' :: words)) :=
            division_cons.2 ⟨by simp [text], .blank (.inl rfl), rest, rfl, hmore⟩
          exact division_cons.2 ⟨hword.1, hword.fits (by simp), ' ' :: rest, rfl, hblank⟩

theorem filterMap_lexeme?_spaced (words : List (Kind × List Char)) :
    (spaced words).filterMap lexeme? = words := by
  induction words with
  | nil => rfl
  | cons word words ih =>
      cases words with
      | nil => rfl
      | cons word' words => exact congrArg (word :: ·) ih

end Piece

/-! ## Tokens -/

namespace Token

def word (t : Token) : Kind × String × Literal := (t.kind, t.lexeme, t.literal)

/-- What the lexemes decide of the tokens. -/
theorem map_word_ofPieces (pieces : List Piece) (p : Position) :
    (ofPieces p pieces).1.map word =
      (pieces.filterMap Piece.lexeme?).map (fun w => (w.1, String.ofList w.2, literalOf w.1 w.2)) ++
        [(.eof, "", .nil)] := by
  induction pieces generalizing p with
  | nil => rfl
  | cons piece pieces ih =>
      cases piece with
      | lexeme kind text => exact congrArg (_ :: ·) (ih _)
      | _ => exact ih _

/-- Lexemes and blanks are never faulty. -/
theorem errors_spaced (words : List (Kind × List Char)) (p : Position) :
    (ofPieces p (Piece.spaced words)).2 = [] := by
  induction words generalizing p with
  | nil => rfl
  | cons word words ih =>
      cases words with
      | nil => rfl
      | cons word' words => exact ih _

/-- The lexemes of a source, written with single spaces between them, scan to the same kinds,
lexemes and literals, and without a fault, whatever faults the source has. -/
theorem scan_spaced (source : String) :
    ∃ ts eof, (scan source).1 = ts ++ [eof] ∧ eof.kind = .eof ∧
      let again := scan (" ".intercalate (ts.map lexeme))
      again.2 = [] ∧ again.1.map word = (scan source).1.map word := by
  let pieces := Piece.divide source.toList
  let words := pieces.filterMap Piece.lexeme?
  have htokens := congrArg Prod.fst (ofPieces_append pieces [] .start)
  rw [List.append_nil] at htokens
  refine ⟨lexemes .start pieces, _, htokens, rfl, ?_⟩
  -- Each lexeme is a word: read on its own, it is the same lexeme.
  have hwords : ∀ word ∈ words, Piece.IsWord word :=
    Piece.isWord_of_division (Piece.division_divide source.toList)
  have hlexemes : ((lexemes .start pieces).map lexeme).map String.toList = words.map Prod.snd := by
    rw [show words = _ from (map_lexemes pieces .start).symm, List.map_map, List.map_map]
    rfl
  -- With blanks between them they are divided at the blanks, as the division is unique.
  have hdivide : Piece.divide (" ".intercalate ((lexemes .start pieces).map lexeme)).toList =
      Piece.spaced words := by
    calc
      _ = Piece.divide ([' '].intercalate (words.map Prod.snd)) := by
            rw [String.toList_intercalate, hlexemes]
            rfl
      _ = Piece.spaced words := (Piece.division_unique (Piece.division_spaced hwords)).symm
  simp only [scan, hdivide]
  refine ⟨errors_spaced words .start, ?_⟩
  rw [map_word_ofPieces, map_word_ofPieces, Piece.filterMap_lexeme?_spaced]

end Token

end LoxLang
