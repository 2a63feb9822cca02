import LoxLang.Proofs.Token.Lines
import LoxLang.Proofs.Token.Spelling

/-!
# The division of a source

What the pieces of a source are, without saying how they are found.

* `LexicalClass` lists the four classes of lexemes, and `LexicalClass.Has` says which texts belong
  to one. `Longest`: no longer beginning of the input belongs to the class.
* `Piece.Fits piece input`: the piece is one that an input of this form begins with.
* `Piece.Division source pieces`: the pieces make up the source, and each fits where it stands.
* `Piece.fits_iff`: the piece that is taken off an input is the one that fits.
* `Token.scan_divides`: a source has one division, and the scan gives its lexemes and its faults.
-/

namespace LoxLang

/-! ## Lexical classes -/

def IsDigit (c : Char) : Prop := '0' ≤ c ∧ c ≤ '9'

def IsAlpha (c : Char) : Prop := ('a' ≤ c ∧ c ≤ 'z') ∨ ('A' ≤ c ∧ c ≤ 'Z') ∨ c = '_'

/-- What a lexeme can be. -/
inductive LexicalClass where
  | word
  | number
  | string
  | operator

namespace LexicalClass

/-- The texts that belong to a class. -/
def Has : LexicalClass → List Char → Prop
  | word, text =>
      ∃ c cs, text = c :: cs ∧ IsAlpha c ∧ ∀ d ∈ cs, IsAlpha d ∨ IsDigit d
  | number, text =>
      ∃ whole, whole ≠ [] ∧ (∀ d ∈ whole, IsDigit d) ∧
        (text = whole ∨
          ∃ fraction, fraction ≠ [] ∧ (∀ d ∈ fraction, IsDigit d) ∧ text = whole ++ '.' :: fraction)
  | string, text => ∃ body, '"' ∉ body ∧ text = '"' :: body ++ ['"']
  | operator, text => ∃ kind ∈ Kind.punctuation, kind.text.toList = text

/-- The kind that a text of a class has: a word is a keyword if all of it is one. -/
def Names : LexicalClass → List Char → Kind → Prop
  | word, text, kind =>
      kind ∈ Kind.keywords ∧ kind.text.toList = text ∨
        kind = .identifier ∧ ∀ keyword ∈ Kind.keywords, keyword.text.toList ≠ text
  | number, _, kind => kind = .number
  | string, _, kind => kind = .string
  | operator, text, kind => kind ∈ Kind.punctuation ∧ kind.text.toList = text

/-- The longest beginning of an input that belongs to a class. -/
structure Longest (C : LexicalClass) (text input : List Char) : Prop where
  has : C.Has text
  starts : text <+: input
  longest : ∀ other, other <+: input → C.Has other → other.length ≤ text.length

/-- A class has one longest text at a place: both are beginnings of the same input. -/
theorem Longest.unique {C : LexicalClass} {text text' input : List Char} (h : C.Longest text input)
    (h' : C.Longest text' input) : text' = text := by
  have hlength : text'.length = text.length :=
    Nat.le_antisymm (h.longest text' h'.starts h'.has) (h'.longest text h.starts h.has)
  exact (List.prefix_of_prefix_length_le h'.starts h.starts
    (Nat.le_of_eq hlength)).eq_of_length hlength

end LexicalClass

/-! ## Pieces -/

namespace Piece

/-- A piece that an input begins with. -/
inductive Fits : Piece → List Char → Prop where
  | newline {cs : List Char} : Fits .newline ('\n' :: cs)
  | blank {c : Char} {cs : List Char} : c = ' ' ∨ c = '\t' ∨ c = '\r' → Fits (.blank c) (c :: cs)
  /-- A comment takes the rest of its line. -/
  | comment {body cs : List Char} :
      '\n' ∉ body → cs = [] ∨ cs.head? = some '\n' →
      Fits (.comment ('/' :: '/' :: body)) ('/' :: '/' :: body ++ cs)
  | lexeme {C : LexicalClass} {kind : Kind} {text input : List Char} :
      ¬ ['/', '/'] <+: input → C.Longest text input → C.Names text kind →
      Fits (.lexeme kind text) input
  /-- A string that is not closed is the last piece. -/
  | openString {body : List Char} : '"' ∉ body → Fits (.openString ('"' :: body)) ('"' :: body)
  | stray {c : Char} {cs : List Char} :
      c ≠ '\n' → ¬(c = ' ' ∨ c = '\t' ∨ c = '\r') → c ≠ '"' →
      (∀ (C : LexicalClass) text, text <+: c :: cs → ¬ C.Has text) → Fits (.stray c) (c :: cs)

/-- Pieces that make up a source, each of them where it fits. -/
structure Division (source : List Char) (pieces : List Piece) : Prop where
  whole : pieces.flatMap text = source
  nonempty : ∀ piece ∈ pieces, piece.text ≠ []
  fits : ∀ before piece behind, pieces = before ++ piece :: behind →
    piece.Fits (piece.text ++ behind.flatMap text)

/-! ### Characters -/

/-- The digits of the scanner are the ten of the text. -/
theorem isDigit_iff (c : Char) : c.isDigit = true ↔ IsDigit c := by
  simp [Char.isDigit, IsDigit, Char.le_def]

theorem isLetter_iff (c : Char) : isLetter c = true ↔ IsAlpha c := by
  have halpha : c.isAlpha = (c.isUpper || c.isLower) := rfl
  have hupper : c.isUpper = decide ('A' ≤ c ∧ c ≤ 'Z') := rfl
  have hlower : c.isLower = (decide ('a' ≤ c) && decide (c ≤ 'z')) := rfl
  simp only [isLetter, halpha, hupper, hlower, IsAlpha, Bool.or_eq_true, Bool.and_eq_true,
    decide_eq_true_eq, beq_iff_eq]
  rw [or_assoc, or_left_comm]

/-- A word goes on with letters, underscores and digits. -/
theorem isWordChar_iff (c : Char) : isWordChar c = true ↔ IsAlpha c ∨ IsDigit c := by
  simp [isWordChar, isLetter_iff, isDigit_iff]

theorem not_isDigit_of_isLetter {c : Char} (h : isLetter c = true) : c.isDigit = false := by
  rw [← Bool.not_eq_true, isDigit_iff]
  rintro ⟨-, hle⟩
  rcases (isLetter_iff c).1 h with ⟨hge, -⟩ | ⟨hge, -⟩ | rfl
  · exact absurd (Char.le_trans hge hle) (by decide)
  · exact absurd (Char.le_trans hge hle) (by decide)
  · exact absurd hle (by decide)

theorem isBlank_iff (c : Char) : isBlank c = true ↔ c = ' ' ∨ c = '\t' ∨ c = '\r' := by
  simp [isBlank, or_assoc]

/-! ### Longest beginnings -/

/-- The characters of a class that an input begins with are as many as can be. -/
theorem length_le_takeWhile {p : Char → Bool} {text input : List Char} (hstarts : text <+: input)
    (htext : ∀ c ∈ text, p c = true) : text.length ≤ (input.takeWhile p).length := by
  rcases hstarts with ⟨rest, rfl⟩
  rw [List.takeWhile_append_of_pos htext, List.length_append]
  exact Nat.le_add_right _ _

/-- Taking letters and digits for as long as there are any takes the longest word. -/
theorem longest_word {c : Char} (cs : List Char) (hc : isLetter c = true) :
    LexicalClass.word.Longest (c :: cs.takeWhile isWordChar) (c :: cs) := by
  refine ⟨⟨c, _, rfl, (isLetter_iff c).1 hc, ?_⟩, ?_, ?_⟩
  · intro d hd
    exact (isWordChar_iff d).1 (List.all_eq_true.1 List.all_takeWhile d hd)
  · exact List.cons_prefix_cons.2 ⟨rfl, List.takeWhile_prefix _⟩
  · rintro _ hstarts ⟨d, ds, rfl, -, hds⟩
    have hrest := (List.cons_prefix_cons.1 hstarts).2
    have hle := length_le_takeWhile hrest fun e he => (isWordChar_iff e).2 (hds e he)
    exact Nat.succ_le_succ hle

/-- A run of characters ends at the first one that is of another sort. -/
theorem takeWhile_stop {p : Char → Bool} {body : List Char} {stop : Char}
    (hbody : ∀ c ∈ body, p c = true) (hstop : p stop = false) (rest : List Char) :
    (body ++ stop :: rest).takeWhile p = body ∧
      (body ++ stop :: rest).dropWhile p = stop :: rest := by
  constructor
  · simp [List.takeWhile_append_of_pos hbody, hstop]
  · simp [List.dropWhile_append_of_pos hbody, hstop]

/-- What has only characters that are taken is taken as a whole. -/
theorem takeWhile_all {p : Char → Bool} {body : List Char} (hbody : ∀ c ∈ body, p c = true) :
    body.takeWhile p = body ∧ body.dropWhile p = [] := by
  have htake : (body ++ []).takeWhile p = body ++ [] := List.takeWhile_append_of_pos hbody
  have hdrop : (body ++ []).dropWhile p = [] := List.dropWhile_append_of_pos hbody
  rw [List.append_nil] at htake hdrop
  exact ⟨htake, hdrop⟩

theorem takeWhile_quote {body : List Char} (h : '"' ∉ body) (rest : List Char) :
    (body ++ '"' :: rest).takeWhile (· != '"') = body ∧
      (body ++ '"' :: rest).dropWhile (· != '"') = '"' :: rest := by
  refine takeWhile_stop ?_ rfl rest
  intro c hc
  simp only [bne_iff_ne]
  rintro rfl
  exact h hc

/-- A string ends at the first quote, so no other string begins there. -/
theorem longest_string {body : List Char} (h : '"' ∉ body) (rest : List Char) :
    LexicalClass.string.Longest ('"' :: body ++ ['"']) ('"' :: body ++ '"' :: rest) := by
  refine ⟨⟨body, h, rfl⟩, ⟨rest, by simp⟩, ?_⟩
  rintro _ ⟨rest', heq⟩ ⟨body', h', rfl⟩
  have htail : body' ++ '"' :: rest' = body ++ '"' :: rest := by simpa using heq
  have hsame : body' = body := by
    rw [← (takeWhile_quote h' rest').1, htail, (takeWhile_quote h rest).1]
  subst hsame
  exact Nat.le_refl _

/-- The digits of a fraction come behind a point. -/
theorem fraction_eq_some {cs digits rest : List Char} (h : fraction cs = some (digits, rest)) :
    digits ≠ [] ∧ cs = '.' :: digits ++ rest ∧ digits = cs.tail.takeWhile Char.isDigit := by
  unfold fraction at h
  split at h
  · split at h
    · rename_i d cs hd
      cases h
      simp [hd]
    · cases h
  · cases h

/-- A point with digits behind it is a fraction. -/
theorem fraction_ne_none {fraction' rest : List Char} (hne : fraction' ≠ [])
    (hdigits : ∀ d ∈ fraction', d.isDigit = true) : fraction ('.' :: fraction' ++ rest) ≠ none := by
  cases fraction' with
  | nil => exact absurd rfl hne
  | cons d ds => simp [fraction, hdigits d List.mem_cons_self]

/-- The text of a number: its digits, and the fraction if there is one. -/
theorem number_eq (c : Char) (cs : List Char) :
    number c cs = match fraction (cs.dropWhile Char.isDigit) with
      | some (digits, rest) =>
        (.lexeme .number (c :: cs.takeWhile Char.isDigit ++ '.' :: digits), rest)
      | none => (.lexeme .number (c :: cs.takeWhile Char.isDigit), cs.dropWhile Char.isDigit) := rfl

/-- A number with a fraction takes all digits before the point. -/
theorem digits_before_point {c : Char} {cs whole rest : List Char} (hc : c.isDigit = true)
    (hwhole : ∀ d ∈ whole, d.isDigit = true) (heq : whole ++ '.' :: rest = c :: cs) :
    whole = c :: cs.takeWhile Char.isDigit ∧ '.' :: rest = cs.dropWhile Char.isDigit := by
  rcases takeWhile_stop hwhole (rfl : Char.isDigit '.' = false) rest with ⟨htake, hdrop⟩
  rw [heq] at htake hdrop
  constructor
  · rw [← htake, List.takeWhile_cons_of_pos hc]
  · rw [← hdrop, List.dropWhile_cons_of_pos hc]

/-- A number takes its digits, and a fraction only if a digit follows the point. -/
theorem longest_number {c : Char} (cs : List Char) (hc : c.isDigit = true) :
    ∃ text, (number c cs).1 = .lexeme .number text ∧
      LexicalClass.number.Longest text (c :: cs) := by
  -- The whole part is every digit at the front.
  let whole := c :: cs.takeWhile Char.isDigit
  have hwhole : ∀ d ∈ whole, IsDigit d := by
    intro d hd
    rcases List.mem_cons.1 hd with rfl | hd
    · exact (isDigit_iff d).1 hc
    · exact (isDigit_iff d).1 (List.all_eq_true.1 List.all_takeWhile d hd)
  have hsplit : whole ++ cs.dropWhile Char.isDigit = c :: cs :=
    congrArg (c :: ·) List.takeWhile_append_dropWhile
  -- So no other whole part is longer.
  have hinteger : ∀ other, other <+: c :: cs → (∀ d ∈ other, IsDigit d) →
      other.length ≤ whole.length := by
    intro other hstarts hother
    have hle := length_le_takeWhile hstarts fun d hd => (isDigit_iff d).2 (hother d hd)
    rwa [List.takeWhile_cons_of_pos hc] at hle
  rw [number_eq]
  cases hfraction : fraction (cs.dropWhile Char.isDigit) with
  | none =>
      refine ⟨whole, rfl, ⟨whole, List.cons_ne_nil _ _, hwhole, .inl rfl⟩, ⟨_, hsplit⟩, ?_⟩
      rintro _ hstarts ⟨whole', -, hwhole', rfl | ⟨fraction', hne, hdigits, rfl⟩⟩
      · exact hinteger _ hstarts hwhole'
      -- A number with a fraction would have been read with its fraction.
      · rcases hstarts with ⟨rest, heq⟩
        rw [List.append_assoc, List.cons_append] at heq
        have hdrop := (digits_before_point hc (fun d hd => (isDigit_iff d).2 (hwhole' d hd)) heq).2
        rw [← hdrop] at hfraction
        exact absurd hfraction
          (fraction_ne_none hne fun d hd => (isDigit_iff d).2 (hdigits d hd))
  | some part =>
      rcases part with ⟨digits, rest⟩
      rcases fraction_eq_some hfraction with ⟨hne, hrest, hdigits⟩
      refine ⟨whole ++ '.' :: digits, rfl, ⟨whole, List.cons_ne_nil _ _, hwhole,
        .inr ⟨digits, hne, ?_, rfl⟩⟩, ⟨rest, ?_⟩, ?_⟩
      · intro d hd
        rw [hdigits] at hd
        exact (isDigit_iff d).1 (List.all_eq_true.1 List.all_takeWhile d hd)
      · rw [← hsplit, hrest]
        simp
      · rintro _ hstarts ⟨whole', -, hwhole', rfl | ⟨fraction', -, hdigits', rfl⟩⟩
        · have hle := hinteger _ hstarts hwhole'
          rw [List.length_append]
          omega
        -- The point settles where the whole part ends, so that only the fractions are left to
        -- compare.
        · rcases hstarts with ⟨rest', heq⟩
          rw [List.append_assoc, List.cons_append] at heq
          rcases digits_before_point hc (fun d hd => (isDigit_iff d).2 (hwhole' d hd)) heq with
            ⟨rfl, hdrop⟩
          have hle : fraction'.length ≤ digits.length := by
            rw [hdigits, ← hdrop]
            exact length_le_takeWhile ⟨rest', rfl⟩ fun d hd => (isDigit_iff d).2 (hdigits' d hd)
          simp only [whole, List.length_append, List.length_cons]
          omega

/-! ### Operators -/

/-- The marks of one character are what the list of punctuation has. -/
theorem single?_eq_some {c : Char} {kind : Kind} (h : single? c = some kind) :
    kind ∈ Kind.punctuation ∧ kind.text.toList = [c] := by
  unfold single? at h
  split at h <;> cases h <;> exact ⟨by decide, rfl⟩

/-- The marks of two characters all end with an equals sign. -/
theorem double?_eq_some {c : Char} {kind : Kind} (h : double? c = some kind) :
    kind ∈ Kind.punctuation ∧ kind.text.toList = [c, '='] := by
  unfold double? at h
  split at h <;> cases h <;> exact ⟨by decide, rfl⟩

/-- Every operator is a mark of one character, or such a mark together with `=`. -/
theorem operator_cases {kind : Kind} (h : kind ∈ Kind.punctuation) :
    (∃ c, kind.text.toList = [c] ∧ single? c = some kind) ∨
      ∃ c, kind.text.toList = [c, '='] ∧ double? c = some kind ∧ (single? c).isSome = true := by
  simp only [Kind.punctuation, List.mem_cons, List.not_mem_nil, or_false] at h
  rcases h with rfl | rfl | rfl | rfl | rfl | rfl | rfl | rfl | rfl | rfl | rfl | rfl | rfl | rfl |
    rfl | rfl | rfl | rfl | rfl
  all_goals first
    | exact .inl ⟨_, rfl, rfl⟩
    | exact .inr ⟨_, rfl, rfl, rfl⟩

/-- Two characters come before one. -/
theorem longest_double {c : Char} {kind : Kind} (h : double? c = some kind) (rest : List Char) :
    LexicalClass.operator.Longest [c, '='] (c :: '=' :: rest) := by
  rcases double?_eq_some h with ⟨hmem, htext⟩
  refine ⟨⟨kind, hmem, htext⟩, ⟨rest, rfl⟩, ?_⟩
  rintro _ - ⟨kind', hmem', rfl⟩
  rcases operator_cases hmem' with ⟨c', htext', -⟩ | ⟨c', htext', -⟩
  · simp [htext']
  · simp [htext']

/-- One character is the longest mark if no equals sign makes it a longer one. -/
theorem longest_single {c : Char} {kind : Kind} {cs : List Char} (h : single? c = some kind)
    (hdouble : ∀ kind', double? c = some kind' → cs.head? ≠ some '=') :
    LexicalClass.operator.Longest [c] (c :: cs) := by
  rcases single?_eq_some h with ⟨hmem, htext⟩
  refine ⟨⟨kind, hmem, htext⟩, ⟨cs, rfl⟩, ?_⟩
  rintro _ ⟨rest, heq⟩ ⟨kind', hmem', rfl⟩
  rcases operator_cases hmem' with ⟨c', htext', -⟩ | ⟨c', htext', hsome, -⟩
  · simp [htext']
  · rw [htext'] at heq
    cases heq
    exact absurd rfl (hdouble kind' hsome)

/-! ### Which piece is taken -/

/-- A character that is told from others by what it is. -/
theorem ne_of_test {p : Char → Bool} {c : Char} (h : p c = true) {d : Char} (hd : p d = false) :
    c ≠ d := by
  rintro rfl
  rw [h] at hd
  cases hd

/-- A letter begins a word, and nothing else. -/
theorem next_of_letter {c : Char} (cs : List Char) (h : isLetter c = true) :
    next c cs = word c cs := by
  have hblank : ¬ isBlank c = true := by
    rw [isBlank_iff]
    rintro (rfl | rfl | rfl) <;> exact absurd h (by decide)
  unfold next
  rw [if_neg (ne_of_test h rfl), if_neg hblank, if_neg fun hc => ne_of_test h rfl hc.1,
    if_neg (by simp [not_isDigit_of_isLetter h]), if_neg (ne_of_test h rfl), if_pos h]

/-- A digit begins a number, and nothing else. -/
theorem next_of_digit {c : Char} (cs : List Char) (h : c.isDigit = true) :
    next c cs = number c cs := by
  have hblank : ¬ isBlank c = true := by
    rw [isBlank_iff]
    rintro (rfl | rfl | rfl) <;> exact absurd h (by decide)
  unfold next
  rw [if_neg (ne_of_test h rfl), if_neg hblank, if_neg fun hc => ne_of_test h rfl hc.1, if_pos h]

theorem next_quote (cs : List Char) : next '"' cs = string cs := rfl

theorem next_of_single {c : Char} {cs : List Char} {kind : Kind} (h : single? c = some kind)
    (hslash : ¬ ['/', '/'] <+: c :: cs) : next c cs = punctuation c cs := by
  have hcomment : ¬(c = '/' ∧ cs.head? = some '/') := by
    rintro ⟨rfl, hhead⟩
    refine hslash (List.cons_prefix_cons.2 ⟨rfl, ?_⟩)
    cases cs with
    | nil => cases hhead
    | cons d ds => exact List.cons_prefix_cons.2 ⟨by simpa using hhead.symm, List.nil_prefix⟩
  unfold single? at h
  unfold next
  rw [if_neg hcomment]
  split at h <;> first | rfl | cases h

/-- A character that starts nothing. -/
theorem next_of_stray {c : Char} (cs : List Char) (hnewline : c ≠ '\n') (hblank : isBlank c = false)
    (hdigit : c.isDigit = false) (hquote : c ≠ '"') (hletter : isLetter c = false)
    (hsingle : single? c = none) : next c cs = (.stray c, cs) := by
  have hslash : c ≠ '/' := by
    rintro rfl
    cases hsingle
  have hdouble : double? c = none := by
    cases hdouble : double? c with
    | none => rfl
    | some kind =>
        unfold double? at hdouble
        split at hdouble <;> cases hdouble <;> cases hsingle
  simp [next, hnewline, hblank, hslash, hdigit, hquote, hletter, punctuation, hdouble, mark, hsingle]

/-- A word is a keyword exactly if it is spelled like one. -/
theorem names_word (c : Char) (cs : List Char) :
    ∃ kind, (word c cs).1 = .lexeme kind (c :: cs.takeWhile isWordChar) ∧
      LexicalClass.word.Names (c :: cs.takeWhile isWordChar) kind := by
  refine ⟨_, rfl, ?_⟩
  cases h : Kind.keyword? (String.ofList (c :: cs.takeWhile isWordChar)) with
  | none =>
      refine .inr ⟨rfl, ?_⟩
      intro keyword hkeyword htext
      refine absurd (List.find?_eq_none.1 h keyword hkeyword) ?_
      simp [← htext]
  | some kind =>
      rcases Kind.text_of_keyword? h with ⟨hmem, htext⟩
      exact .inl ⟨hmem, by simp [htext]⟩

/-- What a lexeme of a class begins with. -/
def Begins : LexicalClass → Char → Prop
  | .word, c => isLetter c = true
  | .number, c => c.isDigit = true
  | .string, c => c = '"'
  | .operator, c => (single? c).isSome = true

/-- Which class a piece is of shows in its first character. -/
theorem begins_of_has {C : LexicalClass} {text cs : List Char} {c : Char} (h : C.Has text)
    (hstarts : text <+: c :: cs) : Begins C c := by
  -- Each class can be told by its first character.
  cases C with
  | word =>
      rcases h with ⟨d, ds, rfl, hd, -⟩
      rw [← (List.cons_prefix_cons.1 hstarts).1]
      exact (isLetter_iff d).2 hd
  | number =>
      rcases h with ⟨whole, hne, hdigits, htext⟩
      cases whole with
      | nil => exact absurd rfl hne
      | cons d ds =>
          have hd : d = c := by
            rcases htext with rfl | ⟨fraction, -, -, rfl⟩
            · exact (List.cons_prefix_cons.1 hstarts).1
            · exact (List.cons_prefix_cons.1 hstarts).1
          rw [← hd]
          exact (isDigit_iff d).2 (hdigits d List.mem_cons_self)
  | string =>
      rcases h with ⟨body, -, rfl⟩
      exact (List.cons_prefix_cons.1 hstarts).1.symm
  | operator =>
      rcases h with ⟨kind, hmem, rfl⟩
      rcases operator_cases hmem with ⟨d, htext, hd⟩ | ⟨d, htext, -, hd⟩
      · rw [htext] at hstarts
        rw [← (List.cons_prefix_cons.1 hstarts).1]
        simp [Begins, hd]
      · rw [htext] at hstarts
        rw [← (List.cons_prefix_cons.1 hstarts).1]
        exact hd

/-- A comment goes on to the end of its line. -/
theorem fits_comment (cs : List Char) : (next '/' ('/' :: cs)).1.Fits ('/' :: '/' :: cs) := by
  have hnext : (next '/' ('/' :: cs)).1 = .comment ('/' :: '/' :: cs.takeWhile (· != '\n')) := rfl
  have hwhole : '/' :: '/' :: cs =
      '/' :: '/' :: cs.takeWhile (· != '\n') ++ cs.dropWhile (· != '\n') := by
    simp [List.takeWhile_append_dropWhile]
  rw [hnext, hwhole]
  refine .comment ?_ ?_
  · intro hmem
    simpa using List.all_eq_true.1 List.all_takeWhile _ hmem
  · have hhead := List.head?_dropWhile_not (· != '\n') cs
    cases hrest : cs.dropWhile (· != '\n') with
    | nil => exact .inl rfl
    | cons d ds =>
        rw [hrest] at hhead
        exact .inr (by simpa using hhead)

/-- A string without an end takes all that remains. -/
theorem fits_string (cs : List Char) (hslash : ¬ ['/', '/'] <+: '"' :: cs) :
    (string cs).1.Fits ('"' :: cs) := by
  have hwhole := List.takeWhile_append_dropWhile (p := (· != '"')) (l := cs)
  have hbody : '"' ∉ cs.takeWhile (· != '"') := by
    intro hmem
    simpa using List.all_eq_true.1 List.all_takeWhile _ hmem
  have hhead := List.head?_dropWhile_not (· != '"') cs
  unfold string
  dsimp only
  -- Either no quote ends the string, or the first one does.
  cases hrest : cs.dropWhile (· != '"') with
  | nil =>
      rw [hrest, List.append_nil] at hwhole
      rw [hwhole] at hbody ⊢
      exact .openString hbody
  | cons q rest =>
      rw [hrest] at hhead
      have hq : q = '"' := by simpa using hhead
      subst hq
      rw [hrest] at hwhole
      have hinput : '"' :: cs.takeWhile (· != '"') ++ '"' :: rest = '"' :: cs :=
        congrArg ('"' :: ·) hwhole
      have hlongest := longest_string hbody rest
      rw [hinput] at hlongest
      exact .lexeme hslash hlongest rfl

theorem punctuation_double {c : Char} {kind : Kind} (h : double? c = some kind) (rest : List Char) :
    punctuation c ('=' :: rest) = (.lexeme kind [c, '='], rest) := by
  simp [punctuation, h]

theorem punctuation_single {c : Char} {cs : List Char}
    (h : ∀ kind, double? c = some kind → cs.head? ≠ some '=') : punctuation c cs = mark c cs := by
  unfold punctuation
  split
  · rename_i kind rest hdouble
    exact absurd rfl (h kind hdouble)
  · rfl

/-- A mark that may be made longer by an equals sign is, where there is one. -/
theorem fits_punctuation {c : Char} {cs : List Char} {kind : Kind} (hsingle : single? c = some kind)
    (hslash : ¬ ['/', '/'] <+: c :: cs) : (punctuation c cs).1.Fits (c :: cs) := by
  by_cases hhead : ∀ kind', double? c = some kind' → cs.head? ≠ some '='
  · rw [punctuation_single hhead, mark, hsingle]
    exact .lexeme hslash (longest_single hsingle hhead) (single?_eq_some hsingle)
  · simp only [Classical.not_forall, Classical.not_not, exists_prop] at hhead
    rcases hhead with ⟨kind', hdouble, hhead⟩
    rcases List.head?_eq_some_iff.1 hhead with ⟨rest, rfl⟩
    rw [punctuation_double hdouble]
    exact .lexeme hslash (longest_double hdouble rest) (double?_eq_some hdouble)

/-- The piece that is taken off an input fits. -/
theorem fits_next (c : Char) (cs : List Char) : (next c cs).1.Fits (c :: cs) := by
  -- The cases are the tests that `next` makes, in its order.
  by_cases hnewline : c = '\n'
  · rw [hnewline]
    exact .newline
  by_cases hblank : isBlank c = true
  · have hnext : next c cs = (.blank c, cs) := by simp [next, hnewline, hblank]
    rw [hnext]
    exact .blank ((isBlank_iff c).1 hblank)
  by_cases hslash : ['/', '/'] <+: c :: cs
  · rcases hslash with ⟨ds, heq⟩
    cases heq
    exact fits_comment ds
  by_cases hdigit : c.isDigit = true
  · rcases longest_number cs hdigit with ⟨text, htext, hlongest⟩
    rw [next_of_digit cs hdigit, htext]
    exact .lexeme hslash hlongest rfl
  by_cases hletter : isLetter c = true
  · rcases names_word c cs with ⟨kind, heq, hnames⟩
    rw [next_of_letter cs hletter, heq]
    exact .lexeme hslash (longest_word cs hletter) hnames
  by_cases hquote : c = '"'
  · rw [hquote] at hslash ⊢
    exact fits_string cs hslash
  cases hsingle : single? c with
  | none =>
      rw [next_of_stray cs hnewline (by simpa using hblank) (by simpa using hdigit) hquote
        (by simpa using hletter) hsingle]
      refine .stray hnewline (fun h => hblank ((isBlank_iff c).2 h)) hquote ?_
      intro C text hstarts hhas
      have hbegins := begins_of_has hhas hstarts
      cases C with
      | word => exact hletter hbegins
      | number => exact hdigit hbegins
      | string => exact hquote hbegins
      | operator => simp [Begins, hsingle] at hbegins
  | some kind =>
      rw [next_of_single hsingle hslash]
      exact fits_punctuation hsingle hslash

/-- The kind of a lexeme is determined by its class and its text. -/
theorem names_unique {C : LexicalClass} {text : List Char} {kind kind' : Kind}
    (h : C.Names text kind) (h' : C.Names text kind') : kind' = kind := by
  have hkeywords : ∀ k ∈ Kind.keywords, ∀ k' ∈ Kind.keywords, k.text.toList = k'.text.toList →
      k = k' := by decide
  have hpunctuation : ∀ k ∈ Kind.punctuation, ∀ k' ∈ Kind.punctuation,
      k.text.toList = k'.text.toList → k = k' := by decide
  cases C with
  | word =>
      rcases h with ⟨hmem, rfl⟩ | ⟨rfl, hnone⟩
      · rcases h' with ⟨hmem', htext'⟩ | ⟨-, hnone'⟩
        · exact hkeywords kind' hmem' kind hmem htext'
        · exact absurd rfl (hnone' kind hmem)
      · rcases h' with ⟨hmem', htext'⟩ | ⟨rfl, -⟩
        · exact absurd htext' (hnone kind' hmem')
        · rfl
  | number => exact h'.trans h.symm
  | string => exact h'.trans h.symm
  | operator =>
      rcases h with ⟨hmem, rfl⟩
      exact hpunctuation kind' h'.1 kind hmem h'.2

/-- Two lexemes of one class that fit the same input are the same. -/
theorem lexeme_unique {C : LexicalClass} {text text' input : List Char} {kind kind' : Kind}
    (h : C.Longest text input) (hkind : C.Names text kind) (h' : C.Longest text' input)
    (hkind' : C.Names text' kind') : lexeme kind' text' = lexeme kind text := by
  obtain rfl := h.unique h'
  rw [names_unique hkind hkind']

/-- The longest text of a class, where no comment begins, is what the scanner takes. -/
theorem next_of_lexeme {C : LexicalClass} {kind : Kind} {text cs : List Char} {c : Char}
    (hslash : ¬ ['/', '/'] <+: c :: cs) (hlongest : C.Longest text (c :: cs))
    (hnames : C.Names text kind) : (next c cs).1 = .lexeme kind text := by
  -- The scanner takes a longest lexeme of the class too, and there is only one.
  have hbegins := begins_of_has hlongest.has hlongest.starts
  cases C with
  | word =>
      rcases names_word c cs with ⟨kind', heq, hnames'⟩
      rw [next_of_letter cs hbegins, heq]
      exact lexeme_unique hlongest hnames (longest_word cs hbegins) hnames'
  | number =>
      rcases longest_number cs hbegins with ⟨text', heq, hlongest'⟩
      rw [next_of_digit cs hbegins, heq]
      exact lexeme_unique hlongest hnames hlongest' rfl
  | string =>
      obtain rfl : c = '"' := hbegins
      rcases hlongest.has with ⟨body, hbody, rfl⟩
      rcases hlongest.starts with ⟨rest, hrest⟩
      have hcs : cs = body ++ '"' :: rest := by simpa using hrest.symm
      rcases takeWhile_quote hbody rest with ⟨htake, hdrop⟩
      rw [next_quote, string, hcs, htake, hdrop, hnames]
  | operator =>
      rcases Option.isSome_iff_exists.1 hbegins with ⟨kind', hsingle⟩
      rw [next_of_single hsingle hslash]
      by_cases hhead : ∀ kind', double? c = some kind' → cs.head? ≠ some '='
      · rw [punctuation_single hhead, mark, hsingle]
        exact lexeme_unique hlongest hnames (longest_single hsingle hhead) (single?_eq_some hsingle)
      · simp only [Classical.not_forall, Classical.not_not, exists_prop] at hhead
        rcases hhead with ⟨kind'', hdouble, hhead⟩
        rcases List.head?_eq_some_iff.1 hhead with ⟨rest, rfl⟩
        rw [punctuation_double hdouble]
        exact lexeme_unique hlongest hnames (longest_double hdouble rest) (double?_eq_some hdouble)

/-- Only the piece that is taken off an input fits. -/
theorem next_of_fits {piece : Piece} {c : Char} {cs : List Char} (h : piece.Fits (c :: cs)) :
    (next c cs).1 = piece := by
  generalize hinput : c :: cs = input at h
  cases h with
  | newline =>
      cases hinput
      rfl
  | blank hblank =>
      cases hinput
      rcases hblank with rfl | rfl | rfl <;> rfl
  | @comment body ds hbody hds =>
      cases hinput
      change Piece.comment ('/' :: '/' :: (body ++ ds).takeWhile (· != '\n')) = _
      have hline : ∀ d ∈ body, (d != '\n') = true := by
        intro d hd
        simp only [bne_iff_ne]
        rintro rfl
        exact hbody hd
      have hend : ds.takeWhile (· != '\n') = [] := by
        rcases hds with rfl | hds
        · rfl
        · rcases List.head?_eq_some_iff.1 hds with ⟨rest, rfl⟩
          rfl
      rw [List.takeWhile_append_of_pos hline, hend, List.append_nil]
  | lexeme hslash hlongest hnames =>
      subst hinput
      exact next_of_lexeme hslash hlongest hnames
  | @openString body hbody =>
      cases hinput
      have hopen : ∀ d ∈ cs, (d != '"') = true := by
        intro d hd
        simp only [bne_iff_ne]
        rintro rfl
        exact hbody hd
      rcases takeWhile_all hopen with ⟨htake, hdrop⟩
      rw [next_quote, string, htake, hdrop]
  | stray hnewline hblank hquote hnone =>
      cases hinput
      -- Whatever else `next` tests for is the start of some lexeme, and there is none.
      have hsingle : single? c = none := by
        cases hsingle : single? c with
        | none => rfl
        | some kind =>
            rcases single?_eq_some hsingle with ⟨hmem, htext⟩
            exact absurd ⟨kind, hmem, htext⟩ (hnone .operator [c] ⟨cs, rfl⟩)
      have hletter : ¬ isLetter c = true := by
        intro hletter
        exact hnone .word _ (longest_word cs hletter).starts (longest_word cs hletter).has
      have hdigit : ¬ c.isDigit = true := by
        intro hdigit
        rcases longest_number cs hdigit with ⟨text, -, hlongest⟩
        exact hnone .number _ hlongest.starts hlongest.has
      have hblank' : isBlank c = false := by
        rw [← Bool.not_eq_true, isBlank_iff]
        exact hblank
      rw [next_of_stray cs hnewline hblank' (by simpa using hdigit) hquote (by simpa using hletter)
        hsingle]

/-- Of all pieces, the one that the scanner takes fits, and no other. -/
theorem fits_iff {piece : Piece} {c : Char} {cs : List Char} :
    piece.Fits (c :: cs) ↔ piece = (next c cs).1 :=
  ⟨fun h => (next_of_fits h).symm, fun h => h ▸ fits_next c cs⟩

/-! ### Whole sources -/

/-- A division is a piece that fits and a division of what is left. -/
theorem division_cons {piece : Piece} {pieces : List Piece} {source : List Char} :
    Division source (piece :: pieces) ↔
      piece.text ≠ [] ∧ piece.Fits source ∧
        ∃ rest, source = piece.text ++ rest ∧ Division rest pieces := by
  constructor
  · intro h
    have hwhole : piece.text ++ pieces.flatMap text = source := h.whole
    refine ⟨h.nonempty piece List.mem_cons_self, ?_, pieces.flatMap text, hwhole.symm, rfl, ?_, ?_⟩
    · rw [← hwhole]
      exact h.fits [] piece pieces rfl
    · exact fun p hp => h.nonempty p (List.mem_cons_of_mem _ hp)
    · rintro before p behind rfl
      exact h.fits (piece :: before) p behind rfl
  · rintro ⟨hne, hfits, rest, rfl, h⟩
    refine ⟨?_, List.forall_mem_cons.2 ⟨hne, h.nonempty⟩, ?_⟩
    · rw [List.flatMap_cons, h.whole]
    · intro before p behind heq
      cases before with
      | nil =>
          cases heq
          rwa [h.whole]
      | cons _ before =>
          cases heq
          exact h.fits before p behind rfl

theorem text_next_ne_nil (c : Char) (cs : List Char) : (next c cs).1.text ≠ [] := by
  intro hnil
  have htext := text_next c cs
  rw [hnil, List.nil_append] at htext
  have hlt := length_next_lt c cs
  rw [htext] at hlt
  exact Nat.lt_irrefl _ hlt

/-- The scanner divides its input, by induction on its length. -/
theorem division_divide (cs : List Char) : Division cs (divide cs) := by
  induction cs using divide.induct with
  | case1 =>
      rw [divide.eq_1]
      exact ⟨rfl, List.forall_mem_nil _, fun before _ _ heq => by cases before <;> cases heq⟩
  | case2 c cs ih =>
      rw [divide.eq_2]
      exact division_cons.2
        ⟨text_next_ne_nil c cs, fits_next c cs, _, (text_next c cs).symm, ih⟩

/-- There is only one division, since at every step only one piece fits. -/
theorem division_unique {cs : List Char} {pieces : List Piece} (h : Division cs pieces) :
    pieces = divide cs := by
  induction cs using divide.induct generalizing pieces with
  | case1 =>
      rw [divide.eq_1]
      cases pieces with
      | nil => rfl
      | cons piece pieces =>
          rcases division_cons.1 h with ⟨hne, -, rest, heq, -⟩
          exact absurd (List.append_eq_nil_iff.1 heq.symm).1 hne
  | case2 c cs ih =>
      cases pieces with
      | nil => cases h.whole
      | cons piece pieces =>
          rcases division_cons.1 h with ⟨-, hfits, rest, heq, hrest⟩
          -- A piece that fits is the one that is taken off, so the rests are the same too.
          obtain rfl := fits_iff.1 hfits
          have hsame : rest = (next c cs).2 :=
            List.append_cancel_left (heq.symm.trans (text_next c cs).symm)
          rw [hsame] at hrest
          rw [divide.eq_2, ih hrest]

/-! ### Lexemes and faults -/

def lexeme? : Piece → Option (Kind × List Char)
  | .lexeme kind text => some (kind, text)
  | _ => none

/-- The fault that a piece on some line is. A string that is not closed is reported where it
ends. -/
def fault? (line : Nat) : Piece → Option StaticError
  | .stray _ => some (.ofScan .unexpectedCharacter line)
  | .openString text => some (.ofScan .unterminatedString (line + text.count '\n'))
  | _ => none

def faults (line : Nat) : List Piece → List StaticError
  | [] => []
  | piece :: pieces =>
    (piece.fault? line).toList ++ faults (line + piece.text.count '\n') pieces

end Piece

/-! ## Tokens -/

/-- The value that is written down by a lexeme. -/
inductive Denotes : Kind → List Char → Literal → Prop where
  | integer {whole : List Char} :
      (∀ d ∈ whole, IsDigit d) →
      Denotes .number whole (.number (Decimal.ofParts whole []).toNumber)
  | decimal {whole fraction : List Char} :
      (∀ d ∈ whole, IsDigit d) → (∀ d ∈ fraction, IsDigit d) →
      Denotes .number (whole ++ '.' :: fraction) (.number (Decimal.ofParts whole fraction).toNumber)
  | string {body : List Char} :
      '"' ∉ body → Denotes .string ('"' :: body ++ ['"']) (.string (String.ofList body))
  | other {kind : Kind} {text : List Char} :
      kind ≠ .number → kind ≠ .string → Denotes kind text .nil

namespace Token

/-- The literal of a token is the one that its class gives to its text. -/
theorem denotes_literalOf {C : LexicalClass} {text : List Char} {kind : Kind} (h : C.Has text)
    (hkind : C.Names text kind) : Denotes kind text (literalOf kind text) := by
  have hother : kind ≠ .number → kind ≠ .string → Denotes kind text (literalOf kind text) := by
    intro hnumber hstring
    have hnil : literalOf kind text = .nil := by
      unfold literalOf
      split <;> trivial
    rw [hnil]
    exact .other hnumber hstring
  -- The point is the first character of a number that is not a digit.
  have hpoint : ∀ {digits : List Char}, (∀ d ∈ digits, IsDigit d) →
      ∀ d ∈ digits, (d != '.') = true := by
    intro digits hdigits d hd
    simp only [bne_iff_ne]
    rintro rfl
    exact absurd (hdigits _ hd).1 (by decide)
  cases C with
  | word =>
      rcases hkind with ⟨hmem, -⟩ | ⟨rfl, -⟩
      · refine hother ?_ ?_ <;> (rintro rfl; exact absurd hmem (by decide))
      · exact hother (by decide) (by decide)
  | number =>
      obtain rfl : kind = .number := hkind
      rcases h with ⟨whole, -, hwhole, rfl | ⟨fraction, -, hfraction, rfl⟩⟩
      · rcases Piece.takeWhile_all (hpoint hwhole) with ⟨htake, hdrop⟩
        rw [literalOf, htake, hdrop]
        exact .integer hwhole
      · rcases Piece.takeWhile_stop (hpoint hwhole) (rfl : ('.' != '.') = false) fraction with
          ⟨htake, hdrop⟩
        rw [literalOf, htake, hdrop]
        exact .decimal hwhole hfraction
  | string =>
      obtain rfl : kind = .string := hkind
      rcases h with ⟨body, hbody, rfl⟩
      have hliteral : literalOf .string ('"' :: body ++ ['"']) = .string (String.ofList body) := by
        simp [literalOf]
      rw [hliteral]
      exact .string hbody
  | operator =>
      refine hother ?_ ?_ <;> (rintro rfl; exact absurd hkind.1 (by decide))

/-- The tokens are the lexemes of the division, in its order. -/
theorem map_lexemes (pieces : List Piece) (p : Position) :
    (lexemes p pieces).map (fun t => (t.kind, t.lexeme.toList)) = pieces.filterMap Piece.lexeme? := by
  induction pieces generalizing p with
  | nil => rfl
  | cons piece pieces ih =>
      cases piece with
      | lexeme kind text => simp [lexemes, Piece.lexeme?, ih, ofLexeme]
      | _ => exact ih _

/-- Every lexeme that fits somewhere gives a token with its value. -/
theorem denotes_lexemes {pieces : List Piece}
    (h : ∀ piece ∈ pieces, ∃ input, piece.Fits input) (p : Position) :
    ∀ t ∈ lexemes p pieces, Denotes t.kind t.lexeme.toList t.literal := by
  induction pieces generalizing p with
  | nil => exact List.forall_mem_nil _
  | cons piece pieces ih =>
      rcases List.forall_mem_cons.1 h with ⟨⟨input, hfits⟩, hrest⟩
      cases hfits with
      | lexeme _ hlongest hnames =>
          refine List.forall_mem_cons.2 ⟨?_, ih hrest _⟩
          simpa [ofLexeme] using denotes_literalOf hlongest.has hnames
      | _ => exact ih hrest _

/-- Each faulty piece is reported, on the line that its text ends on. -/
theorem errors_divide (cs : List Char) (p : Position) :
    (ofPieces p (Piece.divide cs)).2 = Piece.faults p.line (Piece.divide cs) := by
  induction cs using Piece.divide.induct generalizing p with
  | case1 =>
      rw [Piece.divide.eq_1]
      rfl
  | case2 c cs ih =>
      have hline := Position.line_next p c cs
      rw [Piece.divide.eq_2, Piece.faults, ← hline, ← ih]
      -- only a string without an end is on another line than it begins on
      cases hpiece : (Piece.next c cs).1 with
      | openString text =>
          rw [hpiece] at hline
          simp only [ofPieces, Piece.fault?, hline]
          rfl
      | _ => rfl

/-- A source has one division into pieces that fit. Its tokens are the lexemes, with the end of
input behind them, and its errors are the pieces that are faulty. -/
theorem scan_divides (source : String) :
    ∃ pieces tokens eof, Piece.Division source.toList pieces ∧
      (∀ pieces', Piece.Division source.toList pieces' → pieces' = pieces) ∧
      (scan source).1 = tokens ++ [eof] ∧ eof.kind = .eof ∧ (∀ t ∈ tokens, t.kind ≠ .eof) ∧
      tokens.map (fun t => (t.kind, t.lexeme.toList)) = pieces.filterMap Piece.lexeme? ∧
      (∀ t ∈ tokens, Denotes t.kind t.lexeme.toList t.literal) ∧
      (scan source).2 = Piece.faults 1 pieces := by
  let pieces := Piece.divide source.toList
  have hdivision : Piece.Division source.toList pieces := Piece.division_divide source.toList
  rcases scan_eq_append source with ⟨ts, eof, hscan, heof, hts⟩
  rcases ofPieces_eq pieces .start with ⟨eof', htokens⟩
  obtain ⟨rfl, -⟩ := List.append_inj' (hscan.symm.trans htokens) rfl
  refine ⟨pieces, _, eof, hdivision, fun _ => Piece.division_unique, hscan, heof,
    fun t ht => (hts t ht).2, map_lexemes pieces .start, denotes_lexemes ?_ .start,
    errors_divide source.toList .start⟩
  intro piece hpiece
  rcases List.append_of_mem hpiece with ⟨before, behind, heq⟩
  exact ⟨_, hdivision.fits before piece behind heq⟩

end Token

end LoxLang
