import LoxLang.Token.Lexer

/-!
# Sources one below the other

The tokens of a source that has been continued on a new line.

* `Piece.divide_break`: a line break ends every piece but an open string, so the two parts are
  divided on their own.
* `Position.line_divide` counts the lines of a source, from its pieces.
* `Token.scan_append_break`: behind the words and the faults of the first part come those of the
  second one, as many lines further down as there are breaks before it.
* `Token.scan_break` is the case without faults, and `Token.scan_continued` the one in which all
  strings of the first part are closed.
-/

namespace LoxLang

/-- How many line breaks a source has. -/
def lineBreaks (source : String) : Nat := source.toList.count '\n'

/-! ## Pieces -/

namespace Piece

/-- A run of characters goes no further than the first list if something stops it there, or if the
second list does. -/
theorem takeWhile_append_of_stop {p : Char → Bool} {xs ys : List Char}
    (h : xs.dropWhile p ≠ [] ∨ ys.takeWhile p = []) :
    (xs ++ ys).takeWhile p = xs.takeWhile p ∧ (xs ++ ys).dropWhile p = xs.dropWhile p ++ ys := by
  induction xs with
  | nil =>
      have hys : ys.takeWhile p = [] := h.resolve_left fun hne => hne rfl
      have hdrop := List.takeWhile_append_dropWhile (p := p) (l := ys)
      rw [hys, List.nil_append] at hdrop
      exact ⟨hys, hdrop⟩
  | cons x xs ih =>
      -- a character that is not taken stops both
      by_cases hx : p x = true
      · have hmore : xs.dropWhile p ≠ [] ∨ ys.takeWhile p = [] := by
          simpa [List.dropWhile_cons, hx] using h
        rcases ih hmore with ⟨htake, hdrop⟩
        exact ⟨by simp [hx, htake], by simp [hx, hdrop]⟩
      · exact ⟨by simp [hx], by simp [hx]⟩

section Break

variable (c : Char) (cs ds : List Char)

/-- Taking characters stops at a line break that is not taken, whatever comes behind it. -/
theorem takeWhile_break {p : Char → Bool} (hp : p '\n' = false) :
    (cs ++ '\n' :: ds).takeWhile p = cs.takeWhile p ∧
      (cs ++ '\n' :: ds).dropWhile p = cs.dropWhile p ++ '\n' :: ds :=
  takeWhile_append_of_stop (.inr (by simp [hp]))

/-- A fraction does not go on behind a line break. -/
theorem fraction_break : fraction (cs ++ '\n' :: ds) =
    (fraction cs).map fun part => (part.1, part.2 ++ '\n' :: ds) := by
  cases cs with
  | nil => rfl
  | cons c cs =>
      by_cases hc : c = '.'
      · subst hc
        cases cs with
        | nil => rfl
        | cons d rest =>
            rcases takeWhile_break rest ds (p := Char.isDigit) rfl with ⟨htake, hdrop⟩
            by_cases hd : d.isDigit = true <;> simp [fraction, hd, htake, hdrop]
      · simp [fraction, hc]

theorem number_break :
    number c (cs ++ '\n' :: ds) = ((number c cs).1, (number c cs).2 ++ '\n' :: ds) := by
  rcases takeWhile_break cs ds (p := Char.isDigit) rfl with ⟨htake, hdrop⟩
  unfold number
  dsimp only
  rw [htake, hdrop, fraction_break]
  cases fraction (cs.dropWhile Char.isDigit) <;> rfl

theorem word_break :
    word c (cs ++ '\n' :: ds) = ((word c cs).1, (word c cs).2 ++ '\n' :: ds) := by
  rcases takeWhile_break cs ds (p := isWordChar) rfl with ⟨htake, hdrop⟩
  unfold word
  rw [htake, hdrop]

/-- A string that is closed does not see what follows. -/
theorem string_break (h : ∀ text, (string cs).1 ≠ .openString text) :
    string (cs ++ '\n' :: ds) = ((string cs).1, (string cs).2 ++ '\n' :: ds) := by
  unfold string at h ⊢
  cases hrest : cs.dropWhile (· != '"') with
  | nil =>
      rw [hrest] at h
      exact absurd rfl (h _)
  | cons q rest =>
      have hstop : cs.dropWhile (· != '"') ≠ [] := hrest ▸ List.cons_ne_nil q rest
      have hclosed := takeWhile_append_of_stop (.inl hstop : _ ∨ ('\n' :: ds).takeWhile _ = [])
      rcases hclosed with ⟨htake, hdrop⟩
      rw [htake, hdrop, hrest]
      rfl

/-- No mark goes on behind a line break. -/
theorem punctuation_break :
    punctuation c (cs ++ '\n' :: ds) =
      ((punctuation c cs).1, (punctuation c cs).2 ++ '\n' :: ds) := by
  have hmark : mark c (cs ++ '\n' :: ds) = ((mark c cs).1, (mark c cs).2 ++ '\n' :: ds) := by
    unfold mark
    cases single? c <;> rfl
  unfold punctuation
  cases double? c with
  | none => exact hmark
  | some kind =>
      cases cs with
      | nil => exact hmark
      | cons d rest =>
          by_cases hd : d = '='
          · subst hd
            rfl
          · simpa [hd] using hmark

/-- A line break behind a source changes nothing about its first piece. -/
theorem next_break (h : ∀ text, (next c cs).1 ≠ .openString text) :
    next c (cs ++ '\n' :: ds) = ((next c cs).1, (next c cs).2 ++ '\n' :: ds) := by
  have hhead : (cs ++ '\n' :: ds).head? = some '/' ↔ cs.head? = some '/' := by
    cases cs <;> simp
  rcases takeWhile_break cs ds (p := (· != '\n')) rfl with ⟨htake, hdrop⟩
  unfold next at h ⊢
  simp only [hhead, htake, hdrop]
  -- a break, a blank, a comment, a number, a string, a word, or a mark
  split
  · rfl
  · split
    · rfl
    · split
      · rfl
      · split
        · exact number_break c cs ds
        · split
          · simp_all only [if_true, if_false]
            exact string_break cs ds h
          · split
            · exact word_break c cs ds
            · exact punctuation_break c cs ds

/-- The pieces of two sources, one below the other, are those of the first, a line break, and those
of the second. -/
theorem divide_break (h : ∀ text, .openString text ∉ divide cs) :
    divide (cs ++ '\n' :: ds) = divide cs ++ .newline :: divide ds := by
  induction cs using divide.induct with
  | case1 =>
      have hnext : next '\n' ds = (.newline, ds) := rfl
      rw [List.nil_append, divide.eq_2, hnext, divide.eq_1, List.nil_append]
  | case2 c cs ih =>
      rw [divide.eq_2] at h
      simp only [List.mem_cons, not_or] at h
      have hnext := next_break c cs ds fun text heq => (h text).1 heq.symm
      rw [List.cons_append, divide.eq_2, hnext, ih fun text => (h text).2, divide.eq_2 c cs,
        List.cons_append]

end Break

/-! ### Nothing is lost -/

/-- What is taken and what is left make up the input. -/
theorem text_number (c : Char) (cs : List Char) :
    (number c cs).1.text ++ (number c cs).2 = c :: cs := by
  have hwhole := List.takeWhile_append_dropWhile (p := Char.isDigit) (l := cs)
  unfold number
  dsimp only
  cases hfraction : fraction (cs.dropWhile Char.isDigit) with
  | none => exact congrArg (c :: ·) hwhole
  | some part =>
      have hrest : '.' :: part.1 ++ part.2 = cs.dropWhile Char.isDigit := by
        unfold fraction at hfraction
        split at hfraction
        · rename_i hdrop
          split at hfraction
          · cases hfraction
            rw [hdrop]
            simp
          · cases hfraction
        · cases hfraction
      rw [← hrest] at hwhole
      simpa [text] using hwhole

theorem text_string (cs : List Char) : (string cs).1.text ++ (string cs).2 = '"' :: cs := by
  have hwhole := List.takeWhile_append_dropWhile (p := (· != '"')) (l := cs)
  unfold string
  dsimp only
  cases hrest : cs.dropWhile (· != '"') with
  | nil =>
      rw [hrest] at hwhole
      simpa [text] using hwhole
  | cons q rest =>
      rw [hrest] at hwhole
      simpa [text] using hwhole

theorem text_punctuation (c : Char) (cs : List Char) :
    (punctuation c cs).1.text ++ (punctuation c cs).2 = c :: cs := by
  unfold punctuation
  split
  · rfl
  · unfold mark
    split <;> rfl

/-- No character is lost, and none is read twice. -/
theorem text_next (c : Char) (cs : List Char) : (next c cs).1.text ++ (next c cs).2 = c :: cs := by
  unfold next
  split
  · rename_i hc
    subst hc
    rfl
  · split
    · rfl
    · split
      · exact congrArg (c :: ·) List.takeWhile_append_dropWhile
      · split
        · exact text_number c cs
        · split
          · rename_i hc
            subst hc
            exact text_string cs
          · split
            · exact congrArg (c :: ·) List.takeWhile_append_dropWhile
            · exact text_punctuation c cs

/-- A comment ends before its line does. -/
theorem count_comment {c : Char} {cs text : List Char} (h : (next c cs).1 = .comment text) :
    text.count '\n' = 0 := by
  unfold next at h
  split at h
  · cases h
  · split at h
    · cases h
    · split at h
      -- This is the only test that ends in a comment.
      · rename_i hslash
        cases h
        rw [List.count_eq_zero, hslash.1]
        intro hmem
        have hbody := (List.mem_cons.1 hmem).resolve_left (by decide)
        simpa using List.all_eq_true.1 List.all_takeWhile _ hbody
      · split at h
        · unfold number at h
          dsimp only at h
          split at h <;> cases h
        · split at h
          · unfold string at h
            dsimp only at h
            split at h <;> cases h
          · split at h
            · cases h
            · unfold punctuation mark at h
              split at h
              · cases h
              · split at h <;> cases h

end Piece

/-! ## Positions -/

namespace Position

def lower (k : Nat) (p : Position) : Position := ⟨p.line + k, p.col⟩

/-- The line number counts line breaks, and nothing else. -/
theorem line_foldl_step (text : List Char) (p : Position) :
    (text.foldl step p).line = p.line + text.count '\n' := by
  induction text generalizing p with
  | nil => rfl
  | cons c text ih =>
      rw [List.foldl_cons, ih]
      by_cases hc : c = '\n'
      · simp [step, hc]
        omega
      · simp [step, hc]

/-- A piece moves the line on by the line breaks in its text. -/
theorem line_next (p : Position) (c : Char) (cs : List Char) :
    (p.after (Piece.next c cs).1).line = p.line + (Piece.next c cs).1.text.count '\n' := by
  cases hpiece : (Piece.next c cs).1 with
  | comment text =>
      rw [Piece.text, Piece.count_comment hpiece]
      rfl
  | _ => exact line_foldl_step _ p

/-- The line behind a source is as many further down as the source has breaks. -/
theorem line_divide (cs : List Char) (p : Position) :
    ((Piece.divide cs).foldl after p).line = p.line + cs.count '\n' := by
  induction cs using Piece.divide.induct generalizing p with
  | case1 => rw [Piece.divide.eq_1]; rfl
  | case2 c cs ih =>
      rw [Piece.divide.eq_2, List.foldl_cons, ih, line_next, ← Piece.text_next c cs,
        List.count_append, Nat.add_assoc]

/-- Starting further down changes lines by as much, and no columns. -/
theorem step_lower (k : Nat) (p : Position) (c : Char) : (p.lower k).step c = (p.step c).lower k := by
  unfold step
  split
  · simp [lower, Nat.add_right_comm]
  · rfl

theorem foldl_step_lower (k : Nat) (text : List Char) (p : Position) :
    text.foldl step (p.lower k) = (text.foldl step p).lower k := by
  induction text generalizing p with
  | nil => rfl
  | cons c text ih => rw [List.foldl_cons, step_lower, ih, List.foldl_cons]

theorem after_lower (k : Nat) (p : Position) (piece : Piece) :
    (p.lower k).after piece = (p.after piece).lower k := by
  cases piece with
  | comment text => rfl
  | _ => exact foldl_step_lower k _ p

end Position

/-! ## Tokens -/

def StaticError.lower (k : Nat) (e : StaticError) : StaticError := { e with line := e.line + k }

namespace Token

def lower (k : Nat) (t : Token) : Token := { t with line := t.line + k }

/-- The tokens of pieces that start at a place, without the end of input. -/
def lexemes (p : Position) : List Piece → List Token
  | [] => []
  | .lexeme kind text :: pieces =>
    ofLexeme kind text p :: lexemes (p.after (.lexeme kind text)) pieces
  | piece :: pieces => lexemes (p.after piece) pieces

/-- The tokens of two lists of pieces are those of the first and then those of the second, from
where the first one ends. -/
theorem ofPieces_append (xs ys : List Piece) (p : Position) :
    ofPieces p (xs ++ ys) =
      (lexemes p xs ++ (ofPieces (xs.foldl Position.after p) ys).1,
        (ofPieces p xs).2 ++ (ofPieces (xs.foldl Position.after p) ys).2) := by
  induction xs generalizing p with
  | nil => rfl
  | cons piece xs ih =>
      cases piece <;> simp [ofPieces, lexemes, ih]

/-- The last token is the end of the input. -/
theorem ofPieces_eq (pieces : List Piece) (p : Position) :
    ∃ eof, (ofPieces p pieces).1 = lexemes p pieces ++ [eof] := by
  have happend := ofPieces_append pieces [] p
  rw [List.append_nil] at happend
  exact ⟨_, congrArg Prod.fst happend⟩

/-- Pieces further down give the same words and the same faults further down. -/
theorem ofPieces_lower (k : Nat) (pieces : List Piece) (p : Position) :
    ofPieces (p.lower k) pieces =
      ((ofPieces p pieces).1.map (lower k), (ofPieces p pieces).2.map (.lower k)) := by
  induction pieces generalizing p with
  | nil => rfl
  | cons piece pieces ih =>
      simp only [ofPieces, Position.after_lower, ih]
      cases piece <;> rfl

/-- An open string is a fault of its own. -/
theorem openString_not_mem {p : Position} {pieces : List Piece}
    (h : ∀ e ∈ (ofPieces p pieces).2, e.fault ≠ .scan .unterminatedString) (text : List Char) :
    .openString text ∉ pieces := by
  induction pieces generalizing p with
  | nil => exact List.not_mem_nil
  | cons piece pieces ih =>
      intro hmem
      cases piece with
      | openString text' => exact h _ List.mem_cons_self rfl
      | stray c =>
          exact ih (fun e he => h e (List.mem_cons_of_mem _ he))
            ((List.mem_cons.1 hmem).resolve_left (by simp))
      | _ => exact ih h ((List.mem_cons.1 hmem).resolve_left (by simp))

/-- A source whose strings are closed, continued on a new line. What follows starts on a fresh line,
so its columns are those that it has on its own. -/
theorem scan_append_break {a : String} (b : String)
    (ha : ∀ e ∈ (scan a).2, e.fault ≠ .scan .unterminatedString) :
    scan (a ++ "\n" ++ b) =
      (lexemes .start (Piece.divide a.toList) ++ (scan b).1.map (lower (lineBreaks a + 1)),
        (scan a).2 ++ (scan b).2.map (.lower (lineBreaks a + 1))) := by
  let q := (Piece.divide a.toList).foldl Position.after .start
  have hseam : q.after .newline = Position.start.lower (lineBreaks a + 1) := by
    have hline : q.line = 1 + lineBreaks a := Position.line_divide a.toList .start
    simp [Position.after, Piece.text, Position.step, Position.lower, Position.start, hline,
      Nat.add_assoc]
  have hdivide : Piece.divide (a ++ "\n" ++ b).toList =
      Piece.divide a.toList ++ .newline :: Piece.divide b.toList := by
    rw [← Piece.divide_break _ _ (openString_not_mem ha)]
    simp
  -- Places are counted from the start of a line, so the second source is scanned as on its own,
  -- only further down.
  have hbehind : ofPieces q (.newline :: Piece.divide b.toList) =
      ofPieces (q.after .newline) (Piece.divide b.toList) := rfl
  unfold scan
  rw [hdivide, ofPieces_append, hbehind, hseam, ofPieces_lower]

/-- A source without a lexical fault, continued on a new line by another one. -/
theorem scan_break {a b : String} {ts : List Token} {eof : Token} (ha : scan a = (ts ++ [eof], []))
    (hb : (scan b).2 = []) :
    scan (a ++ "\n" ++ b) = (ts ++ (scan b).1.map (lower (lineBreaks a + 1)), []) := by
  rcases ofPieces_eq (Piece.divide a.toList) .start with ⟨eof', heq⟩
  have htokens : (scan a).1 = ts ++ [eof] := congrArg Prod.fst ha
  have hlexemes := (List.append_inj' (heq.symm.trans htokens) rfl).1
  rw [scan_append_break b (by simp [ha]), hlexemes, ha, hb]
  rfl

/-- A source whose strings are closed may have other faults. Its words and faults come first, and
then those of the second source, further down by the lines of the first one, in the same columns. -/
theorem scan_continued {a : String} (b : String)
    (ha : ∀ e ∈ (scan a).2, e.fault ≠ .scan .unterminatedString) :
    ∃ ts eof, (scan a).1 = ts ++ [eof] ∧ eof.kind = .eof ∧
      scan (a ++ "\n" ++ b) =
        (ts ++ (scan b).1.map (lower (lineBreaks a + 1)),
          (scan a).2 ++ (scan b).2.map (.lower (lineBreaks a + 1))) := by
  have htokens := congrArg Prod.fst (ofPieces_append (Piece.divide a.toList) [] .start)
  rw [List.append_nil] at htokens
  exact ⟨_, _, htokens, rfl, scan_append_break b ha⟩

/-- The hypothesis holds of a source that ends in a comment behind a stray character. -/
theorem scan_continued_comment :
    (∀ e ∈ (scan "1.@//").2, e.fault ≠ .scan .unterminatedString) ∧
      ∃ ts eof, (scan "1.@//").1 = ts ++ [eof] ∧ eof.kind = .eof ∧
        scan ("1.@//" ++ "\n" ++ "5\"") =
          (ts ++ (scan "5\"").1.map (lower (lineBreaks "1.@//" + 1)),
            (scan "1.@//").2 ++ (scan "5\"").2.map (.lower (lineBreaks "1.@//" + 1))) := by
  have ha : ∀ e ∈ (scan "1.@//").2, e.fault ≠ .scan .unterminatedString := by
    decide +kernel
  exact ⟨ha, scan_continued "5\"" ha⟩

def blankLines (n : Nat) : String := String.ofList (List.replicate n '\n')

theorem blankLines_zero_append (source : String) : blankLines 0 ++ source = source := by
  simp [blankLines]

theorem lineBreaks_blankLines (n : Nat) : lineBreaks (blankLines n) = n := by
  simp [lineBreaks, blankLines]

theorem divide_replicate (n : Nat) :
    Piece.divide (List.replicate n '\n') = List.replicate n .newline := by
  induction n with
  | zero => exact Piece.divide.eq_1
  | succ n ih =>
      have hnext : Piece.next '\n' (List.replicate n '\n') = (.newline, List.replicate n '\n') := rfl
      rw [List.replicate_succ, Piece.divide.eq_2, hnext, ih]
      rfl

/-- Empty lines have no tokens. -/
theorem scan_blankLines (n : Nat) :
    ∃ eof, scan (blankLines n) = ([eof], []) ∧ eof.kind = .eof := by
  have hpieces : ∀ p, ∃ eof, ofPieces p (List.replicate n .newline) = ([eof], []) ∧
      eof.kind = .eof := by
    induction n with
    | zero => exact fun p => ⟨_, rfl, rfl⟩
    | succ n ih =>
        intro p
        rcases ih (p.after .newline) with ⟨eof, heq, hkind⟩
        exact ⟨eof, by simp [List.replicate_succ, ofPieces, heq], hkind⟩
  rcases hpieces .start with ⟨eof, heq, hkind⟩
  exact ⟨eof, by simp [scan, blankLines, divide_replicate, heq], hkind⟩

end Token

end LoxLang
