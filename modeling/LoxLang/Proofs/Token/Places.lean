import Mathlib.Data.List.Induction
import LoxLang.Proofs.Token.Division

/-!
# Where tokens stand

The places that a scan gives to its tokens and faults, counted in the source itself.

* `Position.behind text`: the place behind a text, by its line breaks and by what follows the last
  of them.
* `Piece.Placed`: the tokens and the errors of some pieces, each at its place in the source. Nothing
  here depends on how a scan keeps count of lines and columns.
* `Piece.foldl_after`: the pieces of a division lead to the place behind their text, where a comment
  at the end of them is left out.
* `Token.scan_places`: every token and every error of a source has its true place.
-/

namespace LoxLang

/-! ## Places in a text -/

namespace Position

/-- The place behind a text: one line for each line break, and one column for each character behind
the last of them. -/
def behind (text : List Char) : Position :=
  ⟨1 + text.count '\n', 1 + (text.reverse.takeWhile (· != '\n')).length⟩

/-- One character more moves the position by one step. -/
theorem behind_concat (text : List Char) (c : Char) :
    behind (text ++ [c]) = (behind text).step c := by
  by_cases hc : c = '\n'
  · simp [behind, step, hc, Nat.add_assoc]
  · simp [behind, step, hc, Nat.add_comm]

/-- A position is reached in two parts. -/
theorem behind_append (before text : List Char) :
    behind (before ++ text) = text.foldl step (behind before) := by
  induction text generalizing before with
  | nil => rw [List.append_nil, List.foldl_nil]
  | cons c text ih => rw [List.foldl_cons, ← behind_concat, ← ih, List.append_assoc]; rfl

/-- What stands on a line does not matter behind its end. -/
theorem behind_newline (before : List Char) {text : List Char} (h : '\n' ∉ text) :
    behind (before ++ text ++ ['\n']) = (behind before).step '\n' := by
  simp [step, behind, List.count_eq_zero.2 h, Nat.add_assoc]

end Position

namespace Piece

/-- The tokens and the errors of pieces that stand behind the text `before` in a source. A lexeme is
one line further for each line break in front of it, and one column for each character since the
last of them. A character that starts nothing is reported on its line, and a string that is not
closed on the last line of the source. All other pieces only take up room. -/
inductive Placed (source : List Char) :
    List Char → List Piece → List Token → List StaticError → Prop where
  | nil {before : List Char} : Placed source before [] [] []
  | lexeme {before text : List Char} {kind : Kind} {t : Token} {pieces : List Piece}
      {tokens : List Token} {errors : List StaticError} :
      t.kind = kind → t.lexeme.toList = text → t.line = 1 + before.count '\n' →
      t.col = 1 + (before.reverse.takeWhile (· != '\n')).length →
      Placed source (before ++ text) pieces tokens errors →
      Placed source before (.lexeme kind text :: pieces) (t :: tokens) errors
  | stray {before : List Char} {c : Char} {e : StaticError} {pieces : List Piece}
      {tokens : List Token} {errors : List StaticError} :
      e.message = "Unexpected character." → e.line = 1 + before.count '\n' →
      Placed source (before ++ [c]) pieces tokens errors →
      Placed source before (.stray c :: pieces) tokens (e :: errors)
  | openString {before text : List Char} {e : StaticError} {pieces : List Piece}
      {tokens : List Token} {errors : List StaticError} :
      e.message = "Unterminated string." → e.line = 1 + source.count '\n' →
      Placed source (before ++ text) pieces tokens errors →
      Placed source before (.openString text :: pieces) tokens (e :: errors)
  | newline {before : List Char} {pieces : List Piece} {tokens : List Token}
      {errors : List StaticError} :
      Placed source (before ++ ['\n']) pieces tokens errors →
      Placed source before (.newline :: pieces) tokens errors
  | blank {before : List Char} {c : Char} {pieces : List Piece} {tokens : List Token}
      {errors : List StaticError} :
      Placed source (before ++ [c]) pieces tokens errors →
      Placed source before (.blank c :: pieces) tokens errors
  | comment {before text : List Char} {pieces : List Piece} {tokens : List Token}
      {errors : List StaticError} :
      Placed source (before ++ text) pieces tokens errors →
      Placed source before (.comment text :: pieces) tokens errors

/-- A comment, with the pieces in front of it, that has no line break behind it. -/
def EndsInComment (pieces before : List Piece) : Prop :=
  ∃ text behind, pieces = before ++ .comment text :: behind ∧ '\n' ∉ behind.flatMap Piece.text

/-! ### Comments -/

section Comments

variable {source text : List Char} {before behind : List Piece}

/-- No comment goes over the end of its line. -/
theorem of_fits_comment {text input : List Char} (h : (comment text).Fits (text ++ input)) :
    '\n' ∉ text ∧ (input = [] ∨ input.head? = some '\n') := by
  generalize hinput : text ++ input = whole at h
  cases h with
  | @comment body cs hbody hcs =>
      obtain rfl : input = cs := List.append_cancel_left hinput
      exact ⟨by simpa using hbody, hcs⟩

theorem newline_not_mem_comment (h : Division source (before ++ .comment text :: behind)) :
    '\n' ∉ text := (of_fits_comment (h.fits before _ behind rfl)).1

/-- Only a line break comes behind a comment. -/
theorem eq_newline_of_comment {piece : Piece}
    (h : Division source (before ++ .comment text :: piece :: behind)) : piece = .newline := by
  have hcomment := (of_fits_comment (h.fits before _ (piece :: behind) rfl)).2
  have hfits := h.fits (before ++ [.comment text]) piece behind (by simp)
  rw [List.flatMap_cons] at hcomment
  rcases hcomment with hnil | hhead
  · have hne := h.nonempty piece (by simp)
    exact absurd (List.append_eq_nil_iff.1 hnil).1 hne
  · rcases List.head?_eq_some_iff.1 hhead with ⟨rest, hrest⟩
    rw [hrest] at hfits
    exact fits_iff.1 hfits

/-- A comment without a line break behind it is the last piece. -/
theorem EndsInComment.eq {pieces : List Piece} (h : Division source pieces)
    (hends : EndsInComment pieces before) : ∃ text, pieces = before ++ [.comment text] := by
  rcases hends with ⟨text, behind, rfl, hbehind⟩
  cases behind with
  | nil => exact ⟨text, rfl⟩
  | cons piece behind =>
      rw [eq_newline_of_comment h] at hbehind
      exact absurd (by simp [Piece.text]) hbehind

end Comments

/-! ### Where pieces lead -/

/-- The text of pieces, without a comment at the end of them. -/
def counted (pieces : List Piece) : List Char :=
  match pieces.getLast? with
  | some (.comment _) => pieces.dropLast.flatMap text
  | _ => pieces.flatMap text

/-- A comment that has just been passed does not count for the column. -/
theorem counted_comment (pieces : List Piece) (text : List Char) :
    counted (pieces ++ [.comment text]) = pieces.flatMap Piece.text := by
  simp [counted]

/-- Unless a comment comes last, all of the text counts. -/
theorem counted_eq {pieces : List Piece} (h : ∀ before text, pieces ≠ before ++ [.comment text]) :
    counted pieces = pieces.flatMap text := by
  unfold counted
  split
  · rename_i text hlast
    rcases List.getLast?_eq_some_iff.1 hlast with ⟨before, heq⟩
    exact absurd heq (h before text)
  · rfl

/-- Every other piece counts with all its characters. -/
theorem counted_concat {pieces : List Piece} {piece : Piece} (h : ∀ text, piece ≠ .comment text) :
    counted (pieces ++ [piece]) = pieces.flatMap text ++ piece.text := by
  rw [counted_eq, List.flatMap_append, List.flatMap_singleton]
  intro before text heq
  exact h text (List.singleton_inj.1 (List.append_inj' heq rfl).2)

/-- The pieces that a source begins with lead to the place behind what counts of them. -/
theorem foldl_after {source : List Char} {pieces behind : List Piece}
    (h : Division source (pieces ++ behind)) :
    pieces.foldl Position.after .start = .behind (counted pieces) := by
  induction pieces using List.reverseRecOn generalizing behind with
  | nil => rfl
  | append_singleton pieces piece ih =>
      rw [List.append_assoc, List.singleton_append] at h
      rw [List.foldl_append, ih h, List.foldl_cons, List.foldl_nil]
      by_cases hcomment : ∃ before text, pieces = before ++ [.comment text]
      · -- The columns start anew behind the line of the comment.
        rcases hcomment with ⟨before, text, rfl⟩
        rw [List.append_assoc, List.singleton_append] at h
        obtain rfl := eq_newline_of_comment h
        rw [counted_comment, counted_concat (by simp), List.flatMap_append, List.flatMap_singleton]
        exact (Position.behind_newline _ (newline_not_mem_comment h)).symm
      · simp only [not_exists] at hcomment
        rw [counted_eq hcomment]
        cases piece with
        | comment text => rw [counted_comment]; rfl
        | _ => rw [counted_concat (by simp), Position.behind_append]; rfl

/-- Where a piece starts that does not end its line. -/
theorem foldl_after_eq {source : List Char} {before behind : List Piece} {piece : Piece}
    (h : Division source (before ++ piece :: behind)) (hpiece : piece ≠ .newline) :
    before.foldl Position.after .start = .behind (before.flatMap text) := by
  rw [foldl_after h, counted_eq]
  rintro before' text rfl
  rw [List.append_assoc, List.singleton_append] at h
  exact hpiece (eq_newline_of_comment h)

/-- A string that is not closed goes on to the end of the source. -/
theorem eq_source_of_openString {source text : List Char} {before behind : List Piece}
    (h : Division source (before ++ .openString text :: behind)) :
    before.flatMap Piece.text ++ text = source := by
  have hfits := h.fits before _ behind rfl
  have hwhole := h.whole
  rw [List.flatMap_append, List.flatMap_cons] at hwhole
  generalize hinput : (openString text).text ++ behind.flatMap Piece.text = input at hfits hwhole
  cases hfits with
  | openString _ => exact hwhole

end Piece

/-! ## Tokens -/

namespace Token

/-- The tokens and the errors of the pieces behind others have their places. -/
theorem ofPieces_placed {source : List Char} {before pieces : List Piece}
    (h : Piece.Division source (before ++ pieces)) :
    let q := Position.behind (Piece.counted (before ++ pieces))
    let scanned := ofPieces (before.foldl Position.after .start) pieces
    ∃ tokens, scanned.1 = tokens ++ [endOfInput q.line q.col] ∧
      Piece.Placed source (before.flatMap Piece.text) pieces tokens scanned.2 := by
  -- A piece moves from `pieces` to the end of `before` as it is passed.
  induction pieces generalizing before with
  | nil =>
      refine ⟨[], ?_, .nil⟩
      rw [List.append_nil, ofPieces, Piece.foldl_after h]
      rfl
  | cons piece pieces ih =>
      have hnext : Piece.Division source ((before ++ [piece]) ++ pieces) := by simpa using h
      have hmore := ih hnext
      rw [List.foldl_append, List.flatMap_append, List.append_assoc] at hmore
      simp only [List.foldl_cons, List.foldl_nil, List.flatMap_cons, List.flatMap_nil,
        List.append_nil, List.singleton_append] at hmore
      rcases hmore with ⟨tokens, htokens, hplaced⟩
      have hplace := Piece.foldl_after_eq h
      cases piece with
      | lexeme kind text =>
          have hbehind := hplace (by simp)
          refine ⟨_ :: tokens, congrArg (_ :: ·) htokens, ?_⟩
          refine .lexeme rfl (String.toList_ofList) ?_ ?_ hplaced
          · exact congrArg Position.line hbehind
          · exact congrArg Position.col hbehind
      | stray c =>
          exact ⟨tokens, htokens, .stray rfl (congrArg Position.line (hplace (by simp))) hplaced⟩
      | openString text =>
          -- Its line is counted behind the string, and that is the end of the source.
          have hline : ((before.foldl Position.after .start).after (.openString text)).line =
              (Position.behind source).line := by
            calc
              _ = ((Position.behind (before.flatMap Piece.text)).after (.openString text)).line := by
                    rw [hplace (by simp)]
              _ = (Position.behind (before.flatMap Piece.text ++ text)).line := by
                    rw [Position.behind_append]
                    rfl
              _ = (Position.behind source).line := by
                    rw [Piece.eq_source_of_openString h]
          exact ⟨tokens, htokens, .openString rfl hline hplaced⟩
      | newline => exact ⟨tokens, htokens, .newline hplaced⟩
      | blank c => exact ⟨tokens, htokens, .blank hplaced⟩
      | comment text => exact ⟨tokens, htokens, .comment hplaced⟩

/-- A token stands where its lexeme starts: one line further for each line break in front of it, and
one column for each character since the last of them. So does the end of input, but a comment on
the last line has no columns. A character that starts nothing is reported on its line, and a string
that is not closed on the last line. -/
theorem scan_places (source : String) :
    ∃ pieces tokens eof, Piece.Division source.toList pieces ∧
      (∀ pieces', Piece.Division source.toList pieces' → pieces' = pieces) ∧
      (scan source).1 = tokens ++ [eof] ∧
      Piece.Placed source.toList [] pieces tokens (scan source).2 ∧
      eof.kind = .eof ∧ eof.line = 1 + source.toList.count '\n' ∧
      (∀ before, Piece.EndsInComment pieces before →
        eof.col = 1 + ((before.flatMap Piece.text).reverse.takeWhile (· != '\n')).length) ∧
      ((∀ before, ¬ Piece.EndsInComment pieces before) →
        eof.col = 1 + (source.toList.reverse.takeWhile (· != '\n')).length) := by
  let pieces := Piece.divide source.toList
  let q := Position.behind (Piece.counted pieces)
  have hdivision : Piece.Division source.toList pieces := Piece.division_divide source.toList
  have hbehind : Piece.Division source.toList (pieces ++ []) := by simpa using hdivision
  rcases ofPieces_placed (show Piece.Division source.toList ([] ++ pieces) from hdivision) with
    ⟨tokens, hscan, hplaced⟩
  -- Everything is counted, unless the source ends in a comment.
  have hfull : (∀ before text, pieces ≠ before ++ [.comment text]) → q = .behind source.toList := by
    intro h
    rw [← hdivision.whole, ← Piece.counted_eq h]
  refine ⟨pieces, tokens, endOfInput q.line q.col, hdivision, fun _ => Piece.division_unique, hscan,
    hplaced, rfl, ?_, fun before hends => ?_, fun hnone => ?_⟩
  · have hline : (pieces.foldl Position.after .start).line = _ := Position.line_divide _ _
    rwa [Piece.foldl_after hbehind] at hline
  · rcases hends.eq hdivision with ⟨text, heq⟩
    change q.col = _
    rw [show q = .behind (Piece.counted pieces) from rfl, heq, Piece.counted_comment]
    rfl
  · have hq := hfull fun before text heq => hnone before ⟨text, [], heq, List.not_mem_nil⟩
    exact congrArg Position.col hq

end Token

end LoxLang
