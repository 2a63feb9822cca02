import LoxLang.Proofs.Number.Shortest
import LoxLang.Proofs.Token.Division

/-!
# Reading what is spelled

The text of a number is read back, and the number is found again.

* `Decimal.numeral whole fraction` is a text with the given digits before and behind the point.
  Every spelling without an exponent is one (`Layout.positional_eq_numeral`), and so is what stands
  in front of an exponent.
* `Decimal.ofPlaces` reads a text without an exponent, `Decimal.ofText` any spelling of a decimal.
  What is read has the value that was written (`Layout.value_ofText_write`).
* `Number.text_injective`: different numbers have different texts.
-/

namespace LoxLang

namespace Decimal

/-! ## Digits -/

theorem ofDigits_toDigits (n : Nat) : ofDigits (Nat.toDigits 10 n) = n :=
  Nat.ofDigitChars_ten_toDigits

/-- Zeros in front count for nothing. -/
theorem ofDigits_zeros_append (n : Nat) (cs : List Char) :
    ofDigits (List.replicate n '0' ++ cs) = ofDigits cs := by
  change Nat.ofDigitChars 10 _ 0 = Nat.ofDigitChars 10 _ 0
  rw [Nat.ofDigitChars_append, Nat.ofDigitChars_replicate_zero, Nat.mul_zero]

/-- A zero behind multiplies by ten. -/
theorem ofDigits_append_zeros (cs : List Char) (n : Nat) :
    ofDigits (cs ++ List.replicate n '0') = 10 ^ n * ofDigits cs := by
  change Nat.ofDigitChars 10 _ 0 = 10 ^ n * Nat.ofDigitChars 10 _ 0
  rw [Nat.ofDigitChars_append, Nat.ofDigitChars_replicate_zero]

theorem isDigit_of_mem_zeros {n : Nat} {c : Char} (h : c ∈ List.replicate n '0') :
    c.isDigit = true := by
  rw [List.eq_of_mem_replicate h]
  rfl

theorem isDigit_digits (x : Decimal) : ∀ c ∈ x.digits, c.isDigit = true :=
  fun _ hc => Nat.isDigit_of_mem_toDigits (by decide) (by decide) hc

theorem digits_ne_nil (x : Decimal) : x.digits ≠ [] := Nat.toDigits_ne_nil

/-! ## Numerals -/

/-- A text with the given digits before and behind the point. Without digits behind it there is no
point. -/
def numeral (whole : List Char) : List Char → List Char
  | [] => whole
  | c :: cs => whole ++ '.' :: c :: cs

theorem numeral_of_ne_nil (whole : List Char) {fraction : List Char} (h : fraction ≠ []) :
    numeral whole fraction = whole ++ '.' :: fraction := by
  cases fraction with
  | nil => exact absurd rfl h
  | cons c cs => rfl

def ofPlaces (text : List Char) : Decimal :=
  ofParts (text.takeWhile (· != '.')) (text.dropWhile (· != '.')).tail

/-- A character that is no digit and no point is not part of a numeral. -/
theorem not_mem_numeral {whole fraction : List Char} (h : ∀ c ∈ whole ++ fraction, c.isDigit = true)
    {d : Char} (hdigit : d.isDigit = false) (hpoint : d ≠ '.') : d ∉ numeral whole fraction := by
  have hparts : d ∉ whole ++ fraction := fun hd => Piece.ne_of_test (h d hd) hdigit rfl
  cases fraction with
  | nil => simpa [numeral] using hparts
  | cons c cs => simpa [numeral, hpoint] using hparts

/-- What is written around a point is read as the digits on its two sides. -/
theorem ofPlaces_numeral {whole : List Char} (h : ∀ c ∈ whole, c.isDigit = true)
    (fraction : List Char) : ofPlaces (numeral whole fraction) = ofParts whole fraction := by
  have hpoint : ∀ c ∈ whole, (c != '.') = true := fun c hc =>
    bne_iff_ne.2 (Piece.ne_of_test (h c hc) rfl)
  unfold ofPlaces
  cases fraction with
  | nil =>
      rcases Piece.takeWhile_all hpoint with ⟨htake, hdrop⟩
      rw [numeral, htake, hdrop]
      rfl
  | cons c cs =>
      rcases Piece.takeWhile_stop hpoint (rfl : ('.' != '.') = false) (c :: cs) with ⟨htake, hdrop⟩
      rw [numeral, htake, hdrop]
      rfl

/-- The digits are worth what they are worth without the point, moved by as many places as stand
behind it. -/
theorem value_ofParts (whole fraction : List Char) :
    (ofParts whole fraction).value =
      ofDigits (whole ++ fraction) * (10 : ℚ) ^ (-(fraction.length : Int)) := rfl

/-! ## Exponents -/

def ofExponent : List Char → Int
  | [] => 0
  | c :: cs => if c = '-' then -(ofDigits cs : Int) else ofDigits cs

def ofText (text : List Char) : Decimal :=
  let places := ofPlaces (text.takeWhile (· != 'e'))
  ⟨places.coefficient, places.exponent + ofExponent (text.dropWhile (· != 'e')).tail⟩

/-- Without an exponent, a text is all mantissa. -/
theorem ofText_places {text : List Char} (h : 'e' ∉ text) : ofText text = ofPlaces text := by
  have hplain : ∀ c ∈ text, (c != 'e') = true := fun c hc =>
    bne_iff_ne.2 fun heq => h (heq ▸ hc)
  rcases Piece.takeWhile_all hplain with ⟨htake, hdrop⟩
  unfold ofText
  rw [htake, hdrop]
  exact congrArg (Decimal.mk _) (Int.add_zero _)

/-- The first `e` divides mantissa and exponent. -/
theorem ofText_append {mantissa : List Char} (h : 'e' ∉ mantissa) (exponent : List Char) :
    ofText (mantissa ++ 'e' :: exponent) =
      ⟨(ofPlaces mantissa).coefficient, (ofPlaces mantissa).exponent + ofExponent exponent⟩ := by
  have hplain : ∀ c ∈ mantissa, (c != 'e') = true := fun c hc =>
    bne_iff_ne.2 fun heq => h (heq ▸ hc)
  rcases Piece.takeWhile_stop hplain (rfl : ('e' != 'e') = false) exponent with ⟨htake, hdrop⟩
  unfold ofText
  rw [htake, hdrop]
  rfl

end Decimal

/-! ## Spellings -/

namespace Layout

open Decimal

/-- A spelling with all places is a numeral. Its value is that of the digits, the first of which
has the given power of ten. -/
theorem positional_eq_numeral {digits : List Char} (hne : digits ≠ [])
    (hdigits : ∀ c ∈ digits, c.isDigit = true) (lead : Int) :
    ∃ whole fraction, positional digits lead = numeral whole fraction ∧ whole ≠ [] ∧
      (∀ c ∈ whole ++ fraction, c.isDigit = true) ∧
      (ofParts whole fraction).value = ofDigits digits * (10 : ℚ) ^ (lead + 1 - digits.length) := by
  unfold positional
  split
  · -- zeros stand between the point and the first digit
    rename_i hlead
    generalize hzeros : List.replicate (-lead - 1).toNat '0' = zeros
    have hlength : (zeros.length : Int) = -lead - 1 := by
      rw [← hzeros, List.length_replicate]
      omega
    refine ⟨['0'], zeros ++ digits, ?_, List.cons_ne_nil _ _, ?_, ?_⟩
    · exact (numeral_of_ne_nil ['0'] (List.append_ne_nil_of_right_ne_nil _ hne)).symm
    · intro c hc
      rcases List.mem_append.1 hc with hc | hc
      · exact isDigit_of_mem_zeros (n := 1) hc
      · rcases List.mem_append.1 hc with hc | hc
        · rw [← hzeros] at hc
          exact isDigit_of_mem_zeros hc
        · exact hdigits c hc
    · have hvalue : ofDigits (['0'] ++ (zeros ++ digits)) = ofDigits digits := by
        rw [← hzeros]
        exact ofDigits_zeros_append _ _
      rw [value_ofParts, hvalue, List.length_append]
      congr 2
      omega
  · rename_i hlead
    dsimp only
    split
    · -- zeros stand behind the last digit, and there is no point
      rename_i hle
      refine ⟨digits ++ List.replicate (lead.toNat + 1 - digits.length) '0', [], rfl,
        List.append_ne_nil_of_left_ne_nil hne _, ?_, ?_⟩
      · intro c hc
        rw [List.append_nil] at hc
        rcases List.mem_append.1 hc with hc | hc
        · exact hdigits c hc
        · exact isDigit_of_mem_zeros hc
      · have hpower :
            lead + 1 - digits.length = ((lead.toNat + 1 - digits.length : Nat) : Int) := by
          omega
        rw [value_ofParts, List.append_nil, ofDigits_append_zeros, hpower, zpow_natCast]
        push_cast
        simp [mul_comm]
    · -- the point stands among the digits
      rename_i hlt
      refine ⟨digits.take (lead.toNat + 1), digits.drop (lead.toNat + 1), ?_, ?_, ?_, ?_⟩
      · exact (numeral_of_ne_nil _ (by simpa using hlt)).symm
      · simpa using hne
      · rwa [List.take_append_drop]
      · rw [value_ofParts, List.take_append_drop, List.length_drop]
        congr 2
        omega

/-- Wherever the point is put, the zeros around the digits make up for it. -/
theorem value_ofPlaces_positional {digits : List Char} (hne : digits ≠ [])
    (hdigits : ∀ c ∈ digits, c.isDigit = true) (lead : Int) :
    (ofPlaces (positional digits lead)).value =
      ofDigits digits * (10 : ℚ) ^ (lead + 1 - digits.length) := by
  rcases positional_eq_numeral hne hdigits lead with ⟨whole, fraction, heq, -, hparts, hvalue⟩
  rw [heq, ofPlaces_numeral fun c hc => hparts c (List.mem_append_left _ hc), hvalue]

theorem not_mem_positional {digits : List Char} (hne : digits ≠ [])
    (hdigits : ∀ c ∈ digits, c.isDigit = true) (lead : Int) : 'e' ∉ positional digits lead := by
  rcases positional_eq_numeral hne hdigits lead with ⟨whole, fraction, heq, -, hparts, -⟩
  rw [heq]
  exact not_mem_numeral hparts rfl (by decide)

/-- The exponent is read back, sign and leading zero included. -/
theorem ofExponent_exponentText (layout : Layout) (lead : Int) :
    ofExponent (layout.exponentText lead) = lead := by
  unfold exponentText
  dsimp only
  split
  · rw [ofExponent, if_pos rfl, ofDigits_zeros_append, ofDigits_toDigits]
    omega
  · rw [ofExponent, if_neg (by decide), ofDigits_zeros_append, ofDigits_toDigits]
    omega

/-- The value of a spelling with an exponent is that of the digits as well. -/
theorem value_ofText_scientific (layout : Layout) {digits : List Char} (hne : digits ≠ [])
    (hdigits : ∀ c ∈ digits, c.isDigit = true) (lead : Int) :
    (ofText (layout.scientific digits lead)).value =
      ofDigits digits * (10 : ℚ) ^ (lead + 1 - digits.length) := by
  rcases digits with _ | ⟨d, rest⟩
  · exact absurd rfl hne
  -- one digit before the point, all others behind it
  have hmantissa : layout.scientific (d :: rest) lead =
      numeral [d] rest ++ 'e' :: layout.exponentText lead := by
    cases rest <;> rfl
  have hwhole : ∀ c ∈ [d], c.isDigit = true := fun c hc =>
    hdigits c (List.mem_cons.2 (.inl (List.mem_singleton.1 hc)))
  rw [hmantissa, ofText_append (not_mem_numeral hdigits rfl (by decide)), ofPlaces_numeral hwhole,
    ofExponent_exponentText]
  unfold value ofParts
  dsimp only
  congr 2
  rw [List.length_cons]
  omega

/-- What is read has the value that was written. -/
theorem value_ofText_write (layout : Layout) (x : Decimal) :
    (ofText (layout.write x)).value = x.value := by
  -- the first digit stands for the leading power of ten
  have hvalue : x.value =
      ofDigits x.digits * (10 : ℚ) ^ (x.leadingExponent + 1 - x.digits.length) := by
    have hexponent : x.leadingExponent + 1 - x.digits.length = x.exponent := by
      unfold leadingExponent
      omega
    rw [hexponent, digits, ofDigits_toDigits]
    rfl
  unfold write
  dsimp only
  rw [hvalue]
  split
  · rw [ofText_places (not_mem_positional x.digits_ne_nil x.isDigit_digits _)]
    exact value_ofPlaces_positional x.digits_ne_nil x.isDigit_digits _
  · exact value_ofText_scientific layout x.digits_ne_nil x.isDigit_digits _

/-- There is an exponent just if the power of ten of the first digit is not in the range. -/
theorem mem_write_iff (layout : Layout) (x : Decimal) :
    'e' ∈ layout.write x ↔ ¬(layout.leastPositional ≤ x.leadingExponent ∧
      x.leadingExponent < layout.leastScientific) := by
  unfold write
  dsimp only
  split
  · rename_i hrange
    exact iff_of_false (not_mem_positional x.digits_ne_nil x.isDigit_digits _)
      fun hout => hout hrange
  · rename_i hrange
    exact iff_of_true (List.mem_append_right _ List.mem_cons_self) hrange

/-- A spelling without an exponent is a numeral. -/
theorem exists_numeral {layout : Layout} {x : Decimal} (h : 'e' ∉ layout.write x) :
    ∃ whole fraction, layout.write x = numeral whole fraction ∧ whole ≠ [] ∧
      ∀ c ∈ whole ++ fraction, c.isDigit = true := by
  rw [mem_write_iff, not_not] at h
  rcases positional_eq_numeral x.digits_ne_nil x.isDigit_digits x.leadingExponent with
    ⟨whole, fraction, heq, hne, hparts, -⟩
  exact ⟨whole, fraction, (if_pos h).trans heq, hne, hparts⟩

/-- A spelling begins with a digit. -/
theorem exists_write_eq_cons (layout : Layout) (x : Decimal) :
    ∃ c cs, layout.write x = c :: cs ∧ c.isDigit = true := by
  unfold write
  dsimp only
  split
  -- positional: the digits before the point, of which there is one at least
  · rcases positional_eq_numeral x.digits_ne_nil x.isDigit_digits x.leadingExponent with
      ⟨whole, fraction, heq, hne, hparts, -⟩
    rcases List.exists_cons_of_ne_nil hne with ⟨c, cs, rfl⟩
    refine ⟨c, numeral cs fraction, ?_, hparts c List.mem_cons_self⟩
    rw [heq]
    cases fraction <;> rfl
  -- scientific: the first digit stands alone
  · have hdigits := x.isDigit_digits
    rcases List.exists_cons_of_ne_nil x.digits_ne_nil with ⟨c, cs, hcons⟩
    rw [hcons] at hdigits ⊢
    have hc : c.isDigit = true := hdigits c List.mem_cons_self
    cases cs with
    | nil => exact ⟨c, _, rfl, hc⟩
    | cons d ds => exact ⟨c, _, rfl, hc⟩

end Layout

/-! ## Numbers -/

namespace Number

theorem isNaN_of_isFinite {x : Number} (h : x.isFinite = true) : x.isNaN = false :=
  decide_eq_false (Nat.lt_asymm (of_decide_eq_true h))

/-- A number is its sign and its magnitude. -/
theorem ofMagnitude_magnitude (x : Number) : ofMagnitude x.isNegative x.magnitude = x := by
  have hlt : x.bits.toNat < 2 ^ 64 := x.bits.toNat_lt
  have hbits : (if x.isNegative = true then Nat.pow 2 63 + x.magnitude else x.magnitude) =
      x.bits.toNat := by
    unfold isNegative magnitude
    simp only [Nat.pow_eq, decide_eq_true_eq]
    split <;> omega
  unfold ofMagnitude
  rw [hbits, UInt64.ofNat_toNat]

/-- The sign is a bit of its own. -/
theorem neg_ofMagnitude (m : Nat) : -ofMagnitude false m = ofMagnitude true m := by
  have hbits : UInt64.ofNat m + 0x8000000000000000 = UInt64.ofNat (Nat.pow 2 63 + m) := by
    rw [Nat.add_comm, UInt64.ofNat_add]
    rfl
  exact congrArg Number.mk hbits

/-- The text of a finite magnitude reads back as that magnitude. -/
theorem ofText_magnitudeText {m : Nat} (h : m < infinityMagnitude) :
    (Decimal.ofText (magnitudeText m)).magnitude = m := by
  unfold magnitudeText
  split
  · rename_i hzero
    rw [hzero]
    decide +kernel
  · rw [Decimal.magnitude_congr (Layout.value_ofText_write _ _), shortest_magnitude h]

theorem exists_magnitudeText_eq_cons (m : Nat) :
    ∃ c cs, magnitudeText m = c :: cs ∧ c.isDigit = true := by
  unfold magnitudeText
  split
  · exact ⟨'0', [], rfl, rfl⟩
  · exact Layout.exists_write_eq_cons _ _

/-- A finite magnitude is written without an exponent just if its first digit has one of the powers
of ten from `-4` to `15`, or if it is zero. -/
theorem not_mem_magnitudeText_iff (m : Nat) :
    'e' ∉ magnitudeText m ↔
      m = 0 ∨ -4 ≤ (shortest m).leadingExponent ∧ (shortest m).leadingExponent < 16 := by
  unfold magnitudeText
  split
  · rename_i hzero
    exact iff_of_true (by decide) (.inl hzero)
  · rename_i hne
    rw [Layout.mem_write_iff, not_not, or_iff_right hne]
    rfl

/-- Without an exponent, the text of a finite magnitude is a numeral. -/
theorem exists_numeral {m : Nat} (h : 'e' ∉ magnitudeText m) :
    ∃ whole fraction, magnitudeText m = Decimal.numeral whole fraction ∧ whole ≠ [] ∧
      ∀ c ∈ whole ++ fraction, c.isDigit = true := by
  unfold magnitudeText at h ⊢
  split
  · refine ⟨['0'], [], rfl, List.cons_ne_nil _ _, fun c hc => ?_⟩
    rw [List.append_nil, List.mem_singleton] at hc
    rw [hc]
    rfl
  · rename_i hne
    rw [if_neg hne] at h
    exact Layout.exists_numeral h

def unsignedText (x : Number) : List Char :=
  if x.isInfinite then "Infinity".toList else magnitudeText x.magnitude

/-- A text is a sign and the text of the magnitude, unless it is that of no number. -/
theorem toList_text {x : Number} (h : x.isNaN = false) :
    x.text.toList = (if x.isNegative then ['-'] else []) ++ x.unsignedText := by
  unfold text unsignedText
  rw [if_neg (ne_true_of_eq_false h)]
  dsimp only
  by_cases hinfinite : x.isInfinite = true
  · rw [if_pos hinfinite, if_pos hinfinite, String.toList_ofList]
  · rw [if_neg hinfinite, if_neg hinfinite, String.toList_ofList]

theorem toList_text_of_isFinite {x : Number} (h : x.isFinite = true) :
    x.text.toList = (if x.isNegative then ['-'] else []) ++ magnitudeText x.magnitude := by
  have hlt : x.magnitude < infinityMagnitude := of_decide_eq_true h
  have hinfinite : ¬ x.isInfinite = true := fun hinfinite => hlt.ne (beq_iff_eq.1 hinfinite)
  rw [toList_text (isNaN_of_isFinite h), unsignedText, if_neg hinfinite]

/-- A finite number is written without an exponent just if its magnitude is. -/
theorem not_mem_text_iff {x : Number} (h : x.isFinite = true) :
    'e' ∉ x.text.toList ↔ 'e' ∉ magnitudeText x.magnitude := by
  rw [toList_text_of_isFinite h]
  cases x.isNegative <;> simp

/-- Without an exponent, what is read of the text of a number, with its sign, is that number. -/
theorem signed_ofPlaces {x : Number} (h : x.isFinite = true)
    (hplain : 'e' ∉ magnitudeText x.magnitude) :
    (if x.isNegative then -(Decimal.ofPlaces (magnitudeText x.magnitude)).toNumber
      else (Decimal.ofPlaces (magnitudeText x.magnitude)).toNumber) = x := by
  have hmagnitude : (Decimal.ofPlaces (magnitudeText x.magnitude)).magnitude = x.magnitude := by
    rw [← Decimal.ofText_places hplain, ofText_magnitudeText (of_decide_eq_true h)]
  have hself := ofMagnitude_magnitude x
  unfold Decimal.toNumber
  rw [hmagnitude, neg_ofMagnitude]
  cases hnegative : x.isNegative with
  | true => rwa [hnegative] at hself
  | false => rwa [hnegative] at hself

/-- No magnitude is written with a minus in front, so the sign can be told from the text. -/
theorem exists_unsignedText_eq_cons (x : Number) :
    ∃ c cs, x.unsignedText = c :: cs ∧ c ≠ '-' := by
  unfold unsignedText
  split
  · exact ⟨'I', _, rfl, by decide⟩
  · rcases exists_magnitudeText_eq_cons x.magnitude with ⟨c, cs, heq, hc⟩
    exact ⟨c, cs, heq, Piece.ne_of_test hc rfl⟩

/-- The text tells the magnitude, by reading it back; infinity has a text of its own. -/
theorem magnitude_eq_of_unsignedText_eq {x y : Number} (hx : x.isNaN = false)
    (hy : y.isNaN = false) (h : x.unsignedText = y.unsignedText) : x.magnitude = y.magnitude := by
  have hinfinite : ∀ m, "Infinity".toList ≠ magnitudeText m := by
    intro m heq
    rcases exists_magnitudeText_eq_cons m with ⟨c, cs, hcons, hc⟩
    rw [hcons] at heq
    exact Piece.ne_of_test hc rfl (List.cons.inj heq).1.symm
  have hfinite : ∀ {z : Number}, z.isNaN = false → ¬ z.isInfinite = true →
      z.magnitude < infinityMagnitude := by
    intro z hz hinfinite
    have hle : z.magnitude ≤ infinityMagnitude := Nat.le_of_not_lt (of_decide_eq_false hz)
    exact Nat.lt_of_le_of_ne hle fun heq => hinfinite (beq_iff_eq.2 heq)
  -- Infinity is the only text that does not begin with a digit.
  unfold unsignedText at h
  split at h <;> split at h
  · rename_i hx hy
    exact (beq_iff_eq.1 hx).trans (beq_iff_eq.1 hy).symm
  · exact absurd h (hinfinite _)
  · exact absurd h.symm (hinfinite _)
  · rename_i hx' hy'
    rw [← ofText_magnitudeText (hfinite hx hx'), h, ofText_magnitudeText (hfinite hy hy')]

/-- Different numbers have different texts. -/
theorem text_injective {x y : Number} (hx : x.isNaN = false) (hy : y.isNaN = false)
    (h : x.text = y.text) : x = y := by
  have hlist := congrArg String.toList h
  rw [toList_text hx, toList_text hy] at hlist
  rcases exists_unsignedText_eq_cons x with ⟨c, cs, hxs, hc⟩
  rcases exists_unsignedText_eq_cons y with ⟨d, ds, hys, hd⟩
  -- only a negative number has a sign
  have hsign : x.isNegative = y.isNegative := by
    cases hx : x.isNegative <;> cases hy : y.isNegative
    · rfl
    · simp [hx, hy, hxs, hc] at hlist
    · simp [hx, hy, hys, hd.symm] at hlist
    · rfl
  rw [hsign] at hlist
  have hmagnitude := magnitude_eq_of_unsignedText_eq hx hy (List.append_cancel_left hlist)
  rw [← ofMagnitude_magnitude x, hsign, hmagnitude, ofMagnitude_magnitude]

end Number

end LoxLang
