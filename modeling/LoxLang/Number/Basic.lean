/-!
# Numbers

The language has one kind of number, the binary64 floating-point number.

* `Number` is a number given by its 64 bits, so that two numbers are the same exactly when their
  bits are: `0` and `-0` are told apart, although the language's `==` identifies them.
* `Number.magnitude` is the number without its sign, as an index into the non-negative numbers in
  increasing order; `unitsOfMagnitude` is its value counted in units of `2 ^ (-1074)`, the least
  positive number.
* `Number.nearest` rounds a ratio of natural numbers to the nearest number.
* Arithmetic is that of the standard: each result is the exact one rounded once.
-/

namespace LoxLang

/-- A binary64 number, by its bits: one sign bit, eleven exponent bits, fifty-two fraction bits. -/
structure Number where
  bits : UInt64
  deriving DecidableEq, Inhabited

namespace Number

/-! ## Reading the bits -/

/-- The magnitude of infinity; everything above it is not a number. -/
def infinityMagnitude : Nat := 0x7ff0000000000000

/-- The bits below the sign, which order the non-negative numbers by size. -/
def magnitude (x : Number) : Nat := x.bits.toNat % Nat.pow 2 63

def isNegative (x : Number) : Bool := decide (Nat.pow 2 63 ≤ x.bits.toNat)

/-- Whether this is no number at all, such as `0 / 0`. -/
def isNaN (x : Number) : Bool := decide (infinityMagnitude < x.magnitude)

/-- Whether this is an infinity, of either sign. -/
def isInfinite (x : Number) : Bool := x.magnitude == infinityMagnitude

/-- Whether this is neither an infinity nor no number. -/
def isFinite (x : Number) : Bool := decide (x.magnitude < infinityMagnitude)

/-- The value of a finite magnitude in units of `2 ^ (-1074)`. Below `2 ^ 52` the numbers are one
unit apart; from there on each power of two has `2 ^ 52` numbers, spaced twice as wide as before. -/
def unitsOfMagnitude (m : Nat) : Nat :=
  let binade := Nat.pow 2 52
  if m < binade then m else (binade + m % binade) * Nat.pow 2 (m / binade - 1)

def ofMagnitude (negative : Bool) (m : Nat) : Number :=
  ⟨UInt64.ofNat (if negative then Nat.pow 2 63 + m else m)⟩

/-! ## Rounding a ratio -/

/-- The integer nearest to `a / d`, and the even one of two that are equally near. -/
def roundHalfEven (a d : Nat) : Nat :=
  let q := a / d
  let r := a % d
  if 2 * r < d then q
  else if d < 2 * r then q + 1
  else if q % 2 = 0 then q else q + 1

/-- The least `p` with `a / d < 2 ^ (p + 53)`: numbers around `a / d` units are `2 ^ p` units
apart. The two logarithms determine it up to one. -/
def spacing (a d : Nat) : Nat :=
  let p := a.log2 - (d.log2 + 52)
  if 0 < p ∧ a < d * Nat.pow 2 (p + 52) then p - 1 else p

/-- The magnitude nearest to `a / d` units, ties going to the even significand. A significand that
is rounded up to `2 ^ 53` carries into the exponent, and what is too large becomes infinity. -/
def nearest (a d : Nat) : Nat :=
  let p := spacing a d
  min (p * Nat.pow 2 52 + roundHalfEven a (d * Nat.pow 2 p)) infinityMagnitude

/-! ## Arithmetic and comparison -/

def toFloat (x : Number) : Float := Float.ofBits x.bits

def ofFloat (f : Float) : Number := ⟨f.toBits⟩

/-- Negation flips the sign bit, and nothing else: the negation of `0` is `-0`. -/
instance : Neg Number := ⟨fun x => ⟨x.bits + 0x8000000000000000⟩⟩

instance : Add Number := ⟨fun x y => ofFloat (x.toFloat + y.toFloat)⟩

instance : Sub Number := ⟨fun x y => ofFloat (x.toFloat - y.toFloat)⟩

instance : Mul Number := ⟨fun x y => ofFloat (x.toFloat * y.toFloat)⟩

/-- Division by a zero gives an infinity with the product of the signs, or no number for `0 / 0`. -/
instance : Div Number := ⟨fun x y => ofFloat (x.toFloat / y.toFloat)⟩

/-- Numeric equality: both zeros are equal, and what is not a number equals nothing. -/
def equals (x y : Number) : Bool := x.toFloat == y.toFloat

/-- Numeric order; what is not a number is in order with nothing. -/
def less (x y : Number) : Bool := decide (x.toFloat < y.toFloat)

def lessEq (x y : Number) : Bool := decide (x.toFloat ≤ y.toFloat)

end Number

end LoxLang
