import LoxLang.Number.Basic

/-!
# Decimals

Numbers as people write them.

* `Decimal` is a coefficient with a power of ten, and `Decimal.toNumber` the number nearest to it.
* `Number.shortest` is the decimal with the fewest digits that reads back as a given number, the
  nearest of those with as few digits.
* `Layout` collects the choices of how a decimal is spelled, and `Number.text` spells a number.
-/

namespace LoxLang

/-- The non-negative decimal `coefficient * 10 ^ exponent`. -/
structure Decimal where
  coefficient : Nat
  exponent : Int
  deriving DecidableEq, Repr, Inhabited

namespace Decimal

/-- The numerator of a decimal, counted in units of `2 ^ (-1074)`. -/
def numerator (x : Decimal) : Nat := 
  x.coefficient * Nat.pow 10 x.exponent.toNat * Nat.pow 2 1074

def denominator (x : Decimal) : Nat := Nat.pow 10 (-x.exponent).toNat

def magnitude (x : Decimal) : Nat := Number.nearest x.numerator x.denominator

/-- The number nearest to a decimal, infinity if the decimal is too large. -/
def toNumber (x : Decimal) : Number := Number.ofMagnitude false x.magnitude

def ofDigits (cs : List Char) : Nat :=
  cs.foldl (fun n c => 10 * n + (c.toNat - '0'.toNat)) 0

/-- A decimal from the digits before and after the point. -/
def ofParts (whole fraction : List Char) : Decimal :=
  ⟨ofDigits (whole ++ fraction), -(fraction.length : Int)⟩

/-- Moves trailing zeros of the coefficient into the exponent, at most `fuel` of them. -/
def stripZeros : Nat → Decimal → Decimal
  | 0, x => x
  | fuel + 1, x =>
    if x.coefficient % 10 = 0 ∧ x.coefficient ≠ 0 then
      stripZeros fuel ⟨x.coefficient / 10, x.exponent + 1⟩
    else x

/-- The digits of the coefficient, most significant first. -/
def digits (x : Decimal) : List Char := Nat.toDigits 10 x.coefficient

def leadingExponent (x : Decimal) : Int := x.exponent + x.digits.length - 1

end Decimal

/-! ## Shortest decimals -/

namespace Number

/-- The largest `k` with `10 ^ k ≤ n`, for a positive `n`. The binary logarithm determines it up
to one. -/
def log10 (n : Nat) : Nat :=
  let k := n.log2 * 30103 / 100000
  if Nat.pow 10 (k + 1) ≤ n then k + 1 else if Nat.pow 10 k ≤ n then k else k - 1

/-- The power of ten of the first digit of `u` units. No positive number is below `10 ^ (-324)`. -/
def leadingExponent (u : Nat) : Int :=
  (log10 (u * Nat.pow 10 324 / Nat.pow 2 1074) : Int) - 324

/-- The decimals with exponent `e` just below and just above `u` units, the nearer one first and,
when both are equally near, the even one. -/
def neighbours (u : Nat) (e : Int) : List Decimal :=
  let a := u * Nat.pow 10 (-e).toNat
  let d := Nat.pow 2 1074 * Nat.pow 10 e.toNat
  let below := a / d
  if roundHalfEven a d = below then [⟨below, e⟩, ⟨below + 1, e⟩]
  else [⟨below + 1, e⟩, ⟨below, e⟩]

/-- The exact decimal value of `u` units. -/
def exactDecimal (u : Nat) : Decimal := ⟨u * Nat.pow 5 1074, -1074⟩

/-- The first decimal that reads back as magnitude `m` among the neighbours with `1`, `2`, …, `17`
digits; the exact value would do as well, with more digits. -/
def shortest (m : Nat) : Decimal :=
  let u := unitsOfMagnitude m
  let lead := leadingExponent u
  let found := ((List.range 17).findSome? fun (p : Nat) =>
    (neighbours u (lead - p)).find? fun x => x.magnitude == m).getD (exactDecimal u)
  found.stripZeros (found.coefficient.log2 + 1)

end Number

/-! ## Spelling -/

/-- The choices of a decimal's spelling. -/
structure Layout where
  /-- The least power of ten of the first digit that is written without an exponent. -/
  leastPositional : Int
  /-- The least power of ten of the first digit, above those, that needs an exponent again. -/
  leastScientific : Int
  /-- How many digits an exponent has at least. -/
  exponentWidth : Nat

namespace Layout

/-- Numbers are written with all their places from `0.0001` to below `10 ^ 16`, others with an
exponent of at least two digits. -/
def standard : Layout := ⟨-4, 16, 2⟩

/-- A decimal with all its places: zeros stand between the point and the first digit, or between
the last digit and where the point would be. -/
def positional (digits : List Char) (lead : Int) : List Char :=
  if lead < 0 then
    '0' :: '.' :: List.replicate (-lead - 1).toNat '0' ++ digits
  else
    let places := lead.toNat + 1
    if digits.length ≤ places then
      digits ++ List.replicate (places - digits.length) '0'
    else
      digits.take places ++ '.' :: digits.drop places

def exponentText (layout : Layout) (lead : Int) : List Char :=
  let digits := Nat.toDigits 10 lead.natAbs
  (if lead < 0 then '-' else '+') ::
    (List.replicate (layout.exponentWidth - digits.length) '0' ++ digits)

/-- A decimal as one digit, the rest behind a point, and an exponent. -/
def scientific (layout : Layout) (digits : List Char) (lead : Int) : List Char :=
  let mantissa := match digits with
    | [] => []
    | [d] => [d]
    | d :: rest => d :: '.' :: rest
  mantissa ++ 'e' :: layout.exponentText lead

def write (layout : Layout) (x : Decimal) : List Char :=
  let lead := x.leadingExponent
  if layout.leastPositional ≤ lead ∧ lead < layout.leastScientific then
    positional x.digits lead
  else
    layout.scientific x.digits lead

end Layout

namespace Number

def magnitudeText (m : Nat) : List Char :=
  if m = 0 then ['0'] else Layout.standard.write (shortest m)

/-- The text of a number: the shortest decimal that reads back, with its sign. -/
def text (x : Number) : String :=
  if x.isNaN then "NaN"
  else
    let sign := if x.isNegative then ['-'] else []
    if x.isInfinite then String.ofList (sign ++ "Infinity".toList)
    else String.ofList (sign ++ magnitudeText x.magnitude)

end Number

end LoxLang
