import LoxLang.Text.Printable

/-!
# Quoted text

How a piece of text is shown between quotes, so that its ends and its control characters are
visible.

* `Quoted.delimiter` chooses the quote: a single one, unless only that one occurs in the text.
* `Quoted.escape` spells one character, and `Quoted.quote` the whole text.
-/

namespace LoxLang
namespace Quoted

/-- Single quotes stand around a text, unless it holds a single quote and no double quote. -/
def delimiter (cs : List Char) : Char :=
  if cs.contains '\'' && !cs.contains '"' then '"' else '\''

/-- The last `width` hexadecimal digits of a number. -/
def hexDigits : Nat → Nat → List Char
  | 0, _ => []
  | width + 1, n => hexDigits width (n / 16) ++ [Nat.digitChar (n % 16)]

/-- The code of a character, marked for the number of digits it is written with. -/
def code (c : Char) : List Char :=
  if c.toNat < 0x100 then 'x' :: hexDigits 2 c.toNat
  else if c.toNat < 0x10000 then 'u' :: hexDigits 4 c.toNat
  else 'U' :: hexDigits 8 c.toNat

/-- One character between quotes `q`: a backslash stands before the quote and before a backslash,
and characters without a printed form have a name or a code. -/
def escape (q c : Char) : List Char :=
  if c = q ∨ c = '\\' then ['\\', c]
  else if c = '\n' then ['\\', 'n']
  else if c = '\r' then ['\\', 'r']
  else if c = '\t' then ['\\', 't']
  else if Printable.isPrintable c then [c]
  else '\\' :: code c

def quote (s : String) : String :=
  let cs := s.toList
  let q := delimiter cs
  String.ofList (q :: cs.flatMap (escape q) ++ [q])

/-- A code is written with as many digits as its form asks for. -/
@[simp] theorem length_hexDigits (width n : Nat) : (hexDigits width n).length = width := by
  induction width generalizing n with
  | zero => rfl
  | succ width ih => simp [hexDigits, ih]

end Quoted
end LoxLang
