import LoxLang.Diagnostic

/-!
# Division of a source into tokens

A source is divided into consecutive pieces, from left to right, each as long as its class allows.

* `Piece` is one part of a source, and `Piece.next` takes the first piece off a non-empty source.
* `Piece.divide` is the whole division.
* `Position` is a place in a source, and `Position.after` the place behind a piece.
* `Token.scan` gives the tokens of a source with their places, and the faults of the pieces that
  are no tokens.
-/

namespace LoxLang

/-! ## Pieces -/

/-- A part of a source. -/
inductive Piece where
  | newline
  | blank (c : Char)
  /-- Two slashes and the rest of the line. -/
  | comment (text : List Char)
  | lexeme (kind : Kind) (text : List Char)
  /-- A quote with no partner, and everything behind it. -/
  | openString (text : List Char)
  /-- A character that starts nothing. -/
  | stray (c : Char)
  deriving DecidableEq

namespace Piece

def text : Piece → List Char
  | newline => ['\n']
  | blank c => [c]
  | comment text => text
  | lexeme _ text => text
  | openString text => text
  | stray c => [c]

/-- What separates words without ending a line. -/
def isBlank (c : Char) : Bool := c == ' ' || c == '\t' || c == '\r'

def isLetter (c : Char) : Bool := c.isAlpha || c == '_'

def isWordChar (c : Char) : Bool := isLetter c || c.isDigit

/-- The digits of a number's fraction, with the rest: a point belongs to the number only if a digit
follows it. -/
def fraction : List Char → Option (List Char × List Char)
  | '.' :: d :: cs =>
    if d.isDigit then some (d :: cs.takeWhile Char.isDigit, cs.dropWhile Char.isDigit) else none
  | _ => none

def number (c : Char) (cs : List Char) : Piece × List Char :=
  let whole := c :: cs.takeWhile Char.isDigit
  let rest := cs.dropWhile Char.isDigit
  match fraction rest with
  | some (digits, rest) => (.lexeme .number (whole ++ '.' :: digits), rest)
  | none => (.lexeme .number whole, rest)

/-- A string, from behind its first quote. It may span lines, and nothing in it is special. -/
def string (cs : List Char) : Piece × List Char :=
  let body := cs.takeWhile (· != '"')
  match cs.dropWhile (· != '"') with
  | [] => (.openString ('"' :: body), [])
  | q :: rest => (.lexeme .string ('"' :: body ++ [q]), rest)

def word (c : Char) (cs : List Char) : Piece × List Char :=
  let letters := c :: cs.takeWhile isWordChar
  let kind := (Kind.keyword? (String.ofList letters)).getD .identifier
  (.lexeme kind letters, cs.dropWhile isWordChar)

/-- The mark that a character makes together with `=`. -/
def double? : Char → Option Kind
  | '!' => some .bangEqual
  | '=' => some .equalEqual
  | '<' => some .lessEqual
  | '>' => some .greaterEqual
  | _ => none

def single? : Char → Option Kind
  | '(' => some .leftParen
  | ')' => some .rightParen
  | '\x7b' => some .leftBrace
  | '\x7d' => some .rightBrace
  | ',' => some .comma
  | '.' => some .dot
  | '-' => some .minus
  | '+' => some .plus
  | ';' => some .semicolon
  | '/' => some .slash
  | '*' => some .star
  | '!' => some .bang
  | '=' => some .equal
  | '<' => some .less
  | '>' => some .greater
  | _ => none

def mark (c : Char) (cs : List Char) : Piece × List Char :=
  match single? c with
  | some kind => (.lexeme kind [c], cs)
  | none => (.stray c, cs)

/-- A mark, the longer one where two are possible. -/
def punctuation (c : Char) (cs : List Char) : Piece × List Char :=
  match double? c, cs with
  | some kind, '=' :: rest => (.lexeme kind [c, '='], rest)
  | _, _ => mark c cs

/-- The first piece of the source `c :: cs`, and what is left. -/
def next (c : Char) (cs : List Char) : Piece × List Char :=
  if c = '\n' then (.newline, cs)
  else if isBlank c then (.blank c, cs)
  else if c = '/' ∧ cs.head? = some '/' then
    (.comment (c :: cs.takeWhile (· != '\n')), cs.dropWhile (· != '\n'))
  else if c.isDigit then number c cs
  else if c = '"' then string cs
  else if isLetter c then word c cs
  else punctuation c cs

/-! ### A piece is never empty -/

/-- A fraction takes characters away. -/
theorem length_fraction_lt {cs digits rest : List Char} (h : fraction cs = some (digits, rest)) :
    rest.length < cs.length := by
  unfold fraction at h
  split at h
  · rename_i d cs
    split at h
    · have hdrop : (cs.dropWhile Char.isDigit).length ≤ cs.length :=
        (List.dropWhile_sublist _).length_le
      cases h
      simp only [List.length_cons]
      omega
    · cases h
  · cases h

/-- What is left behind a number is part of what followed its first digit. -/
theorem length_number_le (c : Char) (cs : List Char) : (number c cs).2.length ≤ cs.length := by
  have hdrop : (cs.dropWhile Char.isDigit).length ≤ cs.length :=
    (List.dropWhile_sublist _).length_le
  unfold number
  dsimp only
  split
  · rename_i digits rest hfraction
    have := length_fraction_lt hfraction
    dsimp only
    omega
  · exact hdrop

/-- What is left behind a string is part of what followed its first quote. -/
theorem length_string_le (cs : List Char) : (string cs).2.length ≤ cs.length := by
  have hdrop : (cs.dropWhile (· != '"')).length ≤ cs.length :=
    (List.dropWhile_sublist _).length_le
  unfold string
  dsimp only
  split
  · simp
  · rename_i q rest hrest
    simp only [hrest, List.length_cons] at hdrop
    dsimp only
    omega

/-- What is left behind a mark is part of what followed its first character. -/
theorem length_punctuation_le (c : Char) (cs : List Char) :
    (punctuation c cs).2.length ≤ cs.length := by
  unfold punctuation
  split
  · simp
  · unfold mark
    split <;> simp

/-- Taking a piece off makes the source shorter. -/
theorem length_next_lt (c : Char) (cs : List Char) :
    (next c cs).2.length < (c :: cs).length := by
  have hle : (next c cs).2.length ≤ cs.length := by
    unfold next
    -- a break, a blank, a comment, a number, a string, a word, or a mark
    split
    · simp
    · split
      · simp
      · split
        · exact (List.dropWhile_sublist _).length_le
        · split
          · exact length_number_le c cs
          · split
            · exact length_string_le cs
            · split
              · exact (List.dropWhile_sublist _).length_le
              · exact length_punctuation_le c cs
  simp only [List.length_cons]
  omega

/-- The division of a source into pieces. -/
def divide : List Char → List Piece
  | [] => []
  | c :: cs => (next c cs).1 :: divide (next c cs).2
termination_by cs => cs.length
decreasing_by exact length_next_lt c cs

end Piece

/-! ## Positions -/

/-- A place in a source; lines and columns count from one. -/
structure Position where
  line : Nat
  col : Nat
  deriving DecidableEq, Repr

namespace Position

def start : Position := ⟨1, 1⟩

def step (p : Position) (c : Char) : Position :=
  if c = '\n' then ⟨p.line + 1, 1⟩ else ⟨p.line, p.col + 1⟩

/-- The place behind a piece. A comment takes no room: what ends it restarts the columns. -/
def after (p : Position) : Piece → Position
  | .comment _ => p
  | piece => piece.text.foldl step p

end Position

/-! ## Tokens -/

namespace Token

/-- The value of a lexeme: the number that its digits read as, or what is between the quotes. -/
def literalOf (kind : Kind) (text : List Char) : Literal :=
  match kind with
  | .number =>
    .number (Decimal.ofParts (text.takeWhile (· != '.')) (text.dropWhile (· != '.')).tail).toNumber
  | .string => .string (String.ofList text.tail.dropLast)
  | _ => .nil

def ofLexeme (kind : Kind) (text : List Char) (p : Position) : Token :=
  ⟨kind, String.ofList text, literalOf kind text, p.line, p.col⟩

/-- The tokens and the faults of the pieces that start at a place, the end of input last. A stray
character is reported on its own line, an unterminated string where the source ends. -/
def ofPieces (p : Position) : List Piece → List Token × List StaticError
  | [] => ([endOfInput p.line p.col], [])
  | piece :: pieces =>
    let q := p.after piece
    let (tokens, errors) := ofPieces q pieces
    match piece with
    | .lexeme kind text => (ofLexeme kind text p :: tokens, errors)
    | .stray _ => (tokens, .ofScan .unexpectedCharacter p.line :: errors)
    | .openString _ => (tokens, .ofScan .unterminatedString q.line :: errors)
    | _ => (tokens, errors)

/-- The tokens of a source, ended by the end of input, and its lexical faults. -/
def scan (source : String) : List Token × List StaticError :=
  ofPieces .start (Piece.divide source.toList)

end Token

end LoxLang
