import LoxLang.Diagnostic
import LoxLang.Syntax.Tree

/-!
# Reading tokens

The common ground of the grammar's productions.

* `Parser.Input` is what a production works on: the tokens ahead, the number of the next expression
  and the faults found so far.
* `Parser` is the type of productions. A production that cannot go on records a fault and panics;
  `Parser.recovering` turns a panic into a skip to the next statement.
* `Parser.synchronize` is that skip.
-/

namespace LoxLang

/-- Why a production stops early. -/
inductive Parser.Stop where
  /-- A fault has been recorded, and the tokens ahead belong to nothing. -/
  | panic
  /-- The bound on the depth of productions is used up. -/
  | exhausted
  deriving DecidableEq, Repr

/-- What a production works on. -/
structure Parser.Input where
  /-- The tokens ahead; the last one is the end of input. -/
  rest : List Token
  /-- The number of the next expression. -/
  nextId : NodeId
  /-- The faults found so far, in the order in which they were found. -/
  errors : List StaticError

/-- A production that reads an `α`. -/
abbrev Parser (α : Type) := EStateM Parser.Stop Parser.Input α

namespace Parser

/-! ## Single tokens -/

def current : Parser Token := fun s => .ok (s.rest.headD (.endOfInput 0 0)) s

def at? (kind : Kind) : Parser Bool := do
  return (← current).kind == kind

/-- Whether the body of a block or a class ends here. -/
def atBodyEnd : Parser Bool := do
  let token ← current
  return token.kind == .rightBrace || token.kind == .eof

/-- Goes past the token ahead; nothing goes past the end of input. -/
def advance : Parser Token := fun s =>
  let token := s.rest.headD (.endOfInput 0 0)
  if token.kind = .eof then .ok token s else .ok token { s with rest := s.rest.tail }

/-- Goes past the token ahead if its kind is one of those wanted. -/
def accept (wanted : Kind → Bool) : Parser (Option Token) := do
  if wanted (← current).kind then
    some <$> advance
  else
    return none

/-- Goes past the token ahead if it has a kind, and tells whether it did. -/
def skip? (kind : Kind) : Parser Bool := do
  return (← accept (· == kind)).isSome

/-! ## Faults -/

def report (fault : SyntaxFault) (token : Token) : Parser Unit :=
  modify fun s => { s with errors := s.errors ++ [.atToken (.parse fault) token] }

/-- Records a fault at the token ahead, and panics. -/
def fail {α : Type} (fault : SyntaxFault) : Parser α := do
  report fault (← current)
  throw .panic

def maxArguments : Nat := 255

/-- Records a fault at the token ahead if as many have been read as there may be. -/
def reportExcess (count : Nat) (fault : SyntaxFault) : Parser Unit := do
  if maxArguments ≤ count then
    report fault (← current)

/-- Goes past the token ahead, which must have a kind. -/
def expect (kind : Kind) (fault : SyntaxFault) : Parser Token := do
  if ← at? kind then
    advance
  else
    fail fault

def expectMark (mark : Kind) (place : MarkPlace) : Parser Token :=
  expect mark (.missingMark mark place)

def expectName (role : NameRole) : Parser Token :=
  expect .identifier (.missingName role)

/-! ## Numbering -/

/-- The number for an expression that has just been read: its parts have theirs already. -/
def fresh : Parser NodeId :=
  modifyGet fun s => (s.nextId, { s with nextId := s.nextId + 1 })

/-! ## Recovery -/

def startsStatement : Kind → Bool
  | .classWord | .funWord | .varWord | .forWord | .ifWord | .whileWord | .printWord
  | .returnWord => true
  | _ => false

/-- Drops tokens until a semicolon has just been passed or a statement starts. -/
def dropStatement (previous : Token) : List Token → List Token
  | [] => []
  | t :: ts =>
    if t.kind == .eof || previous.kind == .semicolon || startsStatement t.kind then t :: ts
    else dropStatement t ts

/-- Drops the token at which a production panicked, and what is left of its statement. -/
def synchronize : List Token → List Token
  | [] => []
  | t :: ts => if t.kind == .eof then t :: ts else dropStatement t ts

/-- Gives up on what panics, and goes on at the next statement. -/
def recovering {α : Type} (p : Parser α) : Parser (Option α) := fun s =>
  match p s with
  | .ok a s => .ok (some a) s
  | .error .panic s => .ok none { s with rest := synchronize s.rest }
  | .error .exhausted s => .error .exhausted s

end Parser

end LoxLang
