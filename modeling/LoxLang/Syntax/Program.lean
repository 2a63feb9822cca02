import LoxLang.Syntax.Parser.Stmt
import LoxLang.Token.Lexer

/-!
# Programs

What a source reads as.

* `Program` is the outcome of a reading: the statements that are not faulty, and the faults.
* `Program.ofTokens` reads a token list, and `Program.ofSource` a source.

A reading ends however deep the source nests: the stack of a host, which would give out at some
depth, is left out, here and where names are resolved.
-/

namespace LoxLang

/-- A program as it was read. -/
structure Program where
  statements : List Stmt
  /-- The faults found, in order. -/
  errors : List StaticError
  /-- The number of the next expression. -/
  nextId : NodeId

namespace Program

/-- Reads a token list, numbering expressions from `firstId`. -/
def ofTokens (tokens : List Token) (firstId : NodeId) : Program :=
  match Parser.program (Parser.depthBound tokens) ⟨tokens, firstId, []⟩ with
  | .ok statements s => ⟨statements, s.errors, s.nextId⟩
  | .error _ s => ⟨[], s.errors, s.nextId⟩

/-- Reads a source, numbering expressions from `firstId`. The lexical faults come first. -/
def ofSource (source : String) (firstId : NodeId) : Program :=
  let (tokens, scanErrors) := Token.scan source
  let program := ofTokens tokens firstId
  { program with errors := scanErrors ++ program.errors }

end Program

end LoxLang
