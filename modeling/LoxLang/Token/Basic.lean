import LoxLang.Number.Decimal
import LoxLang.Text.Quoted

/-!
# Tokens

The words of the language.

* `Kind` lists the kinds of token, and `Kind.text` names them: punctuation and keywords are named by
  their own spelling, `Kind.ofText?` finds them again.
* `Literal` is a value that can be written down in a program.
* `Token` is a word at its place in the source.
-/

namespace LoxLang

/-- The kinds of token. -/
inductive Kind where
  | leftParen | rightParen | leftBrace | rightBrace
  | comma | dot | minus | plus | semicolon | slash | star
  | bang | bangEqual | equal | equalEqual | greater | greaterEqual | less | lessEqual
  | identifier | string | number
  | andWord | classWord | elseWord | falseWord | forWord | funWord | ifWord | nilWord | orWord
  | printWord | returnWord | superWord | thisWord | trueWord | varWord | whileWord
  | eof
  deriving DecidableEq, Repr, Inhabited

namespace Kind

/-- The name of a kind: its spelling, where it has only one. -/
def text : Kind → String
  | leftParen => "("
  | rightParen => ")"
  | leftBrace => "\x7b"
  | rightBrace => "\x7d"
  | comma => ","
  | dot => "."
  | minus => "-"
  | plus => "+"
  | semicolon => ";"
  | slash => "/"
  | star => "*"
  | bang => "!"
  | bangEqual => "!="
  | equal => "="
  | equalEqual => "=="
  | greater => ">"
  | greaterEqual => ">="
  | less => "<"
  | lessEqual => "<="
  | identifier => "IDENTIFIER"
  | string => "STRING"
  | number => "NUMBER"
  | andWord => "and"
  | classWord => "class"
  | elseWord => "else"
  | falseWord => "false"
  | forWord => "for"
  | funWord => "fun"
  | ifWord => "if"
  | nilWord => "nil"
  | orWord => "or"
  | printWord => "print"
  | returnWord => "return"
  | superWord => "super"
  | thisWord => "this"
  | trueWord => "true"
  | varWord => "var"
  | whileWord => "while"
  | eof => "EOF"

def keywords : List Kind :=
  [andWord, classWord, elseWord, falseWord, forWord, funWord, ifWord, nilWord, orWord, printWord,
    returnWord, superWord, thisWord, trueWord, varWord, whileWord]

/-- The kinds spelled by one or two punctuation marks. -/
def punctuation : List Kind :=
  [leftParen, rightParen, leftBrace, rightBrace, comma, dot, minus, plus, semicolon, slash, star,
    bang, bangEqual, equal, equalEqual, greater, greaterEqual, less, lessEqual]

def keyword? (word : String) : Option Kind := keywords.find? fun k => k.text == word

def ofText? (text : String) : Option Kind :=
  (keywords ++ punctuation).find? fun k => k.text == text

end Kind

/-- A value that can be written down in a program. -/
inductive Literal where
  | nil
  | bool (b : Bool)
  | number (x : Number)
  | string (s : String)
  deriving DecidableEq, Inhabited

/-- A word of the source. The literal is the value of a number or a string, and `nil` for every
other kind; lines and columns count from one. -/
structure Token where
  kind : Kind
  lexeme : String
  literal : Literal
  line : Nat
  col : Nat
  deriving DecidableEq, Inhabited

namespace Token

/-- A token shown for inspection, from the name of its kind, its lexeme and its place. -/
def describe (kind lexeme : String) (line col : Int) : String :=
  "Token(" ++ kind ++ ", " ++ Quoted.quote lexeme ++ ", " ++ toString line ++ ", " ++
    toString col ++ ")"

/-- The token that ends a program when nothing is left to read. -/
def endOfInput (line col : Nat) : Token := ⟨.eof, "", .nil, line, col⟩

end Token

end LoxLang
