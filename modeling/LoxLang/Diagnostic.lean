import LoxLang.Token.Basic

/-!
# Diagnostics

What can be wrong with a program, and how it is reported.

* `ScanFault`, `SyntaxFault` and `ScopeFault` are the causes found before a program runs;
  a `StaticError` is such a cause with its line and the token it was found at.
* `RuntimeFault` is a cause that ends a run; a `RuntimeError` is such a cause at a token.
* Each cause has one `message`, and each error one `report`.
-/

namespace LoxLang

/-! ## Causes found in the text -/

/-- Faults in the division of a source into tokens. -/
inductive ScanFault where
  | unexpectedCharacter
  | unterminatedString
  deriving DecidableEq, Repr

def ScanFault.message : ScanFault → String
  | unexpectedCharacter => "Unexpected character."
  | unterminatedString => "Unterminated string."

/-! ## Causes found in the grammar -/

/-- The two ways to declare a callable body. -/
inductive Callable where
  | function
  | method
  deriving DecidableEq, Repr

def Callable.text : Callable → String
  | function => "function"
  | method => "method"

/-- What a missing name would have named. -/
inductive NameRole where
  | ofClass
  | ofSuperclass
  | ofCallable (c : Callable)
  | ofParameter
  | ofVariable
  | ofProperty
  | ofSuperclassMethod
  deriving DecidableEq, Repr

def NameRole.text : NameRole → String
  | ofClass => "class name"
  | ofSuperclass => "superclass name"
  | ofCallable c => c.text ++ " name"
  | ofParameter => "parameter name"
  | ofVariable => "variable name"
  | ofProperty => "property name after '.'"
  | ofSuperclassMethod => "superclass method name"

/-- Where a missing mark would have stood. -/
inductive MarkPlace where
  | beforeClassBody
  | beforeBody (c : Callable)
  | afterClassBody
  | afterBlock
  | afterName (c : Callable)
  | afterKeyword (k : Kind)
  | afterParameters
  | afterForClauses
  | afterIfCondition
  | afterCondition
  | afterLoopCondition
  | afterArguments
  | afterExpression
  | afterVariableDeclaration
  | afterValue
  | afterReturnValue
  deriving DecidableEq, Repr

def MarkPlace.text : MarkPlace → String
  | beforeClassBody => "before class body"
  | beforeBody c => "before " ++ c.text ++ " body"
  | afterClassBody => "after class body"
  | afterBlock => "after block"
  | afterName c => "after " ++ c.text ++ " name"
  | afterKeyword k => "after '" ++ k.text ++ "'"
  | afterParameters => "after parameters"
  | afterForClauses => "after for clauses"
  | afterIfCondition => "after if condition"
  | afterCondition => "after condition"
  | afterLoopCondition => "after loop condition"
  | afterArguments => "after arguments"
  | afterExpression => "after expression"
  | afterVariableDeclaration => "after variable declaration"
  | afterValue => "after value"
  | afterReturnValue => "after return value"

/-- Faults in the grammar of a program. -/
inductive SyntaxFault where
  | missingExpression
  | missingName (role : NameRole)
  | missingMark (mark : Kind) (place : MarkPlace)
  | invalidAssignmentTarget
  | tooManyParameters
  | tooManyArguments
  deriving DecidableEq, Repr

def SyntaxFault.message : SyntaxFault → String
  | missingExpression => "Expect expression."
  | missingName role => "Expect " ++ role.text ++ "."
  | missingMark mark place => "Expect '" ++ mark.text ++ "' " ++ place.text ++ "."
  | invalidAssignmentTarget => "Invalid assignment target."
  | tooManyParameters => "Can't have more than 255 parameters."
  | tooManyArguments => "Can't have more than 255 arguments."

/-! ## Causes found in the scopes -/

/-- Faults in the use of names, of `this` and `super`, and of `return`. -/
inductive ScopeFault where
  | alreadyDeclared
  | readInOwnInitializer
  | inheritsFromItself
  | returnAtTopLevel
  | returnFromInitializer
  | thisOutsideClass
  | superOutsideClass
  | superWithoutSuperclass
  deriving DecidableEq, Repr

def ScopeFault.message : ScopeFault → String
  | alreadyDeclared => "Already a variable with this name in this scope."
  | readInOwnInitializer => "Can't read local variable in its own initializer."
  | inheritsFromItself => "A class can't inherit from itself."
  | returnAtTopLevel => "Can't return from top-level code."
  | returnFromInitializer => "Can't return a value from an initializer."
  | thisOutsideClass => "Can't use 'this' outside of a class."
  | superOutsideClass => "Can't use 'super' outside of a class."
  | superWithoutSuperclass => "Can't use 'super' in a class with no superclass."

/-! ## Errors before a run -/

/-- A cause found before a program runs. -/
inductive StaticFault where
  | scan (fault : ScanFault)
  | parse (fault : SyntaxFault)
  | resolve (fault : ScopeFault)
  deriving DecidableEq, Repr

namespace StaticFault

def message : StaticFault → String
  | scan fault => fault.message
  | parse fault => fault.message
  | resolve fault => fault.message

def category : StaticFault → String
  | scan _ => "scan"
  | parse _ => "parse"
  | resolve _ => "resolve"

end StaticFault

/-- The part of a report that points at a token. -/
inductive Site where
  | nowhere
  | atEnd
  | atLexeme (lexeme : String)
  deriving DecidableEq, Repr

namespace Site

def text : Site → String
  | nowhere => ""
  | atEnd => " at end"
  | atLexeme lexeme => " at '" ++ lexeme ++ "'"

def ofToken (t : Token) : Site := if t.kind = .eof then .atEnd else .atLexeme t.lexeme

end Site

/-- An error that keeps a program from running. -/
structure StaticError where
  fault : StaticFault
  line : Nat
  site : Site
  deriving DecidableEq, Repr

namespace StaticError

/-- A scanning error: it has a line but no token. -/
def ofScan (fault : ScanFault) (line : Nat) : StaticError := ⟨.scan fault, line, .nowhere⟩

def atToken (fault : StaticFault) (t : Token) : StaticError := ⟨fault, t.line, .ofToken t⟩

def message (e : StaticError) : String := e.fault.message

def report (e : StaticError) : String :=
  "[line " ++ toString e.line ++ "] Error" ++ e.site.text ++ ": " ++ e.message

end StaticError

/-! ## Errors of a run -/

/-- Faults that end a run. -/
inductive RuntimeFault where
  | undefinedVariable (name : String)
  /-- The name of a class, at the end of its own declaration. -/
  | undefinedClass (name : String)
  | undefinedProperty (name : String)
  | operandNotNumber
  | operandsNotNumbers
  | operandsNotAddable
  | unknownUnaryOperator
  | unknownBinaryOperator
  | notCallable
  | wrongArgumentCount (expected got : Nat)
  | stackOverflow
  | propertyOfNonInstance
  | fieldOfNonInstance
  | superclassNotClass
  deriving DecidableEq, Repr

def RuntimeFault.message : RuntimeFault → String
  | undefinedVariable name | undefinedClass name => "Undefined variable '" ++ name ++ "'."
  | undefinedProperty name => "Undefined property '" ++ name ++ "'."
  | operandNotNumber => "Operand must be a number."
  | operandsNotNumbers => "Operands must be numbers."
  | operandsNotAddable => "Operands must be two numbers or two strings."
  | unknownUnaryOperator => "Unknown unary operator."
  | unknownBinaryOperator => "Unknown binary operator."
  | notCallable => "Can only call functions and classes."
  | wrongArgumentCount expected got =>
    "Expected " ++ toString expected ++ " arguments but got " ++ toString got ++ "."
  | stackOverflow => "Stack overflow."
  | propertyOfNonInstance => "Only instances have properties."
  | fieldOfNonInstance => "Only instances have fields."
  | superclassNotClass => "Superclass must be a class."

/-- An error that ends a run, at the token that was being worked on. -/
structure RuntimeError where
  fault : RuntimeFault
  token : Token
  deriving DecidableEq

namespace RuntimeError

def message (e : RuntimeError) : String := e.fault.message

/-- The line of an error is that of its token. -/
def line (e : RuntimeError) : Nat := e.token.line

def report (e : RuntimeError) : String := e.message ++ "\n[line " ++ toString e.line ++ "]"

end RuntimeError

/-- An error in one line, as it appears in a list of errors. -/
def summary (message : String) (line : Nat) : String := message ++ " at line " ++ toString line

end LoxLang
