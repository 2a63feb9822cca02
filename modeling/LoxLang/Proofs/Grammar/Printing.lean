import LoxLang.Syntax.Parser.Stmt

/-!
# Printed programs

Trees as the tokens that they are written with.

* `Token.bare`, `Expr.bare` and `Stmt.bare` leave out where a token stands and how an expression is
  numbered.
* `Expr.flatten` and `Stmt.flatten` give the tokens of a tree, in the order in which they are
  written. Nothing is added: a tree that needs parentheses must have them.
* `Expr.level` is how tightly an expression binds. `Expr.printable` and `Stmt.printable` check that
  a tree is one that its tokens can stand for.
-/

namespace LoxLang

/-! ## Trees without numbers and positions -/

def Token.bare (t : Token) : Token := { t with line := 0, col := 0 }

mutual

def Expr.bare : Expr → Expr
  | .assign _ name value => .assign 0 name.bare value.bare
  | .binary _ left operator right => .binary 0 left.bare operator.bare right.bare
  | .call _ callee paren arguments => .call 0 callee.bare paren.bare (Expr.bareAll arguments)
  | .get _ object name => .get 0 object.bare name.bare
  | .grouping _ inner => .grouping 0 inner.bare
  | .literal _ value => .literal 0 value
  | .logical _ left operator right => .logical 0 left.bare operator.bare right.bare
  | .set _ object name value => .set 0 object.bare name.bare value.bare
  | .super _ keyword method => .super 0 keyword.bare method.bare
  | .this _ keyword => .this 0 keyword.bare
  | .unary _ operator right => .unary 0 operator.bare right.bare
  | .variable ref => .variable ⟨0, ref.name.bare⟩

def Expr.bareAll : List Expr → List Expr
  | [] => []
  | e :: es => e.bare :: Expr.bareAll es

end

mutual

def Stmt.bare : Stmt → Stmt
  | .block body => .block (Stmt.bareAll body)
  | .classDecl name superclass methods =>
    .classDecl name.bare (superclass.map fun ref => ⟨0, ref.name.bare⟩)
      (FunctionDecl.bareAll methods)
  | .expression e => .expression e.bare
  | .function decl => .function decl.bare
  | .ifElse condition thenBranch none => .ifElse condition.bare thenBranch.bare none
  | .ifElse condition thenBranch (some elseBranch) =>
    .ifElse condition.bare thenBranch.bare (some elseBranch.bare)
  | .print e => .print e.bare
  | .returnValue keyword value => .returnValue keyword.bare (value.map Expr.bare)
  | .varDecl name value => .varDecl name.bare (value.map Expr.bare)
  | .whileLoop condition body => .whileLoop condition.bare body.bare

def Stmt.bareAll : List Stmt → List Stmt
  | [] => []
  | s :: ss => s.bare :: Stmt.bareAll ss

def FunctionDecl.bare : FunctionDecl → FunctionDecl
  | ⟨name, params, body⟩ => ⟨name.bare, params.map Token.bare, Stmt.bareAll body⟩

def FunctionDecl.bareAll : List FunctionDecl → List FunctionDecl
  | [] => []
  | decl :: decls => decl.bare :: FunctionDecl.bareAll decls

end

/-! ## Tokens of a tree -/

/-- A word that is spelled in one way only. -/
def Kind.token (kind : Kind) : Token := ⟨kind, kind.text, .nil, 0, 0⟩

def Literal.token : Literal → Token
  | .nil => Kind.nilWord.token
  | .bool false => Kind.falseWord.token
  | .bool true => Kind.trueWord.token
  | .number x => ⟨.number, x.text, .number x, 0, 0⟩
  | .string s => ⟨.string, "\"" ++ s ++ "\"", .string s, 0, 0⟩

mutual

def Expr.flatten : Expr → List Token
  | .assign _ name value => name :: Kind.equal.token :: value.flatten
  | .binary _ left operator right | .logical _ left operator right =>
    left.flatten ++ operator :: right.flatten
  | .call _ callee paren [] => callee.flatten ++ [Kind.leftParen.token, paren]
  | .call _ callee paren (first :: rest) =>
    callee.flatten ++ Kind.leftParen.token :: (first.flatten ++ (Expr.flattenMore rest ++ [paren]))
  | .get _ object name => object.flatten ++ [Kind.dot.token, name]
  | .grouping _ inner => Kind.leftParen.token :: (inner.flatten ++ [Kind.rightParen.token])
  | .literal _ value => [value.token]
  | .set _ object name value =>
    object.flatten ++ Kind.dot.token :: name :: Kind.equal.token :: value.flatten
  | .super _ keyword method => [keyword, Kind.dot.token, method]
  | .this _ keyword => [keyword]
  | .unary _ operator right => operator :: right.flatten
  | .variable ref => [ref.name]

def Expr.flattenMore : List Expr → List Token
  | [] => []
  | e :: es => Kind.comma.token :: (e.flatten ++ Expr.flattenMore es)

end

def flattenParameters : List Token → List Token
  | [] => []
  | first :: rest => first :: rest.flatMap fun param => [Kind.comma.token, param]

def flattenSuperclass : Option Reference → List Token
  | none => []
  | some ref => [Kind.less.token, ref.name]

def flattenInitializer : Option Expr → List Token
  | none => []
  | some e => Kind.equal.token :: e.flatten

def flattenOptional : Option Expr → List Token
  | none => []
  | some e => e.flatten

mutual

def Stmt.flatten : Stmt → List Token
  | .block body => Kind.leftBrace.token :: (Stmt.flattenAll body ++ [Kind.rightBrace.token])
  | .classDecl name superclass methods =>
    Kind.classWord.token :: name :: (flattenSuperclass superclass ++
      Kind.leftBrace.token :: (FunctionDecl.flattenAll methods ++ [Kind.rightBrace.token]))
  | .expression e => e.flatten ++ [Kind.semicolon.token]
  | .function decl => Kind.funWord.token :: decl.flatten
  | .ifElse condition thenBranch none =>
    Kind.ifWord.token :: Kind.leftParen.token :: (condition.flatten ++
      Kind.rightParen.token :: thenBranch.flatten)
  | .ifElse condition thenBranch (some elseBranch) =>
    Kind.ifWord.token :: Kind.leftParen.token :: (condition.flatten ++
      Kind.rightParen.token :: (thenBranch.flatten ++ Kind.elseWord.token :: elseBranch.flatten))
  | .print e => Kind.printWord.token :: (e.flatten ++ [Kind.semicolon.token])
  | .returnValue keyword value => keyword :: (flattenOptional value ++ [Kind.semicolon.token])
  | .varDecl name value =>
    Kind.varWord.token :: name :: (flattenInitializer value ++ [Kind.semicolon.token])
  | .whileLoop condition body =>
    Kind.whileWord.token :: Kind.leftParen.token :: (condition.flatten ++
      Kind.rightParen.token :: body.flatten)

def Stmt.flattenAll : List Stmt → List Token
  | [] => []
  | s :: ss => s.flatten ++ Stmt.flattenAll ss

def FunctionDecl.flatten : FunctionDecl → List Token
  | ⟨name, params, body⟩ =>
    name :: Kind.leftParen.token :: (flattenParameters params ++
      Kind.rightParen.token :: Kind.leftBrace.token :: (Stmt.flattenAll body ++
        [Kind.rightBrace.token]))

def FunctionDecl.flattenAll : List FunctionDecl → List Token
  | [] => []
  | decl :: decls => decl.flatten ++ FunctionDecl.flattenAll decls

end

/-! ## Precedence -/

def Kind.logicalLevel? : Kind → Option Nat
  | .orWord => some 1
  | .andWord => some 2
  | _ => none

def Kind.binaryLevel? : Kind → Option Nat
  | .bangEqual | .equalEqual => some 3
  | .greater | .greaterEqual | .less | .lessEqual => some 4
  | .minus | .plus => some 5
  | .slash | .star => some 6
  | _ => none

/-- How tightly an expression binds: assignments not at all, then the operators level by level, the
unary ones, and calls and whatever has no operator. -/
def Expr.level : Expr → Nat
  | .assign .. | .set .. => 0
  | .logical _ _ operator _ => operator.kind.logicalLevel?.getD 0
  | .binary _ _ operator _ => operator.kind.binaryLevel?.getD 0
  | .unary .. => 7
  | _ => 8

/-- The operands of an operator of some level: the left one may be of the same level. -/
def fitsLevel (level? : Option Nat) (left right : Expr) : Bool :=
  match level? with
  | some level => level ≤ left.level && level < right.level
  | none => false

mutual

def Expr.printable : Expr → Bool
  | .assign _ name value => name.kind == .identifier && value.printable
  | .binary _ left operator right =>
    fitsLevel operator.kind.binaryLevel? left right && left.printable && right.printable
  | .call _ callee paren arguments =>
    callee.level == 8 && paren.kind == .rightParen && arguments.length ≤ 255 &&
      callee.printable && Expr.allPrintable arguments
  | .get _ object name => object.level == 8 && name.kind == .identifier && object.printable
  | .grouping _ inner => inner.printable
  | .literal _ _ => true
  | .logical _ left operator right =>
    fitsLevel operator.kind.logicalLevel? left right && left.printable && right.printable
  | .set _ object name value =>
    object.level == 8 && name.kind == .identifier && object.printable && value.printable
  | .super _ keyword method => keyword.kind == .superWord && method.kind == .identifier
  | .this _ keyword => keyword.kind == .thisWord
  | .unary _ operator right =>
    (operator.kind == .bang || operator.kind == .minus) && 7 ≤ right.level && right.printable
  | .variable ref => ref.name.kind == .identifier

def Expr.allPrintable : List Expr → Bool
  | [] => true
  | e :: es => e.printable && Expr.allPrintable es

end

/-! ## Statements that can be printed -/

def Stmt.isDeclaration : Stmt → Bool
  | .classDecl .. | .function .. | .varDecl .. => true
  | _ => false

/-- Whether an `else` behind a statement would belong to an `if` at its end. -/
def Stmt.endsInIf : Stmt → Bool
  | .ifElse _ _ none => true
  | .ifElse _ _ (some elseBranch) => elseBranch.endsInIf
  | .whileLoop _ body => body.endsInIf
  | _ => false

def optionalPrintable : Option Expr → Bool
  | none => true
  | some e => e.printable

mutual

def Stmt.printable : Stmt → Bool
  | .block body => Stmt.allPrintable body
  | .classDecl name superclass methods =>
    name.kind == .identifier && superclass.all (fun ref => ref.name.kind == .identifier) &&
      FunctionDecl.allPrintable methods
  | .expression e => e.printable
  | .function decl => decl.printable
  | .ifElse condition thenBranch none =>
    condition.printable && !thenBranch.isDeclaration && thenBranch.printable
  | .ifElse condition thenBranch (some elseBranch) =>
    condition.printable && !thenBranch.isDeclaration && !thenBranch.endsInIf &&
      !elseBranch.isDeclaration && thenBranch.printable && elseBranch.printable
  | .print e => e.printable
  | .returnValue keyword value => keyword.kind == .returnWord && optionalPrintable value
  | .varDecl name value => name.kind == .identifier && optionalPrintable value
  | .whileLoop condition body => condition.printable && !body.isDeclaration && body.printable

def Stmt.allPrintable : List Stmt → Bool
  | [] => true
  | s :: ss => s.printable && Stmt.allPrintable ss

def FunctionDecl.printable : FunctionDecl → Bool
  | ⟨name, params, body⟩ =>
    name.kind == .identifier && params.all (·.kind == .identifier) &&
      params.length ≤ 255 && Stmt.allPrintable body

def FunctionDecl.allPrintable : List FunctionDecl → Bool
  | [] => true
  | decl :: decls => decl.printable && FunctionDecl.allPrintable decls

end

end LoxLang
