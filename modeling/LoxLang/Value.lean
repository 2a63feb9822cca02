import LoxLang.Diagnostic

/-!
# Values

What expressions evaluate to.

* `Value` is a value. Functions, classes and objects have an identity, so a value only names them;
  what they are is kept by the machine.
* `Value.isTruthy` and `Value.equals` are the language's notions of truth and equality.
* `Value.unary`, `Value.binary` and `Value.settles` are its operators.
-/

namespace LoxLang

abbrev FunctionId := Nat

abbrev ClassId := Nat

abbrev ObjectId := Nat

/-- The functions that every session starts with. -/
inductive Native where
  | clock
  deriving DecidableEq, Repr

/-- A value. -/
inductive Value where
  | nil
  | bool (b : Bool)
  | number (x : Number)
  | string (s : String)
  | native (f : Native)
  | function (id : FunctionId)
  | classRef (id : ClassId)
  | object (id : ObjectId)
  deriving DecidableEq, Inhabited

namespace Value

def ofLiteral : Literal → Value
  | .nil => .nil
  | .bool b => .bool b
  | .number x => .number x
  | .string s => .string s

/-- Only `nil` and `false` are not true. -/
def isTruthy : Value → Bool
  | .nil => false
  | .bool b => b
  | _ => true

/-- Values of different kinds are never equal. Numbers are compared as numbers, and what has an
identity by its identity. -/
def equals : Value → Value → Bool
  | .nil, .nil => true
  | .bool a, .bool b => a == b
  | .number x, .number y => x.equals y
  | .string s, .string t => s == t
  | .native f, .native g => f == g
  | .function a, .function b => a == b
  | .classRef a, .classRef b => a == b
  | .object a, .object b => a == b
  | _, _ => false

/-! ## Operators -/

def unary (operator : Kind) (v : Value) : Except RuntimeFault Value :=
  match operator with
  | .minus =>
    match v with
    | .number x => .ok (.number (-x))
    | _ => .error .operandNotNumber
  | .bang => .ok (.bool !v.isTruthy)
  | _ => .error .unknownUnaryOperator

/-- A sum of numbers, or two strings joined. -/
def add : Value → Value → Except RuntimeFault Value
  | .number x, .number y => .ok (.number (x + y))
  | .string s, .string t => .ok (.string (s ++ t))
  | _, _ => .error .operandsNotAddable

def arithmetic (operator : Kind) (x y : Number) : Except RuntimeFault Value :=
  match operator with
  | .minus => .ok (.number (x - y))
  | .star => .ok (.number (x * y))
  | .slash => .ok (.number (x / y))
  | .greater => .ok (.bool (y.less x))
  | .greaterEqual => .ok (.bool (y.lessEq x))
  | .less => .ok (.bool (x.less y))
  | .lessEqual => .ok (.bool (x.lessEq y))
  | _ => .error .unknownBinaryOperator

/-- A binary operator on two values. Everything can be tested for equality; every operator but `+`
wants numbers. -/
def binary (operator : Kind) (left right : Value) : Except RuntimeFault Value :=
  match operator with
  | .equalEqual => .ok (.bool (equals left right))
  | .bangEqual => .ok (.bool !(equals left right))
  | .plus => add left right
  | operator =>
    match left, right with
    | .number x, .number y => arithmetic operator x y
    | _, _ => .error .operandsNotNumbers

/-- Whether the left operand of a logical operator is already the result: a true one for `or`, one
that is not true otherwise. -/
def settles (left : Value) (operator : Kind) : Bool :=
  if operator = .orWord then left.isTruthy else !left.isTruthy

def logical (operator : Kind) (left right : Value) : Value :=
  if left.settles operator then left else right

end Value

end LoxLang
