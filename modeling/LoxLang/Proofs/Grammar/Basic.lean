import LoxLang.Token.Basic

/-!
# The grammar

The grammar of the language, as data: `rule` gives the right side of the rule for each name, and
`Derives` says which lists of tokens a form stands for. Nothing here depends on how programs are
read.

* `Form.Means` is the meaning of a form when the names in it already have one.
* `Derives.means`: a meaning of the names that agrees with every rule covers all derivations.
-/

namespace LoxLang

namespace Grammar

/-! ## Forms -/

/-- The names that the rules define. -/
inductive Symbol where
  | program | declaration | classDecl | funDecl | function | parameters | varDecl
  | statement | exprStmt | forStmt | ifStmt | printStmt | returnStmt | whileStmt | block
  | expression | assignment | logicOr | logicAnd | equality | comparison | term | factor
  | unary | call | arguments | primary
  deriving DecidableEq, Repr

/-- What can stand right of an arrow. -/
inductive Form where
  /-- One word, of one of the given kinds. -/
  | oneOf (kinds : List Kind)
  | symbol (name : Symbol)
  | seq (first second : Form)
  | alt (first second : Form)
  | optional (form : Form)
  | many (form : Form)
  /-- As many as a number of times. -/
  | upTo (count : Nat) (form : Form)

instance : Append Form := ⟨.seq⟩

instance : OrOp Form := ⟨.alt⟩

namespace Form

def word (kind : Kind) : Form := oneOf [kind]

/-- Operands with operators between them. -/
def operands (operand : Symbol) (operators : List Kind) : Form :=
  symbol operand ++ many (oneOf operators ++ symbol operand)

/-- A list with commas, of at least one and at most 255 members. -/
def commaList (member : Form) : Form :=
  member ++ upTo 254 (word .comma ++ member)

end Form

/-! ## Rules -/

open Form

def rule : Symbol → Form
  | .program => many (symbol .declaration) ++ word .eof
  | .declaration =>
      symbol .classDecl ||| symbol .funDecl ||| symbol .varDecl ||| symbol .statement
  | .classDecl =>
      word .classWord ++ word .identifier ++ optional (word .less ++ word .identifier) ++
        word .leftBrace ++ many (symbol .function) ++ word .rightBrace
  | .funDecl => word .funWord ++ symbol .function
  | .function =>
      word .identifier ++ word .leftParen ++ optional (symbol .parameters) ++ word .rightParen ++
        symbol .block
  | .parameters => commaList (word .identifier)
  | .varDecl =>
      word .varWord ++ word .identifier ++ optional (word .equal ++ symbol .expression) ++
        word .semicolon
  | .statement =>
      symbol .exprStmt ||| symbol .forStmt ||| symbol .ifStmt ||| symbol .printStmt |||
        symbol .returnStmt ||| symbol .whileStmt ||| symbol .block
  | .exprStmt => symbol .expression ++ word .semicolon
  | .forStmt =>
      word .forWord ++ word .leftParen ++
        (symbol .varDecl ||| symbol .exprStmt ||| word .semicolon) ++
        optional (symbol .expression) ++ word .semicolon ++ optional (symbol .expression) ++
        word .rightParen ++ symbol .statement
  | .ifStmt =>
      word .ifWord ++ word .leftParen ++ symbol .expression ++ word .rightParen ++
        symbol .statement ++ optional (word .elseWord ++ symbol .statement)
  | .printStmt => word .printWord ++ symbol .expression ++ word .semicolon
  | .returnStmt => word .returnWord ++ optional (symbol .expression) ++ word .semicolon
  | .whileStmt =>
      word .whileWord ++ word .leftParen ++ symbol .expression ++ word .rightParen ++
        symbol .statement
  | .block => word .leftBrace ++ many (symbol .declaration) ++ word .rightBrace
  | .expression => symbol .assignment
  | .assignment =>
      optional (symbol .call ++ word .dot) ++ word .identifier ++ word .equal ++
        symbol .assignment ||| symbol .logicOr
  | .logicOr => operands .logicAnd [.orWord]
  | .logicAnd => operands .equality [.andWord]
  | .equality => operands .comparison [.bangEqual, .equalEqual]
  | .comparison => operands .term [.greater, .greaterEqual, .less, .lessEqual]
  | .term => operands .factor [.minus, .plus]
  | .factor => operands .unary [.slash, .star]
  | .unary => oneOf [.bang, .minus] ++ symbol .unary ||| symbol .call
  | .call =>
      symbol .primary ++ many (word .leftParen ++ optional (symbol .arguments) ++
        word .rightParen ||| word .dot ++ word .identifier)
  | .arguments => commaList (symbol .expression)
  | .primary =>
      oneOf [.trueWord, .falseWord, .nilWord, .thisWord, .number, .string, .identifier] |||
        word .leftParen ++ symbol .expression ++ word .rightParen |||
        word .superWord ++ word .dot ++ word .identifier

/-! ## Derivations -/

/-- The tokens can be derived from the form. -/
inductive Derives : Form → List Token → Prop where
  | oneOf {kinds : List Kind} {t : Token} :
      t.kind ∈ kinds → Derives (.oneOf kinds) [t]
  | symbol {name : Symbol} {ts : List Token} :
      Derives (rule name) ts → Derives (.symbol name) ts
  | seq {first second : Form} {ts us : List Token} :
      Derives first ts → Derives second us → Derives (first ++ second) (ts ++ us)
  | left {first second : Form} {ts : List Token} :
      Derives first ts → Derives (first ||| second) ts
  | right {first second : Form} {ts : List Token} :
      Derives second ts → Derives (first ||| second) ts
  | absent {form : Form} :
      Derives (.optional form) []
  | present {form : Form} {ts : List Token} :
      Derives form ts → Derives (.optional form) ts
  | manyNil {form : Form} :
      Derives (.many form) []
  | manyCons {form : Form} {ts us : List Token} :
      Derives form ts → Derives (.many form) us → Derives (.many form) (ts ++ us)
  | upToNil {count : Nat} {form : Form} :
      Derives (.upTo count form) []
  | upToCons {count : Nat} {form : Form} {ts us : List Token} :
      Derives form ts → Derives (.upTo count form) us →
      Derives (.upTo (count + 1) form) (ts ++ us)

theorem Derives.word {kind : Kind} {t : Token} (h : t.kind = kind) : Derives (word kind) [t] :=
  .oneOf (by simp [h])

/-! ## Meanings -/

/-- Lists of tokens that a property holds of, one behind the other. -/
inductive Repeated (P : List Token → Prop) : List Token → Prop where
  | nil : Repeated P []
  | cons {ts us : List Token} : P ts → Repeated P us → Repeated P (ts ++ us)

/-- At most `count` lists of tokens that a property holds of, one behind the other. -/
inductive RepeatedUpTo (P : List Token → Prop) : Nat → List Token → Prop where
  | nil {count : Nat} : RepeatedUpTo P count []
  | cons {count : Nat} {ts us : List Token} :
      P ts → RepeatedUpTo P count us → RepeatedUpTo P (count + 1) (ts ++ us)

/-- The tokens that a form stands for, when its names stand for `G`. -/
def Form.Means (G : Symbol → List Token → Prop) : Form → List Token → Prop
  | .oneOf kinds, ts => ∃ t, ts = [t] ∧ t.kind ∈ kinds
  | .symbol name, ts => G name ts
  | .seq first second, ts => ∃ us vs, ts = us ++ vs ∧ first.Means G us ∧ second.Means G vs
  | .alt first second, ts => first.Means G ts ∨ second.Means G ts
  | .optional form, ts => ts = [] ∨ form.Means G ts
  | .many form, ts => Repeated (form.Means G) ts
  | .upTo count form, ts => RepeatedUpTo (form.Means G) count ts

/-- The grammar is the least meaning: whatever is closed under all the rules holds of what is
derived. -/
theorem Derives.means {G : Symbol → List Token → Prop}
    (hG : ∀ name ts, (rule name).Means G ts → G name ts) {form : Form} {ts : List Token}
    (h : Derives form ts) : form.Means G ts := by
  induction h with
  | oneOf hkind => exact ⟨_, rfl, hkind⟩
  | symbol _ ih => exact hG _ _ ih
  | seq _ _ ih₁ ih₂ => exact ⟨_, _, rfl, ih₁, ih₂⟩
  | left _ ih => exact .inl ih
  | right _ ih => exact .inr ih
  | absent => exact .inl rfl
  | present _ ih => exact .inr ih
  | manyNil => exact .nil
  | manyCons _ _ ih₁ ih₂ => exact .cons ih₁ ih₂
  | upToNil => exact .nil
  | upToCons _ _ ih₁ ih₂ => exact .cons ih₁ ih₂

section Means

variable {G : Symbol → List Token → Prop} {ts : List Token}

@[simp] theorem means_oneOf {kinds : List Kind} :
    (oneOf kinds).Means G ts ↔ ∃ t, ts = [t] ∧ t.kind ∈ kinds := Iff.rfl

@[simp] theorem means_word {kind : Kind} :
    (word kind).Means G ts ↔ ∃ t, ts = [t] ∧ t.kind = kind := by
  simp [word]

@[simp] theorem means_symbol {name : Symbol} : (symbol name).Means G ts ↔ G name ts := Iff.rfl

/-- A form that is a sequence means a list that can be cut in two. -/
@[simp] theorem means_append {first second : Form} :
    (first ++ second).Means G ts ↔ ∃ us vs, ts = us ++ vs ∧ first.Means G us ∧ second.Means G vs :=
  Iff.rfl

@[simp] theorem means_or {first second : Form} :
    (first ||| second).Means G ts ↔ first.Means G ts ∨ second.Means G ts := Iff.rfl

@[simp] theorem means_optional {form : Form} :
    (optional form).Means G ts ↔ ts = [] ∨ form.Means G ts := Iff.rfl

/-- A repeated form means any number of lists put together. -/
@[simp] theorem means_many {form : Form} :
    (many form).Means G ts ↔ Repeated (form.Means G) ts := Iff.rfl

@[simp] theorem means_upTo {count : Nat} {form : Form} :
    (upTo count form).Means G ts ↔ RepeatedUpTo (form.Means G) count ts := Iff.rfl

end Means

end Grammar

end LoxLang
