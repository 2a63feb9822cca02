import LoxLang.Scope.Resolver

/-!
# Linked programs

When the addresses of names fit the scopes that they are used in.

* A `Layer` is a scope, seen as the names that it has declared so far. Class bodies have layers of
  their own kind, since what they bind is known to be a class or an object.
* `Addresses` are the distances that have been found for a range of numbers. Whatever else is known
  of the functions that were resolved goes with them.
* `Linked A Γ`: inside the layers `Γ`, every use of a name has the distance of the innermost layer
  that declares it, and no distance if there is none. In the initializer of a local variable, only
  an assignment can mean the variable itself.
-/

namespace LoxLang

/-- What can be declared: the names that are bound by a class body cannot. -/
def IsName (x : String) : Prop := x ≠ "this" ∧ x ≠ "super"

/-- The name of a token is no keyword. -/
abbrev Resolver.Named (t : Token) : Prop := IsName t.lexeme

/-- A scope, by what it declares. -/
inductive Layer where
  | names (xs : List String)
  | this
  | super
  deriving DecidableEq

namespace Layer

def declares : Layer → String → Bool
  | names xs, x => xs.contains x
  | this, x => x == "this"
  | super, x => x == "super"

/-- How many layers out a name is declared. -/
def depth? (x : String) (Γ : List Layer) : Option Nat := Γ.findIdx? (·.declares x)

/-- Declares a name in the innermost layer; the top level is not one. -/
def add (x : String) : List Layer → List Layer
  | names xs :: Γ => names (xs ++ [x]) :: Γ
  | Γ => Γ

/-- A name that the innermost layer does not declare yet. -/
def Fresh (x : String) : List Layer → Prop
  | names xs :: _ => x ∉ xs
  | _ => True

/-- The innermost layer that binds `this` is the body of a class. -/
def ThisAt (Γ : List Layer) (d : Nat) : Prop := depth? "this" Γ = some d ∧ Γ[d]? = some .this

def SuperAt (Γ : List Layer) (d : Nat) : Prop := depth? "super" Γ = some d ∧ Γ[d]? = some .super

/-! ## Distances -/

/-- A name is declared in the innermost layer, or one further out than from the next. -/
theorem depth?_cons (x : String) (l : Layer) (Γ : List Layer) :
    depth? x (l :: Γ) = if l.declares x then some 0 else (depth? x Γ).map (· + 1) := by
  simp [depth?, List.findIdx?_cons]

theorem depth?_cons_of_declares {x : String} {l : Layer} (Γ : List Layer)
    (h : l.declares x = true) : depth? x (l :: Γ) = some 0 := by
  simp [depth?_cons, h]

theorem depth?_cons_of_not_declares {x : String} {l : Layer} (Γ : List Layer)
    (h : l.declares x = false) : depth? x (l :: Γ) = (depth? x Γ).map (· + 1) := by
  simp [depth?_cons, h]

/-- What has been declared in the innermost layer is found there. -/
theorem depth?_of_add_eq {x : String} {xs : List String} {Γ Γ' : List Layer}
    (h : add x Γ = names xs :: Γ') : depth? x (names xs :: Γ') = some 0 := by
  cases Γ with
  | nil => cases h
  | cons l Γ =>
      cases l with
      | this | super => cases h
      | names ys =>
          cases h
          exact depth?_cons_of_declares _ (by simp [declares])

/-- A declaration changes the distance of no other name. -/
theorem depth?_add_of_ne {x y : String} (h : y ≠ x) (Γ : List Layer) :
    depth? y (add x Γ) = depth? y Γ := by
  match Γ with
  | [] => rfl
  | .names xs :: Γ => simp [add, depth?_cons, declares, h]
  | .this :: Γ => rfl
  | .super :: Γ => rfl

/-- A layer without `this` moves it one further out. -/
theorem ThisAt.cons {Γ : List Layer} {d : Nat} {l : Layer} (h : ThisAt Γ d)
    (hl : l.declares "this" = false) : ThisAt (l :: Γ) (d + 1) :=
  ⟨by simp [depth?_cons, hl, h.1], by simpa using h.2⟩

theorem SuperAt.cons {Γ : List Layer} {d : Nat} {l : Layer} (h : SuperAt Γ d)
    (hl : l.declares "super" = false) : SuperAt (l :: Γ) (d + 1) :=
  ⟨by simp [depth?_cons, hl, h.1], by simpa using h.2⟩

end Layer

/-! ## Addresses -/

/-- The distances found for the expressions whose numbers are in a range. -/
structure Addresses where
  find : NodeId → Option Nat
  first : NodeId
  next : NodeId
  /-- What is known of a function that was resolved inside some layers. -/
  known : List Layer → FunctionDecl → Prop

namespace Addresses

/-- A number of the range, with the distance found for it. -/
structure Has (A : Addresses) (id : NodeId) (distance : Option Nat) : Prop where
  first_le : A.first ≤ id
  lt_next : id < A.next
  find_eq : A.find id = distance

/-- A wider range, with the same distances where both have one. -/
structure Le (A A' : Addresses) : Prop where
  first_le : A'.first ≤ A.first
  next_le : A.next ≤ A'.next
  find_eq : ∀ id, A.first ≤ id → id < A.next → A'.find id = A.find id
  known : ∀ Γ decl, A.known Γ decl → A'.known Γ decl

instance : LE Addresses := ⟨Le⟩

/-- The distances of one are distances of the other. -/
def Within (A A' : Addresses) : Prop :=
  ∀ {id : NodeId} {distance : Option Nat}, A.Has id distance → A'.Has id distance

theorem Has.mono {A A' : Addresses} (hle : A ≤ A') {id : NodeId} {distance : Option Nat}
    (h : A.Has id distance) : A'.Has id distance where
  first_le := Nat.le_trans hle.first_le h.first_le
  lt_next := Nat.lt_of_lt_of_le h.lt_next hle.next_le
  find_eq := (hle.find_eq id h.first_le h.lt_next).trans h.find_eq

theorem Le.within {A A' : Addresses} (hle : A ≤ A') : A.Within A' := fun h => h.mono hle

theorem le_refl (A : Addresses) : A ≤ A :=
  ⟨Nat.le_refl _, Nat.le_refl _, fun _ _ _ => rfl, fun _ _ h => h⟩

end Addresses

open Layer

/-! ## Expressions -/

def Reference.Linked (A : Addresses) (Γ : List Layer) (ref : Reference) : Prop :=
  A.Has ref.id (depth? ref.name.lexeme Γ)

mutual

/-- The uses of names in an expression have their distances. The last argument is the variable
whose initializer this is. -/
def Expr.Linked (A : Addresses) (Γ : List Layer) (self : Option String) : Expr → Prop
  | .assign id name value =>
      value.Linked A Γ self ∧ IsName name.lexeme ∧
        A.Has id (if self = some name.lexeme then some 0 else depth? name.lexeme Γ)
  | .binary _ left _ right | .logical _ left _ right =>
      left.Linked A Γ self ∧ right.Linked A Γ self
  | .call _ callee _ arguments => callee.Linked A Γ self ∧ Expr.AllLinked A Γ self arguments
  | .get _ e _ | .grouping _ e | .unary _ _ e => e.Linked A Γ self
  | .literal _ _ => True
  | .set _ object _ value => object.Linked A Γ self ∧ value.Linked A Γ self
  | .super id _ _ => ∃ d, A.Has id (some (d + 1)) ∧ ThisAt Γ d ∧ SuperAt Γ (d + 1)
  | .this id keyword => keyword.lexeme = "this" ∧ ∃ d, A.Has id (some d) ∧ ThisAt Γ d
  | .variable ref => ref.Linked A Γ

def Expr.AllLinked (A : Addresses) (Γ : List Layer) (self : Option String) : List Expr → Prop
  | [] => True
  | e :: es => e.Linked A Γ self ∧ Expr.AllLinked A Γ self es

end

/-! ## Statements -/

/-- The name that a statement declares in the scope that it stands in. -/
def Stmt.declared? : Stmt → Option String
  | .classDecl name _ _ => some name.lexeme
  | .function decl => some decl.name.lexeme
  | .varDecl name _ => some name.lexeme
  | _ => none

def Stmt.after (Γ : List Layer) (s : Stmt) : List Layer :=
  match s.declared? with
  | some x => add x Γ
  | none => Γ

def Stmt.afterAll (Γ : List Layer) : List Stmt → List Layer
  | [] => Γ
  | s :: ss => Stmt.afterAll (s.after Γ) ss

/-- A statement that declares nothing leaves the layers as they are. -/
theorem Stmt.after_eq {s : Stmt} {Γ : List Layer} (h : s.declared? = none) : s.after Γ = Γ := by
  unfold Stmt.after
  rw [h]

theorem Stmt.after_nil (s : Stmt) : s.after [] = [] := by
  unfold Stmt.after
  split <;> rfl

theorem Stmt.after_ne_nil {Γ : List Layer} (hΓ : Γ ≠ []) (s : Stmt) : s.after Γ ≠ [] := by
  unfold Stmt.after
  split
  · unfold add
    split
    · exact List.cons_ne_nil _ _
    · exact hΓ
  · exact hΓ

/-- Statements declare names in the innermost layer only. -/
theorem Stmt.after_names (xs : List String) (Γ : List Layer) (s : Stmt) :
    ∃ ys, s.after (.names xs :: Γ) = .names ys :: Γ := by
  unfold Stmt.after
  split
  · exact ⟨_, rfl⟩
  · exact ⟨xs, rfl⟩

/-- Statements add names to the innermost layer, and no layer. -/
theorem Stmt.afterAll_names (Γ : List Layer) : ∀ (ss : List Stmt) (xs : List String),
    ∃ ys, Stmt.afterAll (.names xs :: Γ) ss = .names ys :: Γ
  | [], xs => ⟨xs, rfl⟩
  | s :: ss, xs => by
      rcases Stmt.after_names xs Γ s with ⟨ys, hys⟩
      rcases Stmt.afterAll_names Γ ss ys with ⟨zs, hzs⟩
      exact ⟨zs, by rw [Stmt.afterAll, hys, hzs]⟩

/-- The variable that an initializer in some scope belongs to, if the scope is a local one. -/
def Layer.self (Γ : List Layer) (x : String) : Option String := if Γ = [] then none else some x

mutual

def Stmt.Linked (A : Addresses) (Γ : List Layer) : Stmt → Prop
  | .block body => Stmt.AllLinked A (.names [] :: Γ) body
  | .classDecl name none methods =>
      IsName name.lexeme ∧ Fresh name.lexeme Γ ∧
        FunctionDecl.AllLinked A (.this :: add name.lexeme Γ) methods
  | .classDecl name (some ref) methods =>
      IsName name.lexeme ∧ Fresh name.lexeme Γ ∧ ref.Linked A Γ ∧
        FunctionDecl.AllLinked A (.this :: .super :: add name.lexeme Γ) methods
  | .expression e | .print e => e.Linked A Γ none
  | .function decl =>
      IsName decl.name.lexeme ∧ Fresh decl.name.lexeme Γ ∧ decl.Linked A (add decl.name.lexeme Γ)
  | .ifElse condition thenBranch none =>
      condition.Linked A Γ none ∧ thenBranch.Linked A Γ ∧ thenBranch.declared? = none
  | .ifElse condition thenBranch (some elseBranch) =>
      condition.Linked A Γ none ∧ (thenBranch.Linked A Γ ∧ thenBranch.declared? = none) ∧
        elseBranch.Linked A Γ ∧ elseBranch.declared? = none
  | .returnValue _ none => True
  | .returnValue _ (some e) => e.Linked A Γ none
  | .varDecl name none => IsName name.lexeme ∧ Fresh name.lexeme Γ
  | .varDecl name (some e) =>
      IsName name.lexeme ∧ Fresh name.lexeme Γ ∧ e.Linked A Γ (Layer.self Γ name.lexeme)
  | .whileLoop condition body =>
      condition.Linked A Γ none ∧ body.Linked A Γ ∧ body.declared? = none

def Stmt.AllLinked (A : Addresses) (Γ : List Layer) : List Stmt → Prop
  | [] => True
  | s :: ss => s.Linked A Γ ∧ Stmt.AllLinked A (s.after Γ) ss

def FunctionDecl.Linked (A : Addresses) (Γ : List Layer) : FunctionDecl → Prop
  | ⟨name, params, body⟩ =>
      (∀ param ∈ params, IsName param.lexeme) ∧ (params.map Token.lexeme).Nodup ∧
        Stmt.AllLinked A (.names (params.map Token.lexeme) :: Γ) body ∧
        (body ≠ [] → A.known Γ ⟨name, params, body⟩)

def FunctionDecl.AllLinked (A : Addresses) (Γ : List Layer) : List FunctionDecl → Prop
  | [] => True
  | decl :: decls => decl.Linked A Γ ∧ FunctionDecl.AllLinked A Γ decls

end

/-- What makes a function linked: its parameters are distinct names, and its body is linked inside
them. -/
theorem FunctionDecl.linked_iff {A : Addresses} {Γ : List Layer} {decl : FunctionDecl} :
    decl.Linked A Γ ↔ (∀ param ∈ decl.params, IsName param.lexeme) ∧
      (decl.params.map Token.lexeme).Nodup ∧
        Stmt.AllLinked A (.names (decl.params.map Token.lexeme) :: Γ) decl.body ∧
        (decl.body ≠ [] → A.known Γ decl) := by
  cases decl
  exact Iff.rfl

/-- A function without parameters and without a body has no names to link. -/
theorem FunctionDecl.linked_default (A : Addresses) (Γ : List Layer) :
    (default : FunctionDecl).Linked A Γ :=
  ⟨List.forall_mem_nil _, List.nodup_nil, trivial, absurd rfl⟩

theorem FunctionDecl.AllLinked.mem {A : Addresses} {Γ : List Layer} {decls : List FunctionDecl}
    (h : FunctionDecl.AllLinked A Γ decls) : ∀ decl ∈ decls, decl.Linked A Γ := by
  induction decls with
  | nil => exact fun _ hdecl => by cases hdecl
  | cons decl decls ih =>
      intro decl' hdecl
      rcases List.mem_cons.1 hdecl with rfl | hdecl
      · exact h.1
      · exact ih h.2 decl' hdecl

/-! ## Wider ranges -/

mutual

/-- More entries in a table break no link, by induction on the expression. -/
theorem Expr.linked_mono {A A' : Addresses} (hle : A.Within A') {Γ : List Layer}
    {self : Option String} : ∀ e : Expr, e.Linked A Γ self → e.Linked A' Γ self
  | .assign _ _ value, ⟨hvalue, hname, hlink⟩ => by
      have hvalue' := Expr.linked_mono hle value hvalue
      exact ⟨hvalue', hname, hle hlink⟩
  | .binary _ left _ right, ⟨hleft, hright⟩ | .logical _ left _ right, ⟨hleft, hright⟩ => by
      have hleft' := Expr.linked_mono hle left hleft
      exact ⟨hleft', Expr.linked_mono hle right hright⟩
  | .call _ callee _ arguments, ⟨hcallee, harguments⟩ => by
      have hcallee' := Expr.linked_mono hle callee hcallee
      exact ⟨hcallee', Expr.allLinked_mono hle arguments harguments⟩
  | .get _ e _, h | .grouping _ e, h | .unary _ _ e, h => Expr.linked_mono hle e h
  | .literal _ _, _ => trivial
  | .set _ object _ value, ⟨hobject, hvalue⟩ => by
      have hobject' := Expr.linked_mono hle object hobject
      exact ⟨hobject', Expr.linked_mono hle value hvalue⟩
  | .super _ _ _, ⟨d, hd, h⟩ => ⟨d, hle hd, h⟩
  | .this _ _, ⟨hkeyword, d, hd, h⟩ => ⟨hkeyword, d, hle hd, h⟩
  | .variable _, h => hle h

theorem Expr.allLinked_mono {A A' : Addresses} (hle : A.Within A') {Γ : List Layer}
    {self : Option String} :
    ∀ es : List Expr, Expr.AllLinked A Γ self es → Expr.AllLinked A' Γ self es
  | [], _ => trivial
  | e :: es, h => ⟨Expr.linked_mono hle e h.1, Expr.allLinked_mono hle es h.2⟩

end

mutual

/-- More entries in a table break no link, by induction on the statement. -/
theorem Stmt.linked_mono {A A' : Addresses} (hle : A ≤ A') {Γ : List Layer} :
    ∀ s : Stmt, s.Linked A Γ → s.Linked A' Γ
  | .block body, h => Stmt.allLinked_mono hle body h
  | .classDecl _ none methods, ⟨hname, hfresh, hmethods⟩ => by
      have hmethods' := FunctionDecl.allLinked_mono hle methods hmethods
      exact ⟨hname, hfresh, hmethods'⟩
  | .classDecl _ (some _) methods, ⟨hname, hfresh, href, hmethods⟩ => by
      have hmethods' := FunctionDecl.allLinked_mono hle methods hmethods
      exact ⟨hname, hfresh, href.mono hle, hmethods'⟩
  | .expression e, h | .print e, h => Expr.linked_mono hle.within e h
  | .function decl, ⟨hname, hfresh, hdecl⟩ => by
      have hdecl' := FunctionDecl.linked_mono hle decl hdecl
      exact ⟨hname, hfresh, hdecl'⟩
  | .ifElse condition thenBranch none, ⟨hcondition, hthen, hdeclared⟩ => by
      have hcondition' := Expr.linked_mono hle.within condition hcondition
      have hthen' := Stmt.linked_mono hle thenBranch hthen
      exact ⟨hcondition', hthen', hdeclared⟩
  | .ifElse condition thenBranch (some elseBranch),
      ⟨hcondition, ⟨hthen, hdeclared⟩, helse, hdeclared'⟩ => by
      have hcondition' := Expr.linked_mono hle.within condition hcondition
      have hthen' := Stmt.linked_mono hle thenBranch hthen
      have helse' := Stmt.linked_mono hle elseBranch helse
      exact ⟨hcondition', ⟨hthen', hdeclared⟩, helse', hdeclared'⟩
  | .returnValue _ none, _ => trivial
  | .returnValue _ (some e), h => Expr.linked_mono hle.within e h
  | .varDecl _ none, h => h
  | .varDecl _ (some e), ⟨hname, hfresh, he⟩ =>
      ⟨hname, hfresh, Expr.linked_mono hle.within e he⟩
  | .whileLoop condition body, ⟨hcondition, hbody, hdeclared⟩ => by
      have hcondition' := Expr.linked_mono hle.within condition hcondition
      have hbody' := Stmt.linked_mono hle body hbody
      exact ⟨hcondition', hbody', hdeclared⟩

theorem Stmt.allLinked_mono {A A' : Addresses} (hle : A ≤ A') {Γ : List Layer} :
    ∀ ss : List Stmt, Stmt.AllLinked A Γ ss → Stmt.AllLinked A' Γ ss
  | [], _ => trivial
  | s :: ss, h => ⟨Stmt.linked_mono hle s h.1, Stmt.allLinked_mono hle ss h.2⟩

theorem FunctionDecl.linked_mono {A A' : Addresses} (hle : A ≤ A') {Γ : List Layer} :
    ∀ decl : FunctionDecl, decl.Linked A Γ → decl.Linked A' Γ
  | ⟨_, _, body⟩, ⟨hparams, hnodup, hbody, hknown⟩ => by
      have hbody' := Stmt.allLinked_mono hle body hbody
      exact ⟨hparams, hnodup, hbody', fun hne => hle.known _ _ (hknown hne)⟩

theorem FunctionDecl.allLinked_mono {A A' : Addresses} (hle : A ≤ A') {Γ : List Layer} :
    ∀ decls : List FunctionDecl, FunctionDecl.AllLinked A Γ decls → FunctionDecl.AllLinked A' Γ decls
  | [], _ => trivial
  | decl :: decls, h =>
      ⟨FunctionDecl.linked_mono hle decl h.1, FunctionDecl.allLinked_mono hle decls h.2⟩

end

end LoxLang
