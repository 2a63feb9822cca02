import LoxLang.Proofs.Grammar.Reading
import LoxLang.Proofs.Scope.Linked

/-!
# Formed trees

What every tree that has been read is like, whatever it says.

* The numbers of its expressions lie in a range, and those of different parts in ranges that are
  apart.
* What is declared or assigned to is a name, and a branch or the body of a loop declares nothing.

`Token.Spelled` is what is asked of the tokens for this.
-/

namespace LoxLang

/-- A token that is spelled as its kind demands. -/
structure Token.Spelled (t : Token) : Prop where
  name : t.kind = .identifier → IsName t.lexeme
  this : t.kind = .thisWord → t.lexeme = "this"

/-- Two parts of a range, one behind the other. -/
def Apart (P Q : NodeId → NodeId → Prop) (i j : NodeId) : Prop :=
  ∃ k, (P i k ∧ Q k j) ∨ (Q i k ∧ P k j)

/-! ## Expressions -/

mutual

def Expr.Formed : Expr → NodeId → NodeId → Prop
  | .assign id name value, i, j => IsName name.lexeme ∧ value.Formed i id ∧ id < j
  | .binary id left _ right, i, j | .logical id left _ right, i, j
  | .set id left _ right, i, j => ∃ k, left.Formed i k ∧ right.Formed k id ∧ id < j
  | .call id callee _ arguments, i, j =>
      ∃ k, callee.Formed i k ∧ Expr.AllFormed arguments k id ∧ id < j
  | .get id e _, i, j | .grouping id e, i, j | .unary id _ e, i, j => e.Formed i id ∧ id < j
  | .literal id _, i, j | .super id _ _, i, j => i ≤ id ∧ id < j
  | .this id keyword, i, j => keyword.lexeme = "this" ∧ i ≤ id ∧ id < j
  | .variable ref, i, j => i ≤ ref.id ∧ ref.id < j

def Expr.AllFormed : List Expr → NodeId → NodeId → Prop
  | [], i, j => i ≤ j
  | e :: es, i, j => ∃ k, e.Formed i k ∧ Expr.AllFormed es k j

end

mutual

/-- The numbers of an expression go up. -/
theorem Expr.Formed.le : ∀ {e : Expr} {i j : NodeId}, e.Formed i j → i ≤ j
  | .assign .., _, _, ⟨_, h, hid⟩ | .get .., _, _, ⟨h, hid⟩ | .grouping .., _, _, ⟨h, hid⟩
  | .unary .., _, _, ⟨h, hid⟩ => Nat.le_trans h.le (Nat.le_of_lt hid)
  | .binary .., i, j, ⟨k, hleft, hright, hid⟩ | .logical .., i, j, ⟨k, hleft, hright, hid⟩
  | .set .., i, j, ⟨k, hleft, hright, hid⟩ => by
      have hik : i ≤ k := hleft.le
      have hkj : k ≤ j := Nat.le_trans hright.le (Nat.le_of_lt hid)
      exact Nat.le_trans hik hkj
  | .call .., i, j, ⟨k, hcallee, harguments, hid⟩ => by
      have hik : i ≤ k := hcallee.le
      have hkj : k ≤ j := Nat.le_trans (Expr.le_of_allFormed harguments) (Nat.le_of_lt hid)
      exact Nat.le_trans hik hkj
  | .literal .., _, _, ⟨h, hid⟩ | .super .., _, _, ⟨h, hid⟩ | .this .., _, _, ⟨_, h, hid⟩
  | .variable _, _, _, ⟨h, hid⟩ => Nat.le_trans h (Nat.le_of_lt hid)

theorem Expr.le_of_allFormed : ∀ {es : List Expr} {i j : NodeId}, Expr.AllFormed es i j → i ≤ j
  | [], _, _, h => h
  | _ :: _, _, _, ⟨_, h, hrest⟩ => Nat.le_trans h.le (Expr.le_of_allFormed hrest)

end

/-- A range may begin earlier. -/
theorem Expr.Formed.mono_left : ∀ {e : Expr} {i i' j : NodeId}, e.Formed i j → i' ≤ i →
    e.Formed i' j
  | .assign .., _, _, _, ⟨hname, h, hid⟩, hle => ⟨hname, h.mono_left hle, hid⟩
  | .get .., _, _, _, ⟨h, hid⟩, hle | .grouping .., _, _, _, ⟨h, hid⟩, hle
  | .unary .., _, _, _, ⟨h, hid⟩, hle => ⟨h.mono_left hle, hid⟩
  | .binary .., _, _, _, ⟨k, h, hrest⟩, hle | .logical .., _, _, _, ⟨k, h, hrest⟩, hle
  | .set .., _, _, _, ⟨k, h, hrest⟩, hle | .call .., _, _, _, ⟨k, h, hrest⟩, hle =>
      ⟨k, h.mono_left hle, hrest⟩
  | .literal .., _, _, _, ⟨h, hid⟩, hle | .super .., _, _, _, ⟨h, hid⟩, hle
  | .variable _, _, _, _, ⟨h, hid⟩, hle => ⟨Nat.le_trans hle h, hid⟩
  | .this .., _, _, _, ⟨hkeyword, h, hid⟩, hle => ⟨hkeyword, Nat.le_trans hle h, hid⟩

/-- Another argument behind those that have been read. -/
theorem Expr.AllFormed.append : ∀ {es : List Expr} {e : Expr} {i j k : NodeId},
    Expr.AllFormed es i j → e.Formed j k → Expr.AllFormed (es ++ [e]) i k
  | [], _, _, _, k, h, he => ⟨k, he.mono_left h, Nat.le_refl k⟩
  | _ :: _, _, _, _, _, ⟨l, hfirst, hrest⟩, he => ⟨l, hfirst, hrest.append he⟩

/-! ## Statements -/

mutual

def Stmt.Formed : Stmt → NodeId → NodeId → Prop
  | .block body, i, j => Stmt.AllFormed body i j
  | .classDecl name none methods, i, j =>
      IsName name.lexeme ∧ FunctionDecl.AllFormed methods i j
  | .classDecl name (some ref) methods, i, j =>
      IsName name.lexeme ∧ ∃ k, (i ≤ ref.id ∧ ref.id < k) ∧ FunctionDecl.AllFormed methods k j
  | .expression e, i, j | .print e, i, j => e.Formed i j
  | .function decl, i, j => IsName decl.name.lexeme ∧ decl.Formed i j
  | .ifElse condition thenBranch none, i, j =>
      thenBranch.declared? = none ∧ ∃ k, condition.Formed i k ∧ thenBranch.Formed k j
  | .ifElse condition thenBranch (some elseBranch), i, j =>
      thenBranch.declared? = none ∧ elseBranch.declared? = none ∧
        ∃ k l, condition.Formed i k ∧ thenBranch.Formed k l ∧ elseBranch.Formed l j
  | .returnValue _ none, i, j => i ≤ j
  | .returnValue _ (some e), i, j => e.Formed i j
  | .varDecl name none, i, j => IsName name.lexeme ∧ i ≤ j
  | .varDecl name (some e), i, j => IsName name.lexeme ∧ e.Formed i j
  | .whileLoop condition body, i, j =>
      body.declared? = none ∧ Apart condition.Formed body.Formed i j

/-- The increment of a `for` is numbered before its body, although it stands behind it. -/
def Stmt.AllFormed : List Stmt → NodeId → NodeId → Prop
  | [], i, j => i ≤ j
  | s :: ss, i, j => Apart s.Formed (Stmt.AllFormed ss) i j

def FunctionDecl.Formed : FunctionDecl → NodeId → NodeId → Prop
  | ⟨_, params, body⟩, i, j => (∀ param ∈ params, IsName param.lexeme) ∧ Stmt.AllFormed body i j

def FunctionDecl.AllFormed : List FunctionDecl → NodeId → NodeId → Prop
  | [], i, j => i ≤ j
  | decl :: decls, i, j => ∃ k, decl.Formed i k ∧ FunctionDecl.AllFormed decls k j

end

/-- Two parts that stand apart together go up. -/
theorem Apart.le {P Q : NodeId → NodeId → Prop} {i j : NodeId} (h : Apart P Q i j)
    (hP : ∀ {i j}, P i j → i ≤ j) (hQ : ∀ {i j}, Q i j → i ≤ j) : i ≤ j := by
  rcases h with ⟨k, h | h⟩
  · exact Nat.le_trans (hP h.1) (hQ h.2)
  · exact Nat.le_trans (hQ h.1) (hP h.2)

mutual

/-- The numbers of a statement go up, although those of a loop are not in the order of its text. -/
theorem Stmt.le_of_formed : ∀ {s : Stmt} {i j : NodeId}, s.Formed i j → i ≤ j
  | .block _, _, _, h => Stmt.le_of_allFormed h
  | .classDecl _ none _, _, _, ⟨_, hmethods⟩ => FunctionDecl.le_of_allFormed hmethods
  | .classDecl _ (some _) _, i, j, ⟨_, k, href, hmethods⟩ => by
      have hik : i ≤ k := Nat.le_trans href.1 (Nat.le_of_lt href.2)
      exact Nat.le_trans hik (FunctionDecl.le_of_allFormed hmethods)
  | .expression _, _, _, h | .print _, _, _, h => Expr.Formed.le h
  | .function _, _, _, ⟨_, hdecl⟩ => FunctionDecl.le_of_formed hdecl
  | .ifElse _ _ none, _, _, ⟨_, _, hcondition, hthen⟩ =>
      Nat.le_trans hcondition.le (Stmt.le_of_formed hthen)
  | .ifElse _ _ (some _), i, j, ⟨_, _, k, l, hcondition, hthen, helse⟩ => by
      have hil : i ≤ l := Nat.le_trans hcondition.le (Stmt.le_of_formed hthen)
      exact Nat.le_trans hil (Stmt.le_of_formed helse)
  | .returnValue _ none, _, _, h => h
  | .returnValue _ (some _), _, _, h => Expr.Formed.le h
  | .varDecl _ none, _, _, ⟨_, h⟩ => h
  | .varDecl _ (some _), _, _, ⟨_, h⟩ => Expr.Formed.le h
  | .whileLoop _ _, _, _, ⟨_, h⟩ => h.le Expr.Formed.le Stmt.le_of_formed

theorem Stmt.le_of_allFormed : ∀ {ss : List Stmt} {i j : NodeId}, Stmt.AllFormed ss i j → i ≤ j
  | [], _, _, h => h
  | _ :: _, _, _, h => h.le Stmt.le_of_formed Stmt.le_of_allFormed

theorem FunctionDecl.le_of_formed : ∀ {decl : FunctionDecl} {i j : NodeId}, decl.Formed i j → i ≤ j
  | ⟨_, _, _⟩, _, _, h => Stmt.le_of_allFormed h.2

theorem FunctionDecl.le_of_allFormed : ∀ {decls : List FunctionDecl} {i j : NodeId},
    FunctionDecl.AllFormed decls i j → i ≤ j
  | [], _, _, h => h
  | _ :: _, _, _, ⟨_, h, hrest⟩ =>
      Nat.le_trans (FunctionDecl.le_of_formed h) (FunctionDecl.le_of_allFormed hrest)

end

/-! ## Loops with clauses -/

/-- A clause that may be missing, in a range. -/
def ClauseFormed {α : Type} (P : α → NodeId → NodeId → Prop) : Option α → NodeId → NodeId → Prop
  | none, i, j => i = j
  | some a, i, j => P a i j

/-- The increment of a `for`, and its body behind it. -/
def TurnFormed (increment : Option Expr) (body : Stmt) (i j : NodeId) : Prop :=
  ∃ k, ClauseFormed Expr.Formed increment i k ∧ body.Formed k j

/-- Two statements can be made a block if neither declares what a branch may not. -/
theorem Stmt.formed_block_pair {first second : Stmt} {i j : NodeId}
    (h : Apart first.Formed second.Formed i j) : (Stmt.block [first, second]).Formed i j := by
  rcases h with ⟨k, ⟨hfirst, hsecond⟩ | ⟨hsecond, hfirst⟩⟩
  · exact ⟨k, .inl ⟨hfirst, j, .inl ⟨hsecond, Nat.le_refl j⟩⟩⟩
  · exact ⟨k, .inr ⟨⟨k, .inl ⟨hsecond, Nat.le_refl k⟩⟩, hfirst⟩⟩

namespace Reading

/-- The body of a loop with its increment uses the numbers of both. -/
theorem formed_withIncrement {body : Stmt} {increment : Option Expr} {i j : NodeId}
    (h : TurnFormed increment body i j) : (withIncrement body increment).Formed i j := by
  rcases h with ⟨k, hincrement, hbody⟩
  cases increment with
  | none =>
      rcases hincrement with rfl
      exact hbody
  | some e =>
      -- The increment stands behind the body and is numbered before it.
      exact Stmt.formed_block_pair ⟨k, .inr ⟨hincrement, hbody⟩⟩

theorem declared?_withIncrement {body : Stmt} (hbody : body.declared? = none)
    (increment : Option Expr) : (withIncrement body increment).declared? = none := by
  cases increment with
  | none => exact hbody
  | some e => rfl

/-- The block around a loop with an initializer is formed, and the loop in it declares nothing. -/
theorem formed_withInitializer {loop : Stmt} {initializer : Option Stmt} {i j k : NodeId}
    (hinit : ClauseFormed Stmt.Formed initializer i j) (hloop : loop.Formed j k) :
    (withInitializer loop initializer).Formed i k := by
  cases initializer with
  | none =>
      rcases hinit with rfl
      exact hloop
  | some s => exact Stmt.formed_block_pair ⟨j, .inl ⟨hinit, hloop⟩⟩

/-- The condition is numbered before the turn, or behind it if it was left out. -/
theorem formed_loop {initializer : Option Stmt} {condition : Expr} {increment : Option Expr}
    {body : Stmt} {i j m : NodeId} (hinit : ClauseFormed Stmt.Formed initializer i j)
    (hbody : body.declared? = none) (h : Apart condition.Formed (TurnFormed increment body) j m) :
    (withInitializer (.whileLoop condition (withIncrement body increment)) initializer).Formed
      i m := by
  have hdeclared := declared?_withIncrement hbody increment
  rcases h with ⟨k, ⟨hcondition, hturn⟩ | ⟨hturn, hcondition⟩⟩
  · exact formed_withInitializer hinit
      ⟨hdeclared, k, .inl ⟨hcondition, formed_withIncrement hturn⟩⟩
  · exact formed_withInitializer hinit
      ⟨hdeclared, k, .inr ⟨formed_withIncrement hturn, hcondition⟩⟩

theorem declared?_withInitializer {loop : Stmt} (hloop : loop.declared? = none)
    (initializer : Option Stmt) : (withInitializer loop initializer).declared? = none := by
  cases initializer with
  | none => exact hloop
  | some s => rfl

end Reading

/-! ## What has been read -/

namespace Reading

/-- A node with an operator takes the number after those of its operands. -/
theorem formed_node (p : Precedence) {left right : Expr} {i j k : NodeId} (operator : Token)
    (hleft : left.Formed i j) (hright : right.Formed j k) :
    (p.node k left operator right).Formed i (k + 1) := by
  cases p <;> exact ⟨j, hleft, hright, Nat.lt_succ_self k⟩

mutual

theorem Expression.formed {ts : List Token} {i j : NodeId} {e : Expr} :
    Expression ts i e j → (∀ t ∈ ts, t.Spelled) → e.Formed i j
  | .plain h, hts => h.formed hts
  | .assign hname _ h, hts => by
      simp only [List.forall_mem_cons] at hts
      have hvalue := h.formed hts.2.2
      exact ⟨hts.1.name hname, hvalue.mono_left (Nat.le_succ i), Nat.lt_succ_self _⟩
  | .set hobject _ _ _ h, hts => by
      simp only [List.forall_mem_append, List.forall_mem_cons] at hts
      have hvalue := h.formed hts.2.2.2.2
      exact ⟨_, hobject.formed hts.1, hvalue.mono_left (Nat.le_succ _), Nat.lt_succ_self _⟩

theorem Operation.formed {ps : List Precedence} {ts : List Token} {i j : NodeId} {e : Expr} :
    Operation ps ts i e j → (∀ t ∈ ts, t.Spelled) → e.Formed i j
  | .unary h, hts => h.formed hts
  | .chain hleft hchain, hts => by
      simp only [List.forall_mem_append] at hts
      exact hchain.formed (hleft.formed hts.1) hts.2

/-- By induction on the chain: what has been read so far is the left operand of the next
operator. -/
theorem Chain.formed {p : Precedence} {tighter : List Precedence} {left e : Expr}
    {ts : List Token} {i j k : NodeId} : Chain p tighter left ts j e k → left.Formed i j →
    (∀ t ∈ ts, t.Spelled) → e.Formed i k
  | .done, hleft, _ => hleft
  | .more _ hright hchain, hleft, hts => by
      simp only [List.cons_append, List.forall_mem_cons, List.forall_mem_append] at hts
      have hright' := hright.formed hts.2.1
      exact hchain.formed (formed_node p _ hleft hright') hts.2.2

theorem Unary.formed {ts : List Token} {i j : NodeId} {e : Expr} :
    Unary ts i e j → (∀ t ∈ ts, t.Spelled) → e.Formed i j
  | .operator _ h, hts => by
      simp only [List.forall_mem_cons] at hts
      exact ⟨h.formed hts.2, Nat.lt_succ_self _⟩
  | .call h, hts => h.formed hts

theorem Call.formed {ts : List Token} {i j : NodeId} {e : Expr} :
    Call ts i e j → (∀ t ∈ ts, t.Spelled) → e.Formed i j
  | .mk hprimary hcalls, hts => by
      simp only [List.forall_mem_append] at hts
      exact hcalls.formed (hprimary.formed hts.1) hts.2

/-- By induction on the calls: what has been read so far is the callee of the next one. -/
theorem Calls.formed {callee e : Expr} {ts : List Token} {i j k : NodeId} :
    Calls callee ts j e k → callee.Formed i j → (∀ t ∈ ts, t.Spelled) → e.Formed i k
  | .done, hcallee, _ => hcallee
  | .call _ harguments _ hcalls, hcallee, hts => by
      simp only [List.cons_append, List.forall_mem_cons, List.forall_mem_append] at hts
      have hargs := harguments.formed hts.2.1
      exact hcalls.formed ⟨_, hcallee, hargs, Nat.lt_succ_self _⟩ hts.2.2.2
  | .get _ _ hcalls, hcallee, hts => by
      simp only [List.forall_mem_cons] at hts
      exact hcalls.formed ⟨hcallee, Nat.lt_succ_self _⟩ hts.2.2

theorem Arguments.formed {ts : List Token} {i j : NodeId} {es : List Expr} :
    Arguments ts i es j → (∀ t ∈ ts, t.Spelled) → Expr.AllFormed es i j
  | .none, _ => Nat.le_refl i
  | .some hfirst hmore, hts => by
      simp only [List.forall_mem_append] at hts
      exact hmore.formed ⟨_, hfirst.formed hts.1, Nat.le_refl _⟩ hts.2

theorem MoreArguments.formed {before es : List Expr} {ts : List Token} {i j k : NodeId} :
    MoreArguments before ts j es k → Expr.AllFormed before i j → (∀ t ∈ ts, t.Spelled) →
    Expr.AllFormed es i k
  | .done, hbefore, _ => hbefore
  | .more _ _ h hmore, hbefore, hts => by
      simp only [List.cons_append, List.forall_mem_cons, List.forall_mem_append] at hts
      exact hmore.formed (hbefore.append (h.formed hts.2.1)) hts.2.2

theorem Primary.formed {ts : List Token} {i j : NodeId} {e : Expr} :
    Primary ts i e j → (∀ t ∈ ts, t.Spelled) → e.Formed i j
  | .falseWord _, _ | .trueWord _, _ | .nilWord _, _ | .number _, _ | .string _, _
  | .variable _, _ | .super _ _ _, _ => ⟨Nat.le_refl i, Nat.lt_succ_self i⟩
  | .this h, hts => by
      simp only [List.forall_mem_singleton] at hts
      exact ⟨hts.this h, Nat.le_refl i, Nat.lt_succ_self i⟩
  | .grouping _ h _, hts => by
      simp only [List.cons_append, List.forall_mem_cons, List.forall_mem_append] at hts
      exact ⟨h.formed hts.2.1, Nat.lt_succ_self _⟩

end

theorem OptionalExpression.formed {ts : List Token} {i j : NodeId} {o : Option Expr} :
    OptionalExpression ts i o j → (∀ t ∈ ts, t.Spelled) → ClauseFormed Expr.Formed o i j
  | .none, _ => rfl
  | .some h, hts => h.formed hts

theorem VarDeclaration.formed {ts : List Token} {i j : NodeId} {s : Stmt} :
    VarDeclaration ts i s j → (∀ t ∈ ts, t.Spelled) → s.Formed i j
  | .mk hname hvalue _, hts => by
      simp only [List.cons_append, List.forall_mem_cons, List.forall_mem_append] at hts
      have hvar := hts.1.name hname
      cases hvalue with
      | none => exact ⟨hvar, Nat.le_refl i⟩
      | some _ h =>
          simp only [List.forall_mem_cons] at hts
          exact ⟨hvar, h.formed hts.2.1.2⟩

theorem ExpressionStatement.formed {ts : List Token} {i j : NodeId} {s : Stmt} :
    ExpressionStatement ts i s j → (∀ t ∈ ts, t.Spelled) → s.Formed i j
  | .mk h _, hts => by
      simp only [List.forall_mem_append] at hts
      exact h.formed hts.1

theorem ForInitializer.formed {ts : List Token} {i j : NodeId} {o : Option Stmt} :
    ForInitializer ts i o j → (∀ t ∈ ts, t.Spelled) → ClauseFormed Stmt.Formed o i j
  | .none _, _ => rfl
  | .variable _ h, hts => by
      simp only [List.forall_mem_cons] at hts
      exact h.formed hts.2
  | .expression h, hts => h.formed hts

/-- Parameters are identifiers, by what the scanner says of their lexemes. -/
theorem MoreParameters.isName {before ts params : List Token} :
    MoreParameters before ts params → (∀ t ∈ before, IsName t.lexeme) → (∀ t ∈ ts, t.Spelled) →
    ∀ t ∈ params, IsName t.lexeme
  | .done, hbefore, _ => hbefore
  | .more _ _ hparam hmore, hbefore, hts => by
      simp only [List.forall_mem_cons] at hts
      refine hmore.isName ?_ hts.2.2
      simp only [List.forall_mem_append, List.forall_mem_singleton]
      exact ⟨hbefore, hts.2.1.name hparam⟩

theorem Parameters.isName {ts params : List Token} :
    Parameters ts params → (∀ t ∈ ts, t.Spelled) → ∀ t ∈ params, IsName t.lexeme
  | .none, _ => nofun
  | .some hfirst hmore, hts => by
      simp only [List.forall_mem_cons] at hts
      exact hmore.isName (by simpa using hts.1.name hfirst) hts.2

/-- What the grammar calls a statement declares no name, so no branch and no body of a loop does. -/
theorem Statement.declared? {isOpen : Bool} {ts : List Token} {i j : NodeId} {s : Stmt}
    (h : Statement isOpen ts i s j) : s.declared? = none := by
  cases h with
  | expression h =>
      cases h
      rfl
  | forLoop | forEver => exact declared?_withInitializer rfl _
  | _ => rfl

theorem Function.isName {ts : List Token} {i j : NodeId} {decl : FunctionDecl} :
    Function ts i decl j → (∀ t ∈ ts, t.Spelled) → IsName decl.name.lexeme
  | .mk hname _ _ _ _ _ _, hts => (hts _ (by simp)).name hname

mutual

/-- A declaration that is read from spelled tokens is formed, its names are names and its numbers go
up. -/
theorem Declaration.formed {ts : List Token} {i j : NodeId} {s : Stmt} :
    Declaration ts i s j → (∀ t ∈ ts, t.Spelled) → s.Formed i j
  | .classDecl _ hname hsuper _ hmethods _, hts => by
      simp only [List.cons_append, List.forall_mem_cons, List.forall_mem_append] at hts
      have hformed := hmethods.formed hts.2.2.1.2.2
      have hclass := hts.2.1.name hname
      cases hsuper with
      | none => exact ⟨hclass, hformed⟩
      | some _ _ => exact ⟨hclass, i + 1, ⟨Nat.le_refl i, Nat.lt_succ_self i⟩, hformed⟩
  | .function _ h, hts => by
      simp only [List.forall_mem_cons] at hts
      exact ⟨h.isName hts.2, h.formed hts.2⟩
  | .variable _ h, hts => by
      simp only [List.forall_mem_cons] at hts
      exact h.formed hts.2
  | .statement h, hts => h.formed hts

theorem Methods.formed {ts : List Token} {i j : NodeId} {decls : List FunctionDecl} :
    Methods ts i decls j → (∀ t ∈ ts, t.Spelled) → FunctionDecl.AllFormed decls i j
  | .nil, _ => Nat.le_refl i
  | .cons h hmore, hts => by
      simp only [List.forall_mem_append] at hts
      exact ⟨_, h.formed hts.1, hmore.formed hts.2⟩

theorem Function.formed {ts : List Token} {i j : NodeId} {decl : FunctionDecl} :
    Function ts i decl j → (∀ t ∈ ts, t.Spelled) → decl.Formed i j
  | .mk _ _ hparams _ _ hbody _, hts => by
      simp only [List.cons_append, List.forall_mem_cons, List.forall_mem_append] at hts
      rcases hts with ⟨-, -, ⟨hts, -, -, hus⟩, -⟩
      exact ⟨hparams.isName hts, hbody.formed hus⟩

/-- A program is formed, by induction on its declarations. -/
theorem Declarations.formed {ts : List Token} {i j : NodeId} {ss : List Stmt} :
    Declarations ts i ss j → (∀ t ∈ ts, t.Spelled) → Stmt.AllFormed ss i j
  | .nil, _ => Nat.le_refl i
  | .cons h hmore, hts => by
      simp only [List.forall_mem_append] at hts
      exact ⟨_, .inl ⟨h.formed hts.1, hmore.formed hts.2⟩⟩

theorem Statement.formed {isOpen : Bool} {ts : List Token} {i j : NodeId} {s : Stmt} :
    Statement isOpen ts i s j → (∀ t ∈ ts, t.Spelled) → s.Formed i j
  | .expression h, hts => h.formed hts
  | .print _ h _, hts => by
      simp only [List.cons_append, List.forall_mem_cons, List.forall_mem_append] at hts
      exact h.formed hts.2.1
  | .returnValue _ hvalue _, hts => by
      simp only [List.cons_append, List.forall_mem_cons, List.forall_mem_append] at hts
      cases hvalue with
      | none => exact Nat.le_refl i
      | some h => exact h.formed hts.2.1
  | .block _ h _, hts => by
      simp only [List.cons_append, List.forall_mem_cons, List.forall_mem_append] at hts
      exact h.formed hts.2.1
  | .whileLoop _ _ h _ hbody, hts => by
      simp only [List.cons_append, List.forall_mem_cons, List.forall_mem_append] at hts
      exact ⟨hbody.declared?, _, .inl ⟨h.formed hts.2.2.1, hbody.formed hts.2.2.2.2⟩⟩
  | .ifOnly _ _ h _ hthen, hts => by
      simp only [List.cons_append, List.forall_mem_cons, List.forall_mem_append] at hts
      exact ⟨hthen.declared?, _, h.formed hts.2.2.1, hthen.formed hts.2.2.2.2⟩
  | .ifElse _ _ h _ hthen _ helse, hts => by
      simp only [List.cons_append, List.forall_mem_cons, List.forall_mem_append] at hts
      rcases hts with ⟨-, -, ⟨hts, -, hus⟩, -, hvs⟩
      exact ⟨hthen.declared?, helse.declared?, _, _, h.formed hts, hthen.formed hus,
        helse.formed hvs⟩
  -- The body may not declare, and neither may the statements that the loop is made of.
  | .forLoop _ _ hinit h _ hincrement _ hbody, hts => by
      simp only [List.cons_append, List.forall_mem_cons, List.forall_mem_append] at hts
      rcases hts with ⟨-, -, ⟨⟨hts, hus⟩, -, hvs⟩, -, hws⟩
      refine formed_loop (hinit.formed hts) hbody.declared? ⟨_, .inl ⟨h.formed hus, ?_⟩⟩
      exact ⟨_, hincrement.formed hvs, hbody.formed hws⟩
  | .forEver _ _ hinit _ hincrement _ hbody, hts => by
      simp only [List.cons_append, List.forall_mem_cons, List.forall_mem_append] at hts
      rcases hts with ⟨-, -, ⟨hts, -, hvs⟩, -, hws⟩
      have hturn : TurnFormed _ _ _ _ := ⟨_, hincrement.formed hvs, hbody.formed hws⟩
      exact formed_loop (hinit.formed hts) hbody.declared?
        ⟨_, .inr ⟨hturn, Nat.le_refl _, Nat.lt_succ_self _⟩⟩

end

end Reading

end LoxLang
