import LoxLang.Proofs.Scope.Visits

/-!
# Nodes are visited once

The numbers of the parts of a program lie in ranges that are apart, so the walk over a program comes
to a node at most once, if there is an expression in it (`Visit.Leads.unique`). A node without any,
such as an empty block, is like all others of its kind.
-/

namespace LoxLang

/-! ## Numbers of nodes -/

/-- The number of an expression is the last one of its range. -/
theorem Expr.Formed.mem_range : ∀ {e : Expr} {i j : NodeId}, e.Formed i j → i ≤ e.id ∧ e.id < j
  | .assign .., _, _, ⟨_, h, hid⟩ | .get .., _, _, ⟨h, hid⟩ | .grouping .., _, _, ⟨h, hid⟩
  | .unary .., _, _, ⟨h, hid⟩ => ⟨h.le, hid⟩
  | .binary .., _, _, ⟨_, hleft, hright, hid⟩ | .logical .., _, _, ⟨_, hleft, hright, hid⟩
  | .set .., _, _, ⟨_, hleft, hright, hid⟩ => ⟨Nat.le_trans hleft.le hright.le, hid⟩
  | .call .., _, _, ⟨_, hcallee, harguments, hid⟩ =>
      ⟨Nat.le_trans hcallee.le (Expr.le_of_allFormed harguments), hid⟩
  | .literal .., _, _, h | .super .., _, _, h | .this .., _, _, ⟨_, h⟩ | .variable _, _, _, h => h

/-- The parts of an `if` that it has in any case. -/
theorem Stmt.Formed.branch {condition : Expr} {thenBranch : Stmt} {elseBranch : Option Stmt}
    {i j : NodeId} (h : (Stmt.ifElse condition thenBranch elseBranch).Formed i j) :
    ∃ k l, condition.Formed i k ∧ thenBranch.Formed k l ∧ l ≤ j := by
  cases elseBranch with
  | none =>
      rcases h with ⟨-, k, hcondition, hthen⟩
      exact ⟨k, j, hcondition, hthen, Nat.le_refl j⟩
  | some _ =>
      rcases h with ⟨-, -, k, l, hcondition, hthen, helse⟩
      exact ⟨k, l, hcondition, hthen, Stmt.le_of_formed helse⟩

namespace Node

/-- The numbers of a node lie in a range. -/
def Formed : Node → NodeId → NodeId → Prop
  | .expr e, i, j => e.Formed i j
  | .exprs es, i, j => Expr.AllFormed es i j
  | .stmt st, i, j => st.Formed i j
  | .stmts ss, i, j => Stmt.AllFormed ss i j
  | .superclass _ ref, i, j => i ≤ ref.id ∧ ref.id < j
  | .function decl, i, j => decl.Formed i j
  | .methods decls, i, j => FunctionDecl.AllFormed decls i j

/-- The number of a node is one of its own range. -/
theorem Formed.mem_range {node : Node} {i j id : NodeId} (h : node.Formed i j)
    (hid : node.id? = some id) : i ≤ id ∧ id < j := by
  cases node with
  | expr e =>
      cases hid
      exact Expr.Formed.mem_range h
  | superclass name ref =>
      cases hid
      exact h
  | _ => cases hid

/-- Two nodes whose numbers lie in ranges that are apart. -/
def Distinct (a b : Node) : Prop :=
  ∃ i j k l, a.Formed i j ∧ b.Formed k l ∧ (j ≤ k ∨ l ≤ i)

/-- Ranges one behind the other have no number in common. -/
theorem Distinct.of_le {a b : Node} {i j k l : NodeId} (ha : a.Formed i j) (hb : b.Formed k l)
    (h : j ≤ k) : Distinct a b := ⟨i, j, k, l, ha, hb, .inl h⟩

theorem Distinct.symm {a b : Node} : Distinct a b → Distinct b a
  | ⟨i, j, k, l, ha, hb, hapart⟩ => ⟨k, l, i, j, hb, ha, hapart.symm⟩

theorem Distinct.of_apart {P Q : NodeId → NodeId → Prop} {a b : Node} {i j : NodeId}
    (h : Apart P Q i j) (ha : ∀ {i j}, P i j → a.Formed i j) (hb : ∀ {i j}, Q i j → b.Formed i j) :
    Distinct a b := by
  rcases h with ⟨k, ⟨hP, hQ⟩ | ⟨hQ, hP⟩⟩
  · exact .of_le (ha hP) (hb hQ) (Nat.le_refl k)
  · exact (Distinct.of_le (hb hQ) (ha hP) (Nat.le_refl k)).symm

end Node

/-- A part of a range that is divided in two. -/
theorem Apart.left {P Q : NodeId → NodeId → Prop} {i j : NodeId} (h : Apart P Q i j)
    (hQ : ∀ {i j}, Q i j → i ≤ j) : ∃ i' j', P i' j' ∧ i ≤ i' ∧ j' ≤ j := by
  rcases h with ⟨k, ⟨hfirst, hsecond⟩ | ⟨hsecond, hfirst⟩⟩
  · exact ⟨i, k, hfirst, Nat.le_refl i, hQ hsecond⟩
  · exact ⟨k, j, hfirst, hQ hsecond, Nat.le_refl j⟩

/-- The second of two parts has a range inside that of both. -/
theorem Apart.right {P Q : NodeId → NodeId → Prop} {i j : NodeId} (h : Apart P Q i j)
    (hP : ∀ {i j}, P i j → i ≤ j) : ∃ i' j', Q i' j' ∧ i ≤ i' ∧ j' ≤ j := by
  rcases h with ⟨k, ⟨hfirst, hsecond⟩ | ⟨hsecond, hfirst⟩⟩
  · exact ⟨k, j, hsecond, hP hfirst, Nat.le_refl j⟩
  · exact ⟨i, k, hsecond, Nat.le_refl i, hP hfirst⟩

namespace Resolver

open Node (Distinct)

/-! ## Numbers of parts -/

/-- The numbers of a part lie in the range of the whole. -/
theorem Visit.Next.formed {v w : Visit} (h : v.Next w) {i j : NodeId} (hv : v.node.Formed i j) :
    ∃ i' j', w.node.Formed i' j' ∧ i ≤ i' ∧ j' ≤ j := by
  -- The range of a node is that of its parts one behind the other, and its own number.
  cases h with
  | assigned => exact ⟨_, _, hv.2.1, Nat.le_refl _, Nat.le_of_lt hv.2.2⟩
  | object | inner | operand => exact ⟨_, _, hv.1, Nat.le_refl _, Nat.le_of_lt hv.2⟩
  | left | logicalLeft | setObject =>
      rcases hv with ⟨k, hleft, hright, hid⟩
      exact ⟨_, _, hleft, Nat.le_refl _, Nat.le_trans hright.le (Nat.le_of_lt hid)⟩
  | right | logicalRight | setValue =>
      rcases hv with ⟨k, hleft, hright, hid⟩
      exact ⟨_, _, hright, hleft.le, Nat.le_of_lt hid⟩
  | callee =>
      rcases hv with ⟨k, hcallee, harguments, hid⟩
      exact ⟨_, _, hcallee, Nat.le_refl _,
        Nat.le_trans (Expr.le_of_allFormed harguments) (Nat.le_of_lt hid)⟩
  | arguments =>
      rcases hv with ⟨k, hcallee, harguments, hid⟩
      exact ⟨_, _, harguments, hcallee.le, Nat.le_of_lt hid⟩
  | firstExpr =>
      rcases hv with ⟨k, he, hes⟩
      exact ⟨_, _, he, Nat.le_refl _, Expr.le_of_allFormed hes⟩
  | moreExprs =>
      rcases hv with ⟨k, he, hes⟩
      exact ⟨_, _, hes, he.le, Nat.le_refl _⟩
  | block | expression | print | returned => exact ⟨_, _, hv, Nat.le_refl _, Nat.le_refl _⟩
  | classBody | declared | initializer => exact ⟨_, _, hv.2, Nat.le_refl _, Nat.le_refl _⟩
  | superclass =>
      rcases hv with ⟨-, k, href, hmethods⟩
      exact ⟨_, _, href, Nat.le_refl _, FunctionDecl.le_of_allFormed hmethods⟩
  | derivedBody =>
      rcases hv with ⟨-, k, href, hmethods⟩
      exact ⟨_, _, hmethods, Nat.le_trans href.1 (Nat.le_of_lt href.2), Nat.le_refl _⟩
  | condition =>
      rcases Stmt.Formed.branch hv with ⟨k, l, hcondition, hthen, hl⟩
      exact ⟨_, _, hcondition, Nat.le_refl _, Nat.le_trans (Stmt.le_of_formed hthen) hl⟩
  | thenBranch =>
      rcases Stmt.Formed.branch hv with ⟨k, l, hcondition, hthen, hl⟩
      exact ⟨_, _, hthen, hcondition.le, hl⟩
  | elseBranch =>
      rcases hv with ⟨-, -, k, l, hcondition, hthen, helse⟩
      exact ⟨_, _, helse, Nat.le_trans hcondition.le (Stmt.le_of_formed hthen), Nat.le_refl _⟩
  | loopCondition => exact hv.2.left Stmt.le_of_formed
  | loopBody => exact hv.2.right Expr.Formed.le
  | firstStmt => exact Apart.left hv Stmt.le_of_allFormed
  | moreStmts => exact Apart.right hv Stmt.le_of_formed
  | @body _ decl _ =>
      cases decl
      exact ⟨_, _, hv.2, Nat.le_refl _, Nat.le_refl _⟩
  | firstMethod =>
      rcases hv with ⟨k, hdecl, hdecls⟩
      exact ⟨_, _, hdecl, Nat.le_refl _, FunctionDecl.le_of_allFormed hdecls⟩
  | moreMethods =>
      rcases hv with ⟨k, hdecl, hdecls⟩
      exact ⟨_, _, hdecls, FunctionDecl.le_of_formed hdecl, Nat.le_refl _⟩

/-- Two parts of a node are the same one, or they have different numbers. -/
theorem Visit.Next.eq_or_distinct {v w w' : Visit} (h : v.Next w) (h' : v.Next w') {i j : NodeId}
    (hv : v.node.Formed i j) : w = w' ∨ Distinct w.node w'.node := by
  -- A part is told from the others of its node by the range of its numbers.
  cases h with
  | assigned | object | inner | operand | block | expression | print | returned | classBody
  | declared | initializer | body =>
      cases h'
      exact .inl rfl
  | left | right =>
      rcases hv with ⟨k, hleft, hright, -⟩
      have hparts := Distinct.of_le (a := .expr _) (b := .expr _) hleft hright (Nat.le_refl k)
      cases h' with
      | left | right => first | exact .inl rfl | exact .inr hparts | exact .inr hparts.symm
  | logicalLeft | logicalRight =>
      rcases hv with ⟨k, hleft, hright, -⟩
      have hparts := Distinct.of_le (a := .expr _) (b := .expr _) hleft hright (Nat.le_refl k)
      cases h' with
      | logicalLeft | logicalRight =>
          first | exact .inl rfl | exact .inr hparts | exact .inr hparts.symm
  | setObject | setValue =>
      rcases hv with ⟨k, hobject, hvalue, -⟩
      have hparts := Distinct.of_le (a := .expr _) (b := .expr _) hobject hvalue (Nat.le_refl k)
      cases h' with
      | setObject | setValue =>
          first | exact .inl rfl | exact .inr hparts | exact .inr hparts.symm
  | callee | arguments =>
      rcases hv with ⟨k, hcallee, harguments, -⟩
      have hparts := Distinct.of_le (a := .expr _) (b := .exprs _) hcallee harguments
        (Nat.le_refl k)
      cases h' with
      | callee | arguments =>
          first | exact .inl rfl | exact .inr hparts | exact .inr hparts.symm
  | firstExpr | moreExprs =>
      rcases hv with ⟨k, he, hes⟩
      have hparts := Distinct.of_le (a := .expr _) (b := .exprs _) he hes (Nat.le_refl k)
      cases h' with
      | firstExpr | moreExprs =>
          first | exact .inl rfl | exact .inr hparts | exact .inr hparts.symm
  | @superclass _ name | @derivedBody _ name =>
      rcases hv with ⟨-, k, href, hmethods⟩
      have hparts := Distinct.of_le (a := .superclass name _) (b := .methods _) href hmethods
        (Nat.le_refl k)
      cases h' with
      | superclass | derivedBody =>
          first | exact .inl rfl | exact .inr hparts | exact .inr hparts.symm
  | condition =>
      cases h' with
      | condition => exact .inl rfl
      | thenBranch =>
          rcases Stmt.Formed.branch hv with ⟨k, l, hcondition, hthen, -⟩
          exact .inr (.of_le hcondition hthen (Nat.le_refl k))
      | elseBranch =>
          rcases hv with ⟨-, -, k, l, hcondition, hthen, helse⟩
          exact .inr (.of_le hcondition helse (Stmt.le_of_formed hthen))
  | thenBranch =>
      rcases Stmt.Formed.branch hv with ⟨k, l, hcondition, hthen, -⟩
      cases h' with
      | condition => exact .inr (.symm (.of_le hcondition hthen (Nat.le_refl k)))
      | thenBranch => exact .inl rfl
      | elseBranch =>
          rcases hv with ⟨-, -, k, l, -, hthen, helse⟩
          exact .inr (.of_le hthen helse (Nat.le_refl l))
  | elseBranch =>
      rcases hv with ⟨-, -, k, l, hcondition, hthen, helse⟩
      cases h' with
      | condition => exact .inr (.symm (.of_le hcondition helse (Stmt.le_of_formed hthen)))
      | thenBranch => exact .inr (.symm (.of_le hthen helse (Nat.le_refl l)))
      | elseBranch => exact .inl rfl
  | loopCondition | loopBody =>
      have hparts := Distinct.of_apart (a := .expr _) (b := .stmt _) hv.2 id id
      cases h' with
      | loopCondition | loopBody =>
          first | exact .inl rfl | exact .inr hparts | exact .inr hparts.symm
  | firstStmt | moreStmts =>
      have hparts := Distinct.of_apart (a := .stmt _) (b := .stmts _) hv id id
      cases h' with
      | firstStmt | moreStmts =>
          first | exact .inl rfl | exact .inr hparts | exact .inr hparts.symm
  | firstMethod | moreMethods =>
      rcases hv with ⟨k, hdecl, hdecls⟩
      have hparts := Distinct.of_le (a := .function _) (b := .methods _) hdecl hdecls
        (Nat.le_refl k)
      cases h' with
      | firstMethod | moreMethods =>
          first | exact .inl rfl | exact .inr hparts | exact .inr hparts.symm

/-! ## Whole walks -/

/-- All numbers that a walk comes to lie in the range of the node that it is over. -/
theorem Visit.Leads.mem_range {v w : Visit} (h : v.Leads w) {i j id : NodeId}
    (hv : v.node.Formed i j) (hid : w.node.id? = some id) : i ≤ id ∧ id < j := by
  induction h generalizing i j with
  | here => exact hv.mem_range hid
  | next hnext _ ih =>
      rcases hnext.formed hv with ⟨i', j', hformed, hi, hj⟩
      rcases ih hformed hid with ⟨hfirst, hlast⟩
      exact ⟨Nat.le_trans hi hfirst, Nat.lt_of_lt_of_le hlast hj⟩

/-- A part of a node is smaller than the node. -/
theorem Visit.Next.sizeOf_lt {v w : Visit} (h : v.Next w) : sizeOf w.node < sizeOf v.node := by
  cases h with
  | @body _ decl _ =>
      cases decl
      simp only [Node.stmts.sizeOf_spec, Node.function.sizeOf_spec, FunctionDecl.mk.sizeOf_spec]
      omega
  | _ => simp <;> omega

/-- A walk leads to parts, so it never comes back to where it was. -/
theorem Visit.Leads.sizeOf_le {v w : Visit} (h : v.Leads w) : sizeOf w.node ≤ sizeOf v.node := by
  induction h with
  | here => exact Nat.le_refl _
  | next hnext _ ih => exact Nat.le_trans ih (Nat.le_of_lt hnext.sizeOf_lt)

/-- The walk over a part of a node does not come back to the node. -/
theorem Visit.Next.node_ne {u v w : Visit} (h : u.Next v) (hleads : v.Leads w) :
    w.node ≠ u.node := by
  intro heq
  have hsize := Nat.lt_of_le_of_lt hleads.sizeOf_le h.sizeOf_lt
  rw [heq] at hsize
  exact Nat.lt_irrefl _ hsize

/-- The walk over a node has the same parts whenever it takes place. -/
theorem Visit.Next.again {v w : Visit} (h : v.Next w) (ctx : Context) (s : State) :
    ∃ w', Visit.Next ⟨ctx, v.node, s⟩ w' ∧ w'.node = w.node := by
  cases h with
  -- What comes next is a matter of the node alone, so the same step can be taken from any state.
  | assigned => exact ⟨_, .assigned, rfl⟩
  | left => exact ⟨_, .left, rfl⟩
  | right => exact ⟨_, .right, rfl⟩
  | callee => exact ⟨_, .callee, rfl⟩
  | arguments => exact ⟨_, .arguments, rfl⟩
  | object => exact ⟨_, .object, rfl⟩
  | inner => exact ⟨_, .inner, rfl⟩
  | logicalLeft => exact ⟨_, .logicalLeft, rfl⟩
  | logicalRight => exact ⟨_, .logicalRight, rfl⟩
  | setValue => exact ⟨_, .setValue, rfl⟩
  | setObject => exact ⟨_, .setObject, rfl⟩
  | operand => exact ⟨_, .operand, rfl⟩
  | firstExpr => exact ⟨_, .firstExpr, rfl⟩
  | moreExprs => exact ⟨_, .moreExprs, rfl⟩
  | block => exact ⟨_, .block, rfl⟩
  | classBody => exact ⟨_, .classBody, rfl⟩
  | superclass => exact ⟨_, .superclass, rfl⟩
  | derivedBody => exact ⟨_, .derivedBody, rfl⟩
  | expression => exact ⟨_, .expression, rfl⟩
  | print => exact ⟨_, .print, rfl⟩
  | declared => exact ⟨_, .declared, rfl⟩
  | condition => exact ⟨_, .condition, rfl⟩
  | thenBranch => exact ⟨_, .thenBranch, rfl⟩
  | elseBranch => exact ⟨_, .elseBranch, rfl⟩
  | returned => exact ⟨_, .returned, rfl⟩
  | initializer => exact ⟨_, .initializer, rfl⟩
  | loopCondition => exact ⟨_, .loopCondition, rfl⟩
  | loopBody => exact ⟨_, .loopBody, rfl⟩
  | firstStmt => exact ⟨_, .firstStmt, rfl⟩
  | moreStmts => exact ⟨_, .moreStmts, rfl⟩
  | body => exact ⟨_, .body, rfl⟩
  | firstMethod => exact ⟨_, .firstMethod, rfl⟩
  | moreMethods => exact ⟨_, .moreMethods, rfl⟩

/-- The numbers of the expressions in a node. -/
def Visit.Meets (v : Visit) (id : NodeId) : Prop := ∃ w, v.Leads w ∧ w.node.id? = some id

/-- Which nodes a walk leads to does not depend on the state it begins in. -/
theorem Visit.Leads.again {v w : Visit} (h : v.Leads w) (ctx : Context) (s : State) :
    ∃ w', Visit.Leads ⟨ctx, v.node, s⟩ w' ∧ w'.node = w.node := by
  induction h generalizing ctx s with
  | here => exact ⟨_, .here, rfl⟩
  | next hnext _ ih =>
      rcases hnext.again ctx s with ⟨⟨ctx', _, s'⟩, hnext', rfl⟩
      rcases ih ctx' s' with ⟨w', hw', heq⟩
      exact ⟨w', .next hnext' hw', heq⟩

theorem Visit.Meets.again {v : Visit} {id : NodeId} (h : v.Meets id) (ctx : Context) (s : State) :
    Visit.Meets ⟨ctx, v.node, s⟩ id := by
  rcases h with ⟨w, hleads, hid⟩
  rcases hleads.again ctx s with ⟨w', hleads', heq⟩
  exact ⟨w', hleads', heq ▸ hid⟩

/-- A walk comes to a node at most once, if there is an expression in it. -/
theorem Visit.Leads.unique {v w w' : Visit} (h : v.Leads w) (h' : v.Leads w') {i j id : NodeId}
    (hv : v.node.Formed i j) (heq : w'.node = w.node) (hid : w.Meets id) : w = w' := by
  induction h generalizing i j with
  | here =>
      cases h' with
      | here => rfl
      | next hnext hrest => exact absurd heq (hnext.node_ne hrest)
  | next hnext hrest ih =>
      cases h' with
      | here => exact absurd heq.symm (hnext.node_ne hrest)
      | next hnext' hrest' =>
          rcases hnext.eq_or_distinct hnext' hv with rfl | ⟨_, _, _, _, hformed, hformed', hapart⟩
          · rcases hnext.formed hv with ⟨_, _, hformed, -, -⟩
            exact ih hrest' hformed heq hid
          · -- The same number would be in both of two ranges that are apart.
            rcases heq ▸ hid.again w'.context w'.state with ⟨x', hx', hid'⟩
            rcases hid with ⟨x, hx, hid⟩
            have hrange := (hrest.trans hx).mem_range hformed hid
            have hrange' := (hrest'.trans hx').mem_range hformed' hid'
            rcases hapart with hle | hle
            · exact absurd (Nat.lt_of_lt_of_le hrange.2 (Nat.le_trans hle hrange'.1))
                (Nat.lt_irrefl id)
            · exact absurd (Nat.lt_of_lt_of_le hrange'.2 (Nat.le_trans hle hrange.1))
                (Nat.lt_irrefl id)

end Resolver

end LoxLang
