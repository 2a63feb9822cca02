import LoxLang.Proofs.Scope.Linked
import LoxLang.Syntax.Parser.Expr

/-!
# The shape of trees

What holds of every tree that has been read, also where the tokens are faulty.

* The names that are read, assigned to, declared or inherited from are names of a kind `N`.
* A branch or the body of a loop declares nothing, so a declaration stands where a scope holds it.
-/

namespace LoxLang

variable {N : Token → Prop}

mutual

/-- What is read or assigned to in an expression is a name of a kind. -/
def Expr.Shaped (N : Token → Prop) : Expr → Prop
  | .assign _ name value => N name ∧ value.Shaped N
  | .binary _ left _ right | .logical _ left _ right | .set _ left _ right =>
    left.Shaped N ∧ right.Shaped N
  | .call _ callee _ arguments => callee.Shaped N ∧ Expr.AllShaped N arguments
  | .get _ e _ | .grouping _ e | .unary _ _ e => e.Shaped N
  | .literal _ _ | .super _ _ _ | .this _ _ => True
  | .variable ref => N ref.name

def Expr.AllShaped (N : Token → Prop) : List Expr → Prop
  | [] => True
  | e :: es => e.Shaped N ∧ Expr.AllShaped N es

end

theorem Expr.AllShaped.append : ∀ {es : List Expr} {e : Expr}, Expr.AllShaped N es → e.Shaped N →
    Expr.AllShaped N (es ++ [e])
  | [], _, _, h => ⟨h, trivial⟩
  | _ :: _, _, ⟨hfirst, hrest⟩, h => ⟨hfirst, hrest.append h⟩

/-- A node of any level has the shape if its operands have. -/
theorem Level.shaped_node {level : Level} (h : level ∈ Level.all) {id : NodeId} {operator : Token}
    {left right : Expr} (hleft : left.Shaped N) (hright : right.Shaped N) :
    (level.node id left operator right).Shaped N := by
  simp only [Level.all, List.mem_cons, List.not_mem_nil, or_false] at h
  rcases h with rfl | rfl | rfl | rfl | rfl | rfl <;> exact ⟨hleft, hright⟩

mutual

/-- The names in a statement are of a kind, and no declaration stands where no scope holds it. -/
def Stmt.Shaped (N : Token → Prop) : Stmt → Prop
  | .block body => Stmt.AllShaped N body
  | .classDecl name superclass methods =>
    N name ∧ (∀ ref ∈ superclass, N ref.name) ∧ FunctionDecl.AllShaped N methods
  | .expression e | .print e => e.Shaped N
  | .function decl => decl.Shaped N
  | .ifElse condition thenBranch none =>
    condition.Shaped N ∧ thenBranch.declared? = none ∧ thenBranch.Shaped N
  | .ifElse condition thenBranch (some elseBranch) =>
    condition.Shaped N ∧ (thenBranch.declared? = none ∧ thenBranch.Shaped N) ∧
      elseBranch.declared? = none ∧ elseBranch.Shaped N
  | .returnValue _ value => ∀ e ∈ value, e.Shaped N
  | .varDecl name value => N name ∧ ∀ e ∈ value, e.Shaped N
  | .whileLoop condition body => condition.Shaped N ∧ body.declared? = none ∧ body.Shaped N

def Stmt.AllShaped (N : Token → Prop) : List Stmt → Prop
  | [] => True
  | s :: ss => s.Shaped N ∧ Stmt.AllShaped N ss

def FunctionDecl.Shaped (N : Token → Prop) : FunctionDecl → Prop
  | ⟨name, params, body⟩ => N name ∧ (∀ param ∈ params, N param) ∧ Stmt.AllShaped N body

def FunctionDecl.AllShaped (N : Token → Prop) : List FunctionDecl → Prop
  | [] => True
  | decl :: decls => decl.Shaped N ∧ FunctionDecl.AllShaped N decls

end

namespace Stmt

theorem AllShaped.append_toList {first : Option Stmt} {rest : List Stmt}
    (hfirst : ∀ s ∈ first, s.Shaped N) (hrest : AllShaped N rest) :
    AllShaped N (first.toList ++ rest) := by
  cases first with
  | none => exact hrest
  | some s => exact ⟨hfirst s rfl, hrest⟩

/-- A `for` declares nothing, whatever its first clause declares. -/
theorem shaped_forLoop {initializer : Option Stmt} {condition : Expr} {increment : Option Expr}
    {body : Stmt} (hinit : ∀ s ∈ initializer, s.Shaped N) (hcondition : condition.Shaped N)
    (hincrement : ∀ e ∈ increment, e.Shaped N) (hdeclared : body.declared? = none)
    (hbody : body.Shaped N) :
    (forLoop initializer condition increment body).declared? = none ∧
      (forLoop initializer condition increment body).Shaped N := by
  cases initializer <;> cases increment <;>
    simp_all [forLoop, declared?, Shaped, AllShaped]

end Stmt

end LoxLang
