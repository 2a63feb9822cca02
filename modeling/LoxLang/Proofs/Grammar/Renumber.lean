import LoxLang.Syntax.Parser.Expr

/-!
# Trees with other numbers

* `Expr.renumber f` and `Stmt.renumber f` replace every number of a tree, and leave the tokens.
* Small lemmas say that the ways in which readings put trees together go along with it.
-/

namespace LoxLang

/-! ## Expressions -/

def Reference.renumber (f : NodeId → NodeId) (ref : Reference) : Reference := ⟨f ref.id, ref.name⟩

mutual

def Expr.renumber (f : NodeId → NodeId) : Expr → Expr
  | .assign id name value => .assign (f id) name (value.renumber f)
  | .binary id left operator right =>
    .binary (f id) (left.renumber f) operator (right.renumber f)
  | .call id callee paren arguments =>
    .call (f id) (callee.renumber f) paren (Expr.renumberAll f arguments)
  | .get id object name => .get (f id) (object.renumber f) name
  | .grouping id inner => .grouping (f id) (inner.renumber f)
  | .literal id value => .literal (f id) value
  | .logical id left operator right =>
    .logical (f id) (left.renumber f) operator (right.renumber f)
  | .set id object name value => .set (f id) (object.renumber f) name (value.renumber f)
  | .super id keyword method => .super (f id) keyword method
  | .this id keyword => .this (f id) keyword
  | .unary id operator right => .unary (f id) operator (right.renumber f)
  | .variable ref => .variable (ref.renumber f)

def Expr.renumberAll (f : NodeId → NodeId) : List Expr → List Expr
  | [] => []
  | e :: es => e.renumber f :: Expr.renumberAll f es

end

theorem Expr.renumberAll_eq_map (f : NodeId → NodeId) (es : List Expr) :
    Expr.renumberAll f es = es.map (Expr.renumber f) := by
  induction es with
  | nil => rfl
  | cons e es ih => rw [Expr.renumberAll, ih, List.map_cons]

/-- A level whose nodes are renumbered together with their operands. -/
def Level.Natural (f : NodeId → NodeId) (level : Level) : Prop :=
  ∀ id left operator right, (level.node id left operator right).renumber f =
    level.node (f id) (left.renumber f) operator (right.renumber f)

/-- Nodes of every level are renumbered with their operands. -/
theorem Level.natural_of_mem_all (f : NodeId → NodeId) {level : Level} (h : level ∈ Level.all) :
    level.Natural f := by
  simp only [Level.all, List.mem_cons, List.not_mem_nil, or_false] at h
  rcases h with rfl | rfl | rfl | rfl | rfl | rfl
  all_goals exact fun _ _ _ _ => rfl

/-! ## Statements -/

mutual

def Stmt.renumber (f : NodeId → NodeId) : Stmt → Stmt
  | .block body => .block (Stmt.renumberAll f body)
  | .classDecl name superclass methods =>
    .classDecl name (superclass.map (Reference.renumber f)) (FunctionDecl.renumberAll f methods)
  | .expression e => .expression (e.renumber f)
  | .function decl => .function (decl.renumber f)
  | .ifElse condition thenBranch none =>
    .ifElse (condition.renumber f) (thenBranch.renumber f) none
  | .ifElse condition thenBranch (some elseBranch) =>
    .ifElse (condition.renumber f) (thenBranch.renumber f) (some (elseBranch.renumber f))
  | .print e => .print (e.renumber f)
  | .returnValue keyword value => .returnValue keyword (value.map (Expr.renumber f))
  | .varDecl name value => .varDecl name (value.map (Expr.renumber f))
  | .whileLoop condition body => .whileLoop (condition.renumber f) (body.renumber f)

def Stmt.renumberAll (f : NodeId → NodeId) : List Stmt → List Stmt
  | [] => []
  | s :: ss => s.renumber f :: Stmt.renumberAll f ss

def FunctionDecl.renumber (f : NodeId → NodeId) : FunctionDecl → FunctionDecl
  | ⟨name, params, body⟩ => ⟨name, params, Stmt.renumberAll f body⟩

def FunctionDecl.renumberAll (f : NodeId → NodeId) : List FunctionDecl → List FunctionDecl
  | [] => []
  | decl :: decls => decl.renumber f :: FunctionDecl.renumberAll f decls

end

/-- A statement that may be missing, in front of others. -/
theorem Stmt.renumberAll_toList_append (f : NodeId → NodeId) (first : Option Stmt)
    (rest : List Stmt) :
    Stmt.renumberAll f (first.toList ++ rest) =
      (first.map (Stmt.renumber f)).toList ++ Stmt.renumberAll f rest := by
  cases first <;> rfl

/-- The parts of a loop can be renumbered before it is put together. -/
theorem Stmt.renumber_forLoop (f : NodeId → NodeId) (initializer : Option Stmt) (condition : Expr)
    (increment : Option Expr) (body : Stmt) :
    (Stmt.forLoop initializer condition increment body).renumber f =
      Stmt.forLoop (initializer.map (Stmt.renumber f)) (condition.renumber f)
        (increment.map (Expr.renumber f)) (body.renumber f) := by
  cases initializer <;> cases increment <;> rfl

end LoxLang
