import LoxLang.Syntax.Tree

/-!
# The expressions of a tree

All expressions that a tree is made of, and how they are numbered.

* `Expr.parts` are the expressions inside of an expression, at whatever depth, and `Expr.nodes` also
  holds the expression itself. The superclass that a class names counts as a variable.
* `Stmt.nodes` and `Stmt.allNodes` are the expressions of statements.
* `Numbered es i j`: no two of the expressions `es` have the same number, each number is in the
  range from `i` to `j`, and an expression has a greater number than its parts.
-/

namespace LoxLang

/-! ## Expressions -/

mutual

def Expr.parts : Expr → List Expr
  | .assign _ _ value => value.parts ++ [value]
  | .binary _ left _ right | .logical _ left _ right | .set _ left _ right =>
    (left.parts ++ [left]) ++ (right.parts ++ [right])
  | .call _ callee _ arguments => (callee.parts ++ [callee]) ++ Expr.allNodes arguments
  | .get _ inner _ | .grouping _ inner | .unary _ _ inner => inner.parts ++ [inner]
  | .literal .. | .super .. | .this .. | .variable _ => []

def Expr.allNodes : List Expr → List Expr
  | [] => []
  | e :: es => (e.parts ++ [e]) ++ Expr.allNodes es

end

/-- An expression with all that is inside of it. -/
def Expr.nodes (e : Expr) : List Expr := e.parts ++ [e]

/-- The nodes of a list are those of its parts, in order. -/
theorem Expr.allNodes_append (es es' : List Expr) :
    Expr.allNodes (es ++ es') = Expr.allNodes es ++ Expr.allNodes es' := by
  induction es with
  | nil => rfl
  | cons e es ih => simp [Expr.allNodes, ih]

theorem Expr.allNodes_singleton (e : Expr) : Expr.allNodes [e] = e.nodes := List.append_nil _

/-! ## Statements -/

mutual

def Stmt.nodes : Stmt → List Expr
  | .block body => Stmt.allNodes body
  | .classDecl _ superclass methods =>
    superclass.toList.map .variable ++ FunctionDecl.allNodes methods
  | .expression e | .print e => e.nodes
  | .function decl => decl.nodes
  | .ifElse condition thenBranch none => condition.nodes ++ thenBranch.nodes
  | .ifElse condition thenBranch (some elseBranch) =>
    condition.nodes ++ (thenBranch.nodes ++ elseBranch.nodes)
  | .returnValue _ value | .varDecl _ value => Expr.allNodes value.toList
  | .whileLoop condition body => condition.nodes ++ body.nodes

def Stmt.allNodes : List Stmt → List Expr
  | [] => []
  | s :: ss => s.nodes ++ Stmt.allNodes ss

def FunctionDecl.nodes : FunctionDecl → List Expr
  | ⟨_, _, body⟩ => Stmt.allNodes body

def FunctionDecl.allNodes : List FunctionDecl → List Expr
  | [] => []
  | decl :: decls => decl.nodes ++ FunctionDecl.allNodes decls

end

theorem Stmt.allNodes_append (ss ss' : List Stmt) :
    Stmt.allNodes (ss ++ ss') = Stmt.allNodes ss ++ Stmt.allNodes ss' := by
  induction ss with
  | nil => rfl
  | cons s ss ih => simp [Stmt.allNodes, ih]

theorem Stmt.allNodes_singleton (s : Stmt) : Stmt.allNodes [s] = s.nodes := List.append_nil _

/-- A `for` has the expressions of its clauses and of its body, in the order in which they are
run. -/
theorem Stmt.nodes_forLoop (initializer : Option Stmt) (condition : Expr) (increment : Option Expr)
    (body : Stmt) :
    (Stmt.forLoop initializer condition increment body).nodes =
      Stmt.allNodes initializer.toList ++
        (condition.nodes ++ (body.nodes ++ Expr.allNodes increment.toList)) := by
  cases initializer <;> cases increment <;>
    simp [Stmt.forLoop, Stmt.nodes, Stmt.allNodes, Expr.nodes, Expr.allNodes]

/-! ## Numbers -/

structure Numbered (es : List Expr) (i j : NodeId) : Prop where
  le : i ≤ j
  nodup : (es.map Expr.id).Nodup
  range : ∀ e ∈ es, i ≤ e.id ∧ e.id < j
  below : ∀ e ∈ es, ∀ part ∈ e.parts, part.id < e.id

namespace Numbered

variable {es es' : List Expr} {i j k : NodeId}

/-- A part without nodes leaves out any numbers it likes. -/
theorem nil (h : i ≤ j) : Numbered [] i j :=
  ⟨h, List.nodup_nil, fun _ he => (nomatch he), fun _ he => (nomatch he)⟩

/-- Two ranges, one behind the other. -/
theorem append (h : Numbered es i j) (h' : Numbered es' j k) : Numbered (es ++ es') i k := by
  refine ⟨Nat.le_trans h.le h'.le, ?_, ?_, ?_⟩
  · rw [List.map_append, List.nodup_append]
    -- a number of the first range is below every one of the second
    refine ⟨h.nodup, h'.nodup, ?_⟩
    intro id hid id' hid'
    rcases List.mem_map.1 hid with ⟨e, he, rfl⟩
    rcases List.mem_map.1 hid' with ⟨e', he', rfl⟩
    exact Nat.ne_of_lt (Nat.lt_of_lt_of_le (h.range e he).2 (h'.range e' he').1)
  · intro e he
    rcases List.mem_append.1 he with he | he
    · exact ⟨(h.range e he).1, Nat.lt_of_lt_of_le (h.range e he).2 h'.le⟩
    · exact ⟨Nat.le_trans h.le (h'.range e he).1, (h'.range e he).2⟩
  · intro e he
    exact (List.mem_append.1 he).elim (h.below e) (h'.below e)

/-- Numbers that were given out and not used may follow. -/
theorem mono (h : Numbered es i j) (hj : j ≤ k) : Numbered es i k := by
  have hall := h.append (nil hj)
  rwa [List.append_nil] at hall

/-- Numbers in front of a range that none of the expressions has. -/
theorem skip (hi : i ≤ j) (h : Numbered es j k) : Numbered es i k := (nil hi).append h

/-- The order of the expressions does not matter. -/
theorem perm (h : Numbered es i j) (hperm : es.Perm es') : Numbered es' i j := by
  refine ⟨h.le, (hperm.map Expr.id).nodup_iff.1 h.nodup, ?_, ?_⟩
  · exact fun e he => h.range e (hperm.mem_iff.2 he)
  · exact fun e he => h.below e (hperm.mem_iff.2 he)

/-- Expressions that are left out leave a gap. -/
theorem of_append_left (h : Numbered (es ++ es') i j) : Numbered es i j := by
  refine ⟨h.le, ?_, fun e he => h.range e (List.mem_append_left _ he),
    fun e he => h.below e (List.mem_append_left _ he)⟩
  have hnodup := h.nodup
  rw [List.map_append, List.nodup_append] at hnodup
  exact hnodup.1

/-- An expression that is numbered right behind its parts. -/
theorem node {e : Expr} (h : Numbered e.parts i j) (hid : e.id = j) :
    Numbered e.nodes i (j + 1) := by
  subst hid
  refine h.append ⟨Nat.le_succ _, by simp, ?_, ?_⟩
  · intro e' he'
    obtain rfl := List.mem_singleton.1 he'
    exact ⟨Nat.le_refl _, Nat.lt_succ_self _⟩
  · intro e' he' part hpart
    obtain rfl := List.mem_singleton.1 he'
    exact (h.range part hpart).2

end Numbered

end LoxLang
