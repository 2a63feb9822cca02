import LoxLang.Proofs.Grammar.Nodes
import LoxLang.Proofs.Parsing.Steady

/-!
# Productions number what they read

Numbers are given out one after the other, and none is given out again, whether what is read is kept
or thrown away.

* `Parser.Gives p s ids`: these are the numbers that `p` gives out on its way from `s`, be it to a
  result or to a panic. They follow each other without a gap (`Parser.Gives.eq_range`).
* `Parser.Numbers i p Q`: from inputs whose next number is `i`, what `p` gives out is accounted for,
  and a result satisfies `Q`, together with the number that is next then.
* The proofs follow the productions: one lemma each, by recursion on the bound of their depth.
-/

namespace LoxLang

/-! ## Levels -/

/-- A level whose nodes have both operands as their parts, and nothing else. -/
structure Level.Plain (level : Level) : Prop where
  parts : ∀ id left operator right,
    (level.node id left operator right).parts = left.nodes ++ right.nodes
  id : ∀ id left operator right, (level.node id left operator right).id = id

/-- The levels make binary and logical nodes, which have two parts. -/
theorem Level.plain_of_mem_all {level : Level} (h : level ∈ Level.all) : level.Plain := by
  simp only [Level.all, List.mem_cons, List.not_mem_nil, or_false] at h
  rcases h with rfl | rfl | rfl | rfl | rfl | rfl
  all_goals exact ⟨fun _ _ _ _ => rfl, fun _ _ _ _ => rfl⟩

namespace Parser

variable {α β : Type}

/-! ## Numbers that are given out -/

/-- The input that a production leaves behind, however it ends. -/
def left : EStateM.Result Stop Input α → Input
  | .ok _ s => s
  | .error _ s => s

/-- The numbers that a production gives out, in order. -/
inductive Gives : {α : Type} → Parser α → Input → List NodeId → Prop where
  | pure {α : Type} (a : α) (s : Input) : Gives (Pure.pure a) s []
  | throw {α : Type} (reason : Stop) (s : Input) : Gives (throw reason : Parser α) s []
  | current (s : Input) : Gives current s []
  | advance (s : Input) : Gives advance s []
  | report (fault : SyntaxFault) (token : Token) (s : Input) : Gives (report fault token) s []
  | fresh (s : Input) : Gives fresh s [s.nextId]
  | bind {α β : Type} {x : Parser α} {f : α → Parser β} {s s' : Input} {a : α}
      {ids ids' : List NodeId} :
      Gives x s ids → x s = .ok a s' → Gives (f a) s' ids' → Gives (x >>= f) s (ids ++ ids')
  | stopped {α β : Type} {x : Parser α} {f : α → Parser β} {s s' : Input} {reason : Stop}
      {ids : List NodeId} : Gives x s ids → x s = .error reason s' → Gives (x >>= f) s ids
  | map {α β : Type} {x : Parser α} {f : α → β} {s : Input} {ids : List NodeId} :
      Gives x s ids → Gives (f <$> x) s ids
  | recovering {α : Type} {p : Parser α} {s : Input} {ids : List NodeId} :
      Gives p s ids → Gives (recovering p) s ids

theorem left_bind_ok {x : Parser α} {f : α → Parser β} {s s' : Input} {a : α}
    (h : x s = .ok a s') : left ((x >>= f) s) = left (f a s') := by
  rw [bind_run, h]

theorem left_bind_error {x : Parser α} {f : α → Parser β} {s s' : Input} {reason : Stop}
    (h : x s = .error reason s') : left ((x >>= f) s) = left (x s) := by
  rw [bind_run, h]
  rfl

theorem left_map (f : α → β) (x : Parser α) (s : Input) : left ((f <$> x) s) = left (x s) := by
  rw [map_run]
  cases x s <;> rfl

/-- Numbers that were given out before a panic stay given out. -/
theorem nextId_recovering (p : Parser α) (s : Input) :
    (left (recovering p s)).nextId = (left (p s)).nextId := by
  unfold recovering
  cases p s with
  | ok _ _ => rfl
  | error reason _ => cases reason <;> rfl

/-- The numbers between two inputs are those that were given out on the way, all of them and no
others. -/
theorem Gives.eq_range {p : Parser α} {s : Input} {ids : List NodeId} (h : Gives p s ids) :
    ∃ count, (left (p s)).nextId = s.nextId + count ∧ ids = List.range' s.nextId count := by
  induction h with
  | pure _ s | throw _ s | current s | report _ _ s => exact ⟨0, rfl, rfl⟩
  | advance s =>
      rw [advance_run]
      exact ⟨0, s.next_nextId, rfl⟩
  | fresh s => exact ⟨1, rfl, rfl⟩
  | bind _ hx _ ih ih' =>
      rw [left_bind_ok hx]
      rw [hx] at ih
      -- The second part starts with the number behind the last one of the first part.
      rcases ih with ⟨count, hnext, rfl⟩
      rcases ih' with ⟨count', hnext', rfl⟩
      have hmiddle := hnext.symm
      refine ⟨count + count', by rw [hnext', ← Nat.add_assoc, hmiddle]; rfl, ?_⟩
      rw [← List.range'_append_1, hmiddle]
      rfl
  | stopped _ hx ih =>
      rw [left_bind_error hx]
      exact ih
  | @map _ _ x f s _ _ ih =>
      rw [left_map f x s]
      exact ih
  | recovering _ ih =>
      rw [nextId_recovering]
      exact ih

/-- The next number only goes up. -/
theorem Gives.le {p : Parser α} {s : Input} {ids : List NodeId} (h : Gives p s ids) :
    s.nextId ≤ (left (p s)).nextId := by
  rcases h.eq_range with ⟨count, hnext, -⟩
  rw [hnext]
  exact Nat.le_add_right _ _

/-! ## Productions and their results -/

def Numbers (i : NodeId) (p : Parser α) (Q : α → NodeId → Prop) : Prop :=
  ∀ s : Input, s.nextId = i → (∃ ids, Gives p s ids) ∧ ∀ a s', p s = .ok a s' → Q a s'.nextId

/-- A production that gives out no numbers. -/
def Quiet (p : Parser α) : Prop := ∀ i, Numbers i p fun _ j => j = i

namespace Numbers

variable {x : Parser α} {f : α → Parser β} {i : NodeId} {Q : α → NodeId → Prop}
  {R : β → NodeId → Prop}

theorem pure {a : α} (h : Q a i) : Numbers i (Pure.pure a) Q := by
  rintro s rfl
  refine ⟨⟨[], .pure a s⟩, ?_⟩
  rintro _ _ ⟨⟩
  exact h

theorem throw (reason : Stop) : Numbers i (throw reason : Parser α) Q :=
  fun s _ => ⟨⟨[], .throw reason s⟩, fun _ _ h => (nomatch h)⟩

/-- Numbers are accounted for over two steps, the second one from where the first one ends. -/
theorem bind (hx : Numbers i x Q) (hf : ∀ a j, Q a j → Numbers j (f a) R) :
    Numbers i (x >>= f) R := by
  intro s hi
  rcases hx s hi with ⟨⟨ids, hids⟩, hQ⟩
  cases h : x s with
  | error reason s' =>
      refine ⟨⟨ids, .stopped hids h⟩, ?_⟩
      rw [bind_run, h]
      exact fun _ _ h => (nomatch h)
  | ok a s' =>
      rcases hf a s'.nextId (hQ a s' h) s' rfl with ⟨⟨ids', hids'⟩, hR⟩
      refine ⟨⟨ids ++ ids', .bind hids h hids'⟩, ?_⟩
      rw [bind_run, h]
      exact hR

theorem map {f : α → β} (hx : Numbers i x fun a j => R (f a) j) : Numbers i (f <$> x) R := by
  intro s hi
  rcases hx s hi with ⟨⟨ids, hids⟩, hR⟩
  refine ⟨⟨ids, .map hids⟩, ?_⟩
  rw [map_run]
  intro b s' hrun
  cases h : x s with
  | error reason _ =>
      rw [h] at hrun
      cases hrun
  | ok a _ =>
      rw [h] at hrun
      cases hrun
      exact hR a s' h

theorem mono (hx : Numbers i x Q) {Q' : α → NodeId → Prop} (hQ : ∀ a j, Q a j → Q' a j) :
    Numbers i x Q' :=
  fun s hi => ⟨(hx s hi).1, fun a s' hrun => hQ a s'.nextId ((hx s hi).2 a s' hrun)⟩

theorem fresh : Numbers i fresh fun id j => id = i ∧ j = i + 1 := by
  rintro s rfl
  refine ⟨⟨[s.nextId], .fresh s⟩, ?_⟩
  rintro _ _ ⟨⟩
  exact ⟨rfl, rfl⟩

/-- A node that is made of its parts and the next number. -/
theorem node {make : NodeId → Expr} {parts : List Expr} {i j : NodeId} (h : Numbered parts i j)
    (hparts : ∀ id, (make id).parts = parts) (hid : ∀ id, (make id).id = id) :
    Numbers j (do return make (← Parser.fresh)) fun e k => Numbered e.nodes i k := by
  refine fresh.bind ?_
  rintro id _ ⟨rfl, rfl⟩
  refine .pure (.node ?_ (hid id))
  rwa [hparts]

/-- What panics has given out numbers all the same. -/
theorem recovering (hx : Numbers i x Q) :
    Numbers i (recovering x) fun a j => i ≤ j ∧ ∀ a' ∈ a, Q a' j := by
  intro s hi
  rcases hx s hi with ⟨⟨ids, hids⟩, hQ⟩
  refine ⟨⟨ids, .recovering hids⟩, ?_⟩
  intro a s' hrun
  have hle := (Gives.recovering hids).le
  rw [hrun, hi] at hle
  refine ⟨hle, ?_⟩
  -- What panicked has given nothing, so only a reading that went well is left.
  rintro a' ⟨⟩
  unfold Parser.recovering at hrun
  cases h : x s with
  | ok b s₁ =>
      rw [h] at hrun
      cases hrun
      exact hQ _ _ h
  | error reason s₁ =>
      rw [h] at hrun
      cases reason <;> cases hrun

end Numbers

namespace Quiet

variable {x : Parser α} {f : α → Parser β} {i : NodeId} {R : β → NodeId → Prop}

/-- A step that gives out no number leaves the account as it is. -/
theorem bind (hx : Quiet x) (hf : ∀ a, Numbers i (f a) R) : Numbers i (x >>= f) R := by
  refine (hx i).bind ?_
  rintro a _ rfl
  exact hf a

theorem current : Quiet current := by
  rintro _ s rfl
  refine ⟨⟨[], .current s⟩, ?_⟩
  rintro _ _ ⟨⟩
  rfl

theorem advance : Quiet advance := by
  rintro _ s rfl
  refine ⟨⟨[], .advance s⟩, ?_⟩
  rw [advance_run]
  rintro _ _ ⟨⟩
  exact s.next_nextId

theorem report (fault : SyntaxFault) (token : Token) : Quiet (report fault token) := by
  rintro _ s rfl
  refine ⟨⟨[], .report fault token s⟩, ?_⟩
  rintro _ _ ⟨⟩
  rfl

theorem at? (kind : Kind) : Quiet (at? kind) := fun _ => current.bind fun _ => .pure rfl

theorem atBodyEnd : Quiet atBodyEnd := fun _ => current.bind fun _ => .pure rfl

theorem accept (wanted : Kind → Bool) : Quiet (accept wanted) := by
  refine fun i => current.bind fun token => ?_
  split
  · exact (advance i).map
  · exact .pure rfl

theorem skip? (kind : Kind) : Quiet (skip? kind) := fun _ => (accept _).bind fun _ => .pure rfl

theorem fail (fault : SyntaxFault) : Quiet (fail fault : Parser α) :=
  fun _ => current.bind fun token => (report fault token).bind fun _ => .throw _

theorem reportExcess (count : Nat) (fault : SyntaxFault) : Quiet (reportExcess count fault) := by
  intro i
  unfold Parser.reportExcess
  split
  · exact current.bind fun token => report fault token i
  · exact .pure rfl

theorem expect (kind : Kind) (fault : SyntaxFault) : Quiet (expect kind fault) := by
  refine fun i => (at? kind).bind fun isThere => ?_
  split
  · exact advance i
  · exact fail fault i

theorem expectMark (mark : Kind) (place : MarkPlace) : Quiet (expectMark mark place) :=
  expect mark _

theorem expectName (role : NameRole) : Quiet (expectName role) := expect .identifier _

end Quiet

/-! ## Expressions -/

mutual

/-- By induction on the bound: the nodes of an expression are numbered in its range, parts before
the whole. -/
theorem numbers_expression : ∀ n i, Numbers i (expression n) fun e j => Numbered e.nodes i j
  | 0, _ => .throw _
  | n + 1, i => by
      unfold expression
      refine (numbers_operation n i fun _ => Level.plain_of_mem_all).bind fun left j hleft => ?_
      refine (Quiet.accept _).bind fun equals => ?_
      cases equals with
      | none => exact .pure hleft
      | some equals =>
          refine (numbers_expression n j).bind fun value k hvalue => ?_
          split
          · exact .node (hvalue.skip hleft.le) (fun _ => rfl) fun _ => rfl
          · -- The object moves into the new node; the number of the old one is not used again.
            exact .node (hleft.of_append_left.append hvalue) (fun _ => rfl) fun _ => rfl
          · exact (Quiet.report _ _).bind fun _ => .pure (hleft.mono hvalue.le)

theorem numbers_operation : ∀ n i {levels : List Level}, (∀ level ∈ levels, level.Plain) →
    Numbers i (operation n levels) fun e j => Numbered e.nodes i j
  | 0, _, _, _ => .throw _
  | n + 1, i, [], _ => numbers_unary n i
  | n + 1, i, level :: tighter, hlevels => by
      unfold operation
      have htighter := (List.forall_mem_cons.1 hlevels).2
      refine (numbers_operation n i htighter).bind fun left j hleft => ?_
      exact numbers_chain n hlevels hleft

/-- Each turn numbers its right operand and then the node, above the left operand. -/
theorem numbers_chain : ∀ n {level : Level} {tighter : List Level} {left : Expr} {i j : NodeId},
    (∀ level' ∈ level :: tighter, level'.Plain) → Numbered left.nodes i j →
    Numbers j (chain n level tighter left) fun e k => Numbered e.nodes i k
  | 0, _, _, _, _, _, _, _ => .throw _
  | n + 1, level, tighter, left, i, j, hlevels, hleft => by
      unfold chain
      refine (Quiet.accept _).bind fun operator => ?_
      cases operator with
      | none => exact .pure hleft
      | some operator =>
          rcases List.forall_mem_cons.1 hlevels with ⟨hlevel, htighter⟩
          refine (numbers_operation n j htighter).bind fun right k hright => ?_
          -- A node gets its number behind both operands, so it is greater than those of its parts.
          refine Numbers.fresh.bind ?_
          rintro id _ ⟨rfl, rfl⟩
          refine numbers_chain n hlevels (.node ?_ (hlevel.id _ _ _ _))
          rw [hlevel.parts]
          exact hleft.append hright

theorem numbers_unary : ∀ n i, Numbers i (unary n) fun e j => Numbered e.nodes i j
  | 0, _ => .throw _
  | n + 1, i => by
      unfold unary
      refine (Quiet.accept _).bind fun operator => ?_
      cases operator with
      | none => exact (numbers_primary n i).bind fun callee j hcallee => numbers_calls n hcallee
      | some operator =>
          refine (numbers_unary n i).bind fun right j hright => ?_
          exact .node hright (fun _ => rfl) fun _ => rfl

theorem numbers_calls : ∀ n {callee : Expr} {i j : NodeId}, Numbered callee.nodes i j →
    Numbers j (calls n callee) fun e k => Numbered e.nodes i k
  | 0, _, _, _, _ => .throw _
  | n + 1, callee, i, j, hcallee => by
      unfold calls
      refine (Quiet.skip? _).bind fun isCall => ?_
      split
      · refine (numbers_arguments n j).bind fun arguments k harguments => ?_
        refine (Quiet.expectMark _ _).bind fun paren => ?_
        refine Numbers.fresh.bind ?_
        rintro id _ ⟨rfl, rfl⟩
        exact numbers_calls n (.node (hcallee.append harguments) rfl)
      · refine (Quiet.skip? _).bind fun isGet => ?_
        split
        · refine (Quiet.expectName _).bind fun name => ?_
          refine Numbers.fresh.bind ?_
          rintro id _ ⟨rfl, rfl⟩
          exact numbers_calls n (.node hcallee rfl)
        · exact .pure hcallee

theorem numbers_arguments : ∀ n i,
    Numbers i (arguments n) fun es j => Numbered (Expr.allNodes es) i j
  | 0, _ => .throw _
  | n + 1, i => by
      unfold arguments
      refine (Quiet.at? _).bind fun isEmpty => ?_
      split
      · exact .pure (.nil (Nat.le_refl i))
      · refine (numbers_expression n i).bind fun first j hfirst => ?_
        refine numbers_moreArguments n ?_
        rwa [Expr.allNodes_singleton]

theorem numbers_moreArguments : ∀ n {before : List Expr} {i j : NodeId},
    Numbered (Expr.allNodes before) i j →
    Numbers j (moreArguments n before) fun es k => Numbered (Expr.allNodes es) i k
  | 0, _, _, _, _ => .throw _
  | n + 1, before, i, j, hbefore => by
      unfold moreArguments
      refine (Quiet.skip? _).bind fun isMore => ?_
      split
      · refine (Quiet.reportExcess _ _).bind fun _ => ?_
        refine (numbers_expression n j).bind fun argument k hargument => ?_
        refine numbers_moreArguments n ?_
        rw [Expr.allNodes_append, Expr.allNodes_singleton]
        exact hbefore.append hargument
      · exact .pure hbefore

theorem numbers_primary : ∀ n i, Numbers i (primary n) fun e j => Numbered e.nodes i j
  | 0, _ => .throw _
  | n + 1, i => by
      unfold primary
      refine Quiet.current.bind fun token => ?_
      have hnone : Numbered [] i i := .nil (Nat.le_refl i)
      have hliteral : ∀ value, Numbers i (do let _ ← advance; return Expr.literal (← fresh) value)
          fun e j => Numbered e.nodes i j := fun value =>
        Quiet.advance.bind fun _ => .node hnone (fun _ => rfl) fun _ => rfl
      -- five literals, `super`, `this`, a name, parentheses, and anything else
      split
      · exact hliteral _
      · exact hliteral _
      · exact hliteral _
      · exact hliteral _
      · exact hliteral _
      · refine Quiet.advance.bind fun _ => (Quiet.expectMark _ _).bind fun _ => ?_
        refine (Quiet.expectName _).bind fun method => ?_
        exact .node hnone (fun _ => rfl) fun _ => rfl
      · exact Quiet.advance.bind fun _ => .node hnone (fun _ => rfl) fun _ => rfl
      · exact Quiet.advance.bind fun _ => .node hnone (fun _ => rfl) fun _ => rfl
      · refine Quiet.advance.bind fun _ => ?_
        refine (numbers_expression n i).bind fun inner j hinner => ?_
        exact (Quiet.expectMark _ _).bind fun _ => .node hinner (fun _ => rfl) fun _ => rfl
      · exact Quiet.current.bind fun _ => (Quiet.report _ _).bind fun _ => .throw _

end

/-! ## Clauses without a statement -/

theorem numbers_someExpression (n i : NodeId) :
    Numbers i (some <$> expression n) fun e j => Numbered (Expr.allNodes e.toList) i j := by
  refine .map ?_
  simp only [Option.toList_some, Expr.allNodes_singleton]
  exact numbers_expression n i

theorem numbers_optionalExpression (n : Nat) (i : NodeId) (mark : Kind) :
    Numbers i (optionalExpression n mark) fun e j => Numbered (Expr.allNodes e.toList) i j := by
  refine (Quiet.at? mark).bind fun isMissing => ?_
  split
  · exact .pure (.nil (Nat.le_refl i))
  · exact numbers_someExpression n i

theorem numbers_expressionStatement (n : Nat) (i : NodeId) :
    Numbers i (expressionStatement n) fun s j => Numbered s.nodes i j := by
  refine (numbers_expression n i).bind fun e j he => ?_
  exact (Quiet.expectMark _ _).bind fun _ => .pure he

theorem numbers_printStatement (n : Nat) (i : NodeId) :
    Numbers i (printStatement n) fun s j => Numbered s.nodes i j := by
  refine (numbers_expression n i).bind fun e j he => ?_
  exact (Quiet.expectMark _ _).bind fun _ => .pure he

theorem numbers_returnStatement (n : Nat) (i : NodeId) (keyword : Token) :
    Numbers i (returnStatement n keyword) fun s j => Numbered s.nodes i j := by
  refine (numbers_optionalExpression n i _).bind fun value j hvalue => ?_
  exact (Quiet.expectMark _ _).bind fun _ => .pure hvalue

theorem numbers_initializer (n : Nat) (i : NodeId) :
    Numbers i (initializer n) fun e j => Numbered (Expr.allNodes e.toList) i j := by
  refine (Quiet.skip? _).bind fun isGiven => ?_
  split
  · exact numbers_someExpression n i
  · exact .pure (.nil (Nat.le_refl i))

theorem numbers_varDeclaration (n : Nat) (i : NodeId) :
    Numbers i (varDeclaration n) fun s j => Numbered s.nodes i j := by
  refine (Quiet.expectName _).bind fun name => ?_
  refine (numbers_initializer n i).bind fun value j hvalue => ?_
  exact (Quiet.expectMark _ _).bind fun _ => .pure hvalue

theorem quiet_moreParameters : ∀ n params, Quiet (moreParameters n params)
  | 0, _, _ => .throw _
  | n + 1, params, i => by
      unfold moreParameters
      refine (Quiet.skip? _).bind fun isMore => ?_
      split
      · refine (Quiet.reportExcess _ _).bind fun _ => ?_
        exact (Quiet.expectName _).bind fun param => quiet_moreParameters n _ i
      · exact .pure rfl

theorem quiet_parameters (n : Nat) : Quiet (parameters n) := by
  refine fun i => (Quiet.at? _).bind fun isEmpty => ?_
  split
  · exact .pure rfl
  · exact (Quiet.expectName _).bind fun first => quiet_moreParameters n [first] i

theorem numbers_forInitializer (n : Nat) (i : NodeId) :
    Numbers i (forInitializer n) fun s j => Numbered (Stmt.allNodes s.toList) i j := by
  refine (Quiet.skip? _).bind fun isMissing => ?_
  split
  · exact .pure (.nil (Nat.le_refl i))
  · refine (Quiet.skip? _).bind fun isVariable => ?_
    split
    all_goals
      refine .map ?_
      simp only [Option.toList_some, Stmt.allNodes_singleton]
    · exact numbers_varDeclaration n i
    · exact numbers_expressionStatement n i

theorem numbers_superclass (i : NodeId) :
    Numbers i superclass fun ref j => Numbered (ref.toList.map .variable) i j := by
  refine (Quiet.skip? _).bind fun isGiven => ?_
  split
  · refine (Quiet.expectName _).bind fun name => Numbers.fresh.bind ?_
    rintro id _ ⟨rfl, rfl⟩
    exact .pure (.node (e := .variable ⟨id, name⟩) (.nil (Nat.le_refl id)) rfl)
  · exact .pure (.nil (Nat.le_refl i))

/-! ## Statements -/

mutual

/-- A declaration that is dropped has no nodes, and its numbers are left out. -/
theorem numbers_declaration : ∀ n i,
    Numbers i (declaration n) fun s j => Numbered (Stmt.allNodes s.toList) i j
  | 0, _ => .throw _
  | n + 1, i => by
      have hbody : Numbers i (declarationBody n) fun s j => Numbered s.nodes i j := by
        refine (Quiet.skip? _).bind fun isClass => ?_
        -- whichever declaration it is, its nodes are numbered
        split
        · exact numbers_classDeclaration n i
        · refine (Quiet.skip? _).bind fun isFunction => ?_
          split
          · exact (numbers_function n i .function).bind fun decl j hdecl => .pure hdecl
          · refine (Quiet.skip? _).bind fun isVariable => ?_
            split
            · exact numbers_varDeclaration n i
            · exact numbers_statement n i
      rw [declaration_succ]
      refine hbody.recovering.mono ?_
      rintro s j ⟨hle, hs⟩
      -- one that was thrown away has no nodes, and has used up its numbers
      cases s with
      | none => exact .nil hle
      | some s =>
          rw [Option.toList_some, Stmt.allNodes_singleton]
          exact hs s rfl

theorem numbers_classDeclaration : ∀ n i,
    Numbers i (classDeclaration n) fun s j => Numbered s.nodes i j
  | 0, _ => .throw _
  | n + 1, i => by
      unfold classDeclaration
      refine (Quiet.expectName _).bind fun name => ?_
      refine (numbers_superclass i).bind fun superclass j hsuper => ?_
      refine (Quiet.expectMark _ _).bind fun _ => ?_
      refine (numbers_methods n j).bind fun methods k hmethods => ?_
      exact (Quiet.expectMark _ _).bind fun _ => .pure (hsuper.append hmethods)

theorem numbers_methods : ∀ n i,
    Numbers i (methods n) fun decls j => Numbered (FunctionDecl.allNodes decls) i j
  | 0, _ => .throw _
  | n + 1, i => by
      unfold methods
      refine Quiet.atBodyEnd.bind fun isEnd => ?_
      split
      · exact .pure (.nil (Nat.le_refl i))
      · refine (numbers_function n i .method).bind fun method j hmethod => ?_
        exact (numbers_methods n j).bind fun rest k hrest => .pure (hmethod.append hrest)

theorem numbers_function : ∀ n i callable,
    Numbers i (function n callable) fun decl j => Numbered decl.nodes i j
  | 0, _, _ => .throw _
  | n + 1, i, callable => by
      unfold function
      refine (Quiet.expectName _).bind fun name => ?_
      refine (Quiet.expectMark _ _).bind fun _ => ?_
      refine (quiet_parameters n).bind fun params => ?_
      refine (Quiet.expectMark _ _).bind fun _ => ?_
      refine (Quiet.expectMark _ _).bind fun _ => ?_
      exact (numbers_block n i).bind fun body j hbody => .pure hbody

theorem numbers_block : ∀ n i, Numbers i (block n) fun ss j => Numbered (Stmt.allNodes ss) i j
  | 0, _ => .throw _
  | n + 1, i => by
      unfold block
      refine Quiet.atBodyEnd.bind fun isEnd => ?_
      split
      · exact (Quiet.expectMark _ _).bind fun _ => .pure (.nil (Nat.le_refl i))
      · refine (numbers_declaration n i).bind fun first j hfirst => ?_
        refine (numbers_block n j).bind fun rest k hrest => .pure ?_
        rw [Stmt.allNodes_append]
        exact hfirst.append hrest

theorem numbers_statement : ∀ n i, Numbers i (statement n) fun s j => Numbered s.nodes i j
  | 0, _ => .throw _
  | n + 1, i => by
      unfold statement
      refine Quiet.current.bind fun token => ?_
      split
      · exact Quiet.advance.bind fun _ => numbers_forStatement n i
      · exact Quiet.advance.bind fun _ => numbers_ifStatement n i
      · exact Quiet.advance.bind fun _ => numbers_printStatement n i
      · exact Quiet.advance.bind fun _ => numbers_returnStatement n i token
      · exact Quiet.advance.bind fun _ => numbers_whileStatement n i
      · refine Quiet.advance.bind fun _ => ?_
        exact (numbers_block n i).bind fun body j hbody => .pure hbody
      · exact numbers_expressionStatement n i

theorem numbers_forStatement : ∀ n i, Numbers i (forStatement n) fun s j => Numbered s.nodes i j
  | 0, _ => .throw _
  | n + 1, i => by
      unfold forStatement
      refine (Quiet.expectMark _ _).bind fun _ => ?_
      refine (numbers_forInitializer n i).bind fun initializer i₁ hinit => ?_
      refine (numbers_optionalExpression n i₁ _).bind fun condition i₂ hcondition => ?_
      refine (Quiet.expectMark _ _).bind fun _ => ?_
      refine (numbers_optionalExpression n i₂ _).bind fun increment i₃ hincrement => ?_
      refine (Quiet.expectMark _ _).bind fun _ => ?_
      refine (numbers_statement n i₃).bind fun body i₄ hbody => ?_
      have hturn : (Expr.allNodes increment.toList ++ body.nodes).Perm
          (body.nodes ++ Expr.allNodes increment.toList) := List.perm_append_comm
      cases condition with
      | none =>
          -- A condition that is left out is numbered last, although it stands in front.
          refine Numbers.fresh.bind ?_
          rintro id _ ⟨rfl, rfl⟩
          have hliteral : Numbered (Expr.literal id (.bool true)).nodes id (id + 1) :=
            .node (.nil (Nat.le_refl id)) rfl
          have hclauses := (hincrement.skip hcondition.le).append hbody
          refine .pure ?_
          rw [Stmt.nodes_forLoop]
          refine hinit.append ((hclauses.append hliteral).perm ?_)
          exact List.perm_append_comm.trans (hturn.append_left _)
      | some e =>
          rw [Option.toList_some, Expr.allNodes_singleton] at hcondition
          refine .pure ?_
          rw [Stmt.nodes_forLoop]
          exact hinit.append (hcondition.append ((hincrement.append hbody).perm hturn))

theorem numbers_ifStatement : ∀ n i, Numbers i (ifStatement n) fun s j => Numbered s.nodes i j
  | 0, _ => .throw _
  | n + 1, i => by
      unfold ifStatement
      refine (Quiet.expectMark _ _).bind fun _ => ?_
      refine (numbers_expression n i).bind fun condition j hcondition => ?_
      refine (Quiet.expectMark _ _).bind fun _ => ?_
      refine (numbers_statement n j).bind fun thenBranch k hthen => ?_
      refine (Quiet.skip? _).bind fun hasElse => ?_
      split
      · refine (numbers_statement n k).bind fun elseBranch l helse => .pure ?_
        exact hcondition.append (hthen.append helse)
      · exact .pure (hcondition.append hthen)

theorem numbers_whileStatement : ∀ n i, Numbers i (whileStatement n) fun s j => Numbered s.nodes i j
  | 0, _ => .throw _
  | n + 1, i => by
      unfold whileStatement
      refine (Quiet.expectMark _ _).bind fun _ => ?_
      refine (numbers_expression n i).bind fun condition j hcondition => ?_
      refine (Quiet.expectMark _ _).bind fun _ => ?_
      refine (numbers_statement n j).bind fun body k hbody => .pure ?_
      exact hcondition.append hbody

end

/-- All nodes of a program are numbered in one range. -/
theorem numbers_program : ∀ n i, Numbers i (program n) fun ss j => Numbered (Stmt.allNodes ss) i j
  | 0, _ => .throw _
  | n + 1, i => by
      unfold program
      refine (Quiet.at? _).bind fun isEnd => ?_
      split
      · exact .pure (.nil (Nat.le_refl i))
      · refine (numbers_declaration n i).bind fun first j hfirst => ?_
        refine (numbers_program n j).bind fun rest k hrest => .pure ?_
        rw [Stmt.allNodes_append]
        exact hfirst.append hrest

end Parser

/-! ## Programs -/

namespace Program

def nodes (p : Program) : List Expr := Stmt.allNodes p.statements

/-- The numbers that reading a token list gives out, also to what is thrown away. -/
def Gives (tokens : List Token) (firstId : NodeId) (ids : List NodeId) : Prop :=
  Parser.Gives (Parser.program (Parser.depthBound tokens)) ⟨tokens, firstId, []⟩ ids

/-- What is given out are the numbers between the first one and the next one, and the expressions of
the program have numbers among these. -/
theorem numbered (tokens : List Token) (firstId : NodeId) :
    ∃ count, (ofTokens tokens firstId).nextId = firstId + count ∧
      (∀ ids, Gives tokens firstId ids ↔ ids = List.range' firstId count) ∧
      Numbered (ofTokens tokens firstId).nodes firstId (ofTokens tokens firstId).nextId := by
  rcases Parser.numbers_program (Parser.depthBound tokens) firstId ⟨tokens, firstId, []⟩ rfl with
    ⟨⟨ids, hids⟩, hresult⟩
  rcases hids.eq_range with ⟨count, hcount, rfl⟩
  -- Reading ends in the state it has come to, whether or not the bound was enough.
  have hnext : (ofTokens tokens firstId).nextId = firstId + count := by
    rw [← show _ = firstId + count from hcount]
    unfold ofTokens
    cases Parser.program (Parser.depthBound tokens) ⟨tokens, firstId, []⟩ <;> rfl
  refine ⟨count, hnext, ?_, ?_⟩
  · intro ids
    refine ⟨fun h => ?_, fun h => h ▸ hids⟩
    rcases h.eq_range with ⟨count', hcount', rfl⟩
    rw [hcount] at hcount'
    rw [Nat.add_left_cancel hcount']
  · have hle : firstId ≤ (ofTokens tokens firstId).nextId := hnext ▸ Nat.le_add_right _ _
    unfold ofTokens at hle ⊢
    split
    · rename_i ss s hrun
      exact hresult ss s hrun
    · rename_i reason s hrun
      rw [hrun] at hle
      exact .nil hle

end Program

end LoxLang
