import LoxLang.Proofs.Grammar.Exact
import LoxLang.Proofs.Grammar.Printing

/-!
# Printed programs are read back

The tokens of a tree that can be printed read as that tree, wherever they stand and however its
expressions are numbered.

* `ReadsAt n`: tokens read as an expression that binds at least as tightly as the level `n`.
  `ReadsAt.loosen`: it may then stand where less is asked for.
* `reads_expr` and `reads_statement`: what a tree flattens to reads as the tree again, by recursion
  on the tree.
* `Program.ofTokens_flatten`: reading undoes printing.
-/

namespace LoxLang

namespace Reading

/-! ## Levels -/

/-- Tokens that read as an expression of some level. -/
def ReadsAt : Nat → List Token → NodeId → Expr → NodeId → Prop
  | 0, ts, i, e, j => Expression ts i e j
  | n + 1, ts, i, e, j => if n < 7 then Operation (Precedence.all.drop n) ts i e j else Call ts i e j

/-- What is read at one level is read at the next looser one. -/
theorem ReadsAt.step {n : Nat} (hn : n < 8) {ts : List Token} {i j : NodeId} {e : Expr}
    (h : ReadsAt (n + 1) ts i e j) : ReadsAt n ts i e j := by
  cases n with
  | zero => exact .plain h
  | succ n =>
      -- One level further out there is one more level of operators to be read around the
      -- expression. The last step is from calls to unary operators.
      by_cases hlt : n + 1 < 7
      · have hoperation : Operation (Precedence.all.drop (n + 1)) ts i e j := by
          simpa [ReadsAt, hlt] using h
        have hlength : n < Precedence.all.length := by
          simp only [Precedence.all, List.length_cons, List.length_nil]
          omega
        have hlevels := List.drop_eq_getElem_cons hlength
        have hlooser : Operation (Precedence.all[n] :: Precedence.all.drop (n + 1)) ts i e j :=
          hoperation.looser
        rw [← hlevels] at hlooser
        simpa [ReadsAt, (by omega : n < 7)] using hlooser
      · obtain rfl : n = 6 := by omega
        exact .unary (.call h)

theorem ReadsAt.loosen {m n : Nat} (hmn : m ≤ n) (hn : n ≤ 8) {ts : List Token} {i j : NodeId}
    {e : Expr} (h : ReadsAt n ts i e j) : ReadsAt m ts i e j := by
  induction hmn with
  | refl => exact h
  | step _ ih => exact ih (by omega) (h.step (by omega))

/-! ## Operators of a level -/

/-- An operator of some level, between a left operand of the same level and a tighter right one. -/
theorem readsAt_node {n : Nat} {p : Precedence} (hp : Precedence.all[n]? = some p)
    {operator : Token} (hoperator : operator.kind ∈ p.operators) {ts us : List Token}
    {i j k : NodeId} {left right : Expr} (hleft : ReadsAt (n + 1) ts i left j)
    (hright : ReadsAt (n + 2) us j right k) :
    ReadsAt (n + 1) (ts ++ operator :: us) i (p.node k left operator right) (k + 1) := by
  rcases List.getElem?_eq_some_iff.1 hp with ⟨hlength, rfl⟩
  have hlt : n < 6 := hlength
  have hlevels := List.drop_eq_getElem_cons hlength
  simp only [ReadsAt, (by omega : n < 7), (by omega : n + 1 < 7), if_true] at hleft hright ⊢
  rw [hlevels] at hleft ⊢
  exact hleft.snoc hoperator hright

/-! ## Expressions -/

/-- A binary operator has a precedence in the grammar, one below its level in the printer. -/
theorem exists_precedence_of_binary {kind : Kind} {n : Nat} (h : kind.binaryLevel? = some n) :
    ∃ m p, n = m + 1 ∧ Precedence.all[m]? = some p ∧ kind ∈ p.operators ∧ p.node = .binary := by
  unfold Kind.binaryLevel? at h
  split at h <;> cases h <;> exact ⟨_, _, rfl, rfl, by decide, rfl⟩

theorem exists_precedence_of_logical {kind : Kind} {n : Nat} (h : kind.logicalLevel? = some n) :
    ∃ m p, n = m + 1 ∧ Precedence.all[m]? = some p ∧ kind ∈ p.operators ∧ p.node = .logical := by
  unfold Kind.logicalLevel? at h
  split at h <;> cases h <;> exact ⟨_, _, rfl, rfl, by decide, rfl⟩

theorem level_le (e : Expr) : e.level ≤ 8 := by
  have hlogical : ∀ kind : Kind, kind.logicalLevel?.getD 0 ≤ 8 := by
    intro kind
    cases kind <;> decide
  have hbinary : ∀ kind : Kind, kind.binaryLevel?.getD 0 ≤ 8 := by
    intro kind
    cases kind <;> decide
  cases e with
  | logical _ _ operator _ => exact hlogical operator.kind
  | binary _ _ operator _ => exact hbinary operator.kind
  | _ => simp [Expr.level]

/-- An operand may be printed without parentheses only if its level is tight enough, on the right
tighter than on the left. -/
theorem fitsLevel_eq_true {level? : Option Nat} {left right : Expr}
    (h : fitsLevel level? left right = true) :
    ∃ n, level? = some n ∧ n ≤ left.level ∧ n < right.level := by
  unfold fitsLevel at h
  split at h
  · rename_i n
    simp only [Bool.and_eq_true, decide_eq_true_eq] at h
    exact ⟨n, rfl, h⟩
  · cases h

/-- Tokens that differ in place only have the same kind. -/
theorem kind_of_bare {t u : Token} (h : t.bare = u.bare) : t.kind = u.kind := by
  have hkind : t.bare.kind = u.bare.kind := by rw [h]
  exact hkind

theorem literal_of_bare {t u : Token} (h : t.bare = u.bare) : t.literal = u.literal := by
  have hliteral : t.bare.literal = u.bare.literal := by rw [h]
  exact hliteral

/-- Any expression may stand where one of no particular level is asked for. -/
theorem ReadsAt.expression {e e' : Expr} {ts : List Token} {i j : NodeId}
    (h : ReadsAt e.level ts i e' j) : Expression ts i e' j := h.loosen (Nat.zero_le _) (level_le e)

/-- A literal is read from the token it is printed as. -/
theorem primary_literal (value : Literal) {t : Token} (i : NodeId)
    (ht : t.bare = value.token.bare) : Primary [t] i (.literal i value) (i + 1) := by
  have hkind := kind_of_bare ht
  have hliteral := literal_of_bare ht
  cases value with
  | nil => exact .nilWord hkind
  | bool b =>
      cases b with
      | false => exact .falseWord hkind
      | true => exact .trueWord hkind
  -- the literal of the token is that of the node, since they are alike but for the place
  | number x =>
      have hread : Primary [t] i (.literal i t.literal) (i + 1) := .number hkind
      rwa [hliteral] at hread
  | string s =>
      have hread : Primary [t] i (.literal i t.literal) (i + 1) := .string hkind
      rwa [hliteral] at hread

/-- Two operands that are read as themselves, with an operator of some level between them. -/
theorem reads_infix {n : Nat} {p : Precedence} (hp : Precedence.all[n]? = some p)
    {left right : Expr} {operator : Token} (hkind : operator.kind ∈ p.operators)
    (hleft : n + 1 ≤ left.level) (hright : n + 1 < right.level)
    (hreads : ∀ {ts : List Token} (i : NodeId), ts.map Token.bare = left.flatten.map Token.bare →
      ∃ left' j, ReadsAt left.level ts i left' j ∧ left'.bare = left.bare)
    (hreads' : ∀ {ts : List Token} (i : NodeId), ts.map Token.bare = right.flatten.map Token.bare →
      ∃ right' j, ReadsAt right.level ts i right' j ∧ right'.bare = right.bare)
    {ts : List Token} (i : NodeId)
    (hts : ts.map Token.bare = (left.flatten ++ operator :: right.flatten).map Token.bare) :
    ∃ left' operator' right' k,
      ReadsAt (n + 1) ts i (p.node k left' operator' right') (k + 1) ∧
        left'.bare = left.bare ∧ operator'.bare = operator.bare ∧ right'.bare = right.bare := by
  -- The tokens divide where those of the tree do.
  simp only [List.map_append, List.map_cons, List.map_eq_append_iff, List.map_eq_cons_iff] at hts
  rcases hts with ⟨ts, _, rfl, hts, operator', us, rfl, hoperator, hus⟩
  rcases hreads i hts with ⟨left', j, hread, hbare⟩
  rcases hreads' j hus with ⟨right', k, hread', hbare'⟩
  rw [← kind_of_bare hoperator] at hkind
  have hwhole := readsAt_node hp hkind (hread.loosen hleft (level_le left))
    (hread'.loosen hright (level_le right))
  exact ⟨left', operator', right', k, hwhole, hbare, hoperator, hbare'⟩

mutual

/-- The tokens of a printable expression, wherever they stand, are read as that expression again. -/
theorem reads_expr : ∀ (e : Expr) {ts : List Token} (i : NodeId), e.printable = true →
    ts.map Token.bare = e.flatten.map Token.bare →
    ∃ e' j, ReadsAt e.level ts i e' j ∧ e'.bare = e.bare
  | .assign _ name value, ts, i, h, hts => by
      simp only [Expr.printable, Bool.and_eq_true, beq_iff_eq] at h
      simp only [Expr.flatten, List.map_cons, List.map_eq_cons_iff] at hts
      rcases hts with ⟨name', _, rfl, hname, equals, us, rfl, hequals, hus⟩
      rcases reads_expr value (i + 1) h.2 hus with ⟨value', j, hread, hvalue⟩
      refine ⟨.assign j name' value', j + 1, ?_, by simp [Expr.bare, hname, hvalue]⟩
      exact .assign ((kind_of_bare hname).trans h.1) (kind_of_bare hequals) hread.expression
  | .binary _ left operator right, ts, i, h, hts => by
      simp only [Expr.printable, Bool.and_eq_true] at h
      rcases fitsLevel_eq_true h.1.1 with ⟨n, hn, hleft, hright⟩
      rcases exists_precedence_of_binary hn with ⟨m, p, rfl, hp, hkind, hnode⟩
      rcases reads_infix hp hkind hleft hright (fun i => reads_expr left i h.1.2)
        (fun i => reads_expr right i h.2) i hts with
        ⟨left', operator', right', k, hread, hbare, hoperator, hbare'⟩
      rw [hnode] at hread
      refine ⟨.binary k left' operator' right', k + 1, ?_, ?_⟩
      · rwa [Expr.level, hn]
      · simp [Expr.bare, hbare, hoperator, hbare']
  | .call _ callee paren [], ts, i, h, hts => by
      simp only [Expr.printable, Bool.and_eq_true, beq_iff_eq] at h
      simp only [Expr.flatten, List.map_append, List.map_cons, List.map_nil, List.map_eq_append_iff,
        List.map_eq_cons_iff, List.map_eq_nil_iff] at hts
      rcases hts with ⟨ts, _, rfl, hts, openParen, _, rfl, hopen, paren', _, rfl, hparen, rfl⟩
      rcases reads_expr callee i h.1.2 hts with ⟨callee', j, hread, hbare⟩
      rw [h.1.1.1.1] at hread
      refine ⟨_, _, hread.snoc_call (kind_of_bare hopen) .none
        ((kind_of_bare hparen).trans h.1.1.1.2), ?_⟩
      simp [Expr.bare, Expr.bareAll, hbare, hparen]
  | .call _ callee paren (first :: rest), ts, i, h, hts => by
      simp only [Expr.printable, Expr.allPrintable, Bool.and_eq_true, beq_iff_eq,
        decide_eq_true_eq, List.length_cons] at h
      simp only [Expr.flatten, List.map_append, List.map_cons, List.map_nil, List.map_eq_append_iff,
        List.map_eq_cons_iff, List.map_eq_nil_iff] at hts
      rcases hts with ⟨ts, _, rfl, hts, openParen, _, rfl, hopen, us, _, rfl, hus, vs, _, rfl, hvs,
        paren', _, rfl, hparen, rfl⟩
      rcases reads_expr callee i h.1.2 hts with ⟨callee', j, hread, hbare⟩
      rcases reads_expr first j h.2.1 hus with ⟨first', k, hread', hbare'⟩
      rcases reads_more rest k [first'] h.2.2 (by simpa [Nat.add_comm] using h.1.1.2) hvs with
        ⟨rest', l, hread'', hbare''⟩
      rw [h.1.1.1.1] at hread
      -- The first argument is read apart from those that follow a comma.
      have harguments := Arguments.some hread'.expression hread''
      have hwhole := hread.snoc_call (kind_of_bare hopen) harguments
        ((kind_of_bare hparen).trans h.1.1.1.2)
      rw [List.append_assoc] at hwhole
      refine ⟨_, _, hwhole, ?_⟩
      simp [Expr.bare, Expr.bareAll, hbare, hbare', hbare'', hparen]
  | .get _ object name, ts, i, h, hts => by
      simp only [Expr.printable, Bool.and_eq_true, beq_iff_eq] at h
      simp only [Expr.flatten, List.map_append, List.map_cons, List.map_nil, List.map_eq_append_iff,
        List.map_eq_cons_iff, List.map_eq_nil_iff] at hts
      rcases hts with ⟨ts, _, rfl, hts, dot, _, rfl, hdot, name', _, rfl, hname, rfl⟩
      rcases reads_expr object i h.2 hts with ⟨object', j, hread, hbare⟩
      rw [h.1.1] at hread
      refine ⟨_, _, hread.snoc_get (kind_of_bare hdot) ((kind_of_bare hname).trans h.1.2), ?_⟩
      simp [Expr.bare, hbare, hname]
  | .grouping _ inner, ts, i, h, hts => by
      simp only [Expr.flatten, List.map_append, List.map_cons, List.map_nil, List.map_eq_append_iff,
        List.map_eq_cons_iff, List.map_eq_nil_iff] at hts
      rcases hts with ⟨openParen, _, rfl, hopen, us, _, rfl, hus, closeParen, _, rfl, hclose, rfl⟩
      rcases reads_expr inner i h hus with ⟨inner', j, hread, hbare⟩
      refine ⟨.grouping j inner', j + 1, ?_, by simp [Expr.bare, hbare]⟩
      exact (Primary.grouping (kind_of_bare hopen) hread.expression (kind_of_bare hclose)).call
  | .literal _ value, ts, i, _, hts => by
      simp only [Expr.flatten, List.map_cons, List.map_nil, List.map_eq_cons_iff,
        List.map_eq_nil_iff] at hts
      rcases hts with ⟨t, _, rfl, ht, rfl⟩
      exact ⟨.literal i value, i + 1, (primary_literal value i ht).call, rfl⟩
  | .logical _ left operator right, ts, i, h, hts => by
      simp only [Expr.printable, Bool.and_eq_true] at h
      rcases fitsLevel_eq_true h.1.1 with ⟨n, hn, hleft, hright⟩
      rcases exists_precedence_of_logical hn with ⟨m, p, rfl, hp, hkind, hnode⟩
      rcases reads_infix hp hkind hleft hright (fun i => reads_expr left i h.1.2)
        (fun i => reads_expr right i h.2) i hts with
        ⟨left', operator', right', k, hread, hbare, hoperator, hbare'⟩
      rw [hnode] at hread
      refine ⟨.logical k left' operator' right', k + 1, ?_, ?_⟩
      · rwa [Expr.level, hn]
      · simp [Expr.bare, hbare, hoperator, hbare']
  | .set _ object name value, ts, i, h, hts => by
      simp only [Expr.printable, Bool.and_eq_true, beq_iff_eq] at h
      simp only [Expr.flatten, List.map_append, List.map_cons, List.map_eq_append_iff,
        List.map_eq_cons_iff] at hts
      rcases hts with ⟨ts, _, rfl, hts, dot, _, rfl, hdot, name', _, rfl, hname, equals, us, rfl,
        hequals, hus⟩
      rcases reads_expr object i h.1.2 hts with ⟨object', j, hread, hbare⟩
      rcases reads_expr value (j + 1) h.2 hus with ⟨value', k, hread', hbare'⟩
      rw [h.1.1.1] at hread
      refine ⟨.set k object' name' value', k + 1, ?_, by simp [Expr.bare, hbare, hname, hbare']⟩
      exact .set hread (kind_of_bare hdot) ((kind_of_bare hname).trans h.1.1.2)
        (kind_of_bare hequals) hread'.expression
  | .super _ keyword method, ts, i, h, hts => by
      simp only [Expr.printable, Bool.and_eq_true, beq_iff_eq] at h
      simp only [Expr.flatten, List.map_cons, List.map_nil, List.map_eq_cons_iff,
        List.map_eq_nil_iff] at hts
      rcases hts with ⟨keyword', _, rfl, hkeyword, dot, _, rfl, hdot, method', _, rfl, hmethod, rfl⟩
      refine ⟨.super i keyword' method', i + 1, ?_, by simp [Expr.bare, hkeyword, hmethod]⟩
      exact (Primary.super ((kind_of_bare hkeyword).trans h.1) (kind_of_bare hdot)
        ((kind_of_bare hmethod).trans h.2)).call
  | .this _ keyword, ts, i, h, hts => by
      simp only [Expr.printable, beq_iff_eq] at h
      simp only [Expr.flatten, List.map_cons, List.map_nil, List.map_eq_cons_iff,
        List.map_eq_nil_iff] at hts
      rcases hts with ⟨keyword', _, rfl, hkeyword, rfl⟩
      refine ⟨.this i keyword', i + 1, ?_, by simp [Expr.bare, hkeyword]⟩
      exact (Primary.this ((kind_of_bare hkeyword).trans h)).call
  | .unary _ operator right, ts, i, h, hts => by
      simp only [Expr.printable, Bool.and_eq_true, Bool.or_eq_true, beq_iff_eq,
        decide_eq_true_eq] at h
      simp only [Expr.flatten, List.map_cons, List.map_eq_cons_iff] at hts
      rcases hts with ⟨operator', us, rfl, hoperator, hus⟩
      rcases reads_expr right i h.2 hus with ⟨right', j, hread, hbare⟩
      -- An operand of this level is read without any operator around it.
      have hunary : Operation [] us i right' j := hread.loosen h.1.2 (level_le right)
      cases hunary with
      | unary hunary =>
          refine ⟨.unary j operator' right', j + 1, ?_, by simp [Expr.bare, hoperator, hbare]⟩
          refine .unary (.operator ?_ hunary)
          rw [kind_of_bare hoperator]
          exact h.1.1
  | .variable ref, ts, i, h, hts => by
      simp only [Expr.printable, beq_iff_eq] at h
      simp only [Expr.flatten, List.map_cons, List.map_nil, List.map_eq_cons_iff,
        List.map_eq_nil_iff] at hts
      rcases hts with ⟨name', _, rfl, hname, rfl⟩
      refine ⟨.variable ⟨i, name'⟩, i + 1, ?_, by simp [Expr.bare, hname]⟩
      exact (Primary.variable ((kind_of_bare hname).trans h)).call

/-- The arguments behind those that have been read. -/
theorem reads_more : ∀ (es : List Expr) {ts : List Token} (i : NodeId) (before : List Expr),
    Expr.allPrintable es = true → before.length + es.length ≤ 255 →
    ts.map Token.bare = (Expr.flattenMore es).map Token.bare →
    ∃ es' j, MoreArguments before ts i (before ++ es') j ∧ Expr.bareAll es' = Expr.bareAll es
  | [], ts, i, before, _, _, hts => by
      simp only [Expr.flattenMore, List.map_nil, List.map_eq_nil_iff] at hts
      subst hts
      refine ⟨[], i, ?_, rfl⟩
      rw [List.append_nil]
      exact .done
  | e :: es, ts, i, before, h, hlength, hts => by
      simp only [Expr.allPrintable, Bool.and_eq_true] at h
      simp only [Expr.flattenMore, List.map_append, List.map_cons, List.map_eq_append_iff,
        List.map_eq_cons_iff] at hts
      rcases hts with ⟨comma, _, rfl, hcomma, us, vs, rfl, hus, hvs⟩
      rw [List.length_cons] at hlength
      -- the argument behind the comma, and then those behind it
      rcases reads_expr e i h.1 hus with ⟨e', j, hread, hbare⟩
      rcases reads_more es j (before ++ [e']) h.2 (by simp; omega) hvs with
        ⟨es', k, hread', hbare'⟩
      refine ⟨e' :: es', k, ?_, by simp [Expr.bareAll, hbare, hbare']⟩
      rw [List.append_assoc] at hread'
      exact .more (kind_of_bare hcomma) (by omega) hread.expression hread'

end

/-! ## Statements -/

/-- Tokens that read as a statement, or as the declaration that it is. -/
def ReadsLike (s : Stmt) (ts : List Token) (i : NodeId) (s' : Stmt) (j : NodeId) : Prop :=
  if s.isDeclaration then Declaration ts i s' j else Statement s.endsInIf ts i s' j

theorem ReadsLike.declaration {s s' : Stmt} {ts : List Token} {i j : NodeId}
    (h : ReadsLike s ts i s' j) : Declaration ts i s' j := by
  unfold ReadsLike at h
  split at h
  · exact h
  · exact .statement h

theorem ReadsLike.statement {s s' : Stmt} {ts : List Token} {i j : NodeId}
    (hs : s.isDeclaration = false) (h : ReadsLike s ts i s' j) : Statement s.endsInIf ts i s' j := by
  simpa [ReadsLike, hs] using h

/-- A superclass is a name with `<` before it, or nothing at all. -/
theorem reads_superclass (superclass : Option Reference) {ts : List Token} (i : NodeId)
    (h : superclass.all (fun ref => ref.name.kind == .identifier) = true)
    (hts : ts.map Token.bare = (flattenSuperclass superclass).map Token.bare) :
    ∃ superclass' j, Superclass ts i superclass' j ∧
      superclass'.map (fun ref => (⟨0, ref.name.bare⟩ : Reference)) =
        superclass.map (fun ref => ⟨0, ref.name.bare⟩) := by
  cases superclass with
  | none =>
      simp only [flattenSuperclass, List.map_nil, List.map_eq_nil_iff] at hts
      subst hts
      exact ⟨none, i, .none, rfl⟩
  | some ref =>
      simp only [Option.all_some, beq_iff_eq] at h
      simp only [flattenSuperclass, List.map_cons, List.map_nil, List.map_eq_cons_iff,
        List.map_eq_nil_iff] at hts
      rcases hts with ⟨less, _, rfl, hless, name', _, rfl, hname, rfl⟩
      refine ⟨some ⟨i, name'⟩, i + 1, ?_, by simp [hname]⟩
      exact .some (kind_of_bare hless) ((kind_of_bare hname).trans h)

theorem reads_optional (value : Option Expr) {ts : List Token} (i : NodeId)
    (h : optionalPrintable value = true)
    (hts : ts.map Token.bare = (flattenOptional value).map Token.bare) :
    ∃ value' j, OptionalExpression ts i value' j ∧ value'.map Expr.bare = value.map Expr.bare := by
  cases value with
  | none =>
      simp only [flattenOptional, List.map_nil, List.map_eq_nil_iff] at hts
      subst hts
      exact ⟨none, i, .none, rfl⟩
  | some e =>
      rcases reads_expr e i h hts with ⟨e', j, hread, hbare⟩
      exact ⟨some e', j, .some hread.expression, by simp [hbare]⟩

theorem reads_initializer (value : Option Expr) {ts : List Token} (i : NodeId)
    (h : optionalPrintable value = true)
    (hts : ts.map Token.bare = (flattenInitializer value).map Token.bare) :
    ∃ value' j, Initializer ts i value' j ∧ value'.map Expr.bare = value.map Expr.bare := by
  cases value with
  | none =>
      simp only [flattenInitializer, List.map_nil, List.map_eq_nil_iff] at hts
      subst hts
      exact ⟨none, i, .none, rfl⟩
  | some e =>
      simp only [flattenInitializer, List.map_cons, List.map_eq_cons_iff] at hts
      rcases hts with ⟨equals, us, rfl, hequals, hus⟩
      rcases reads_expr e i h hus with ⟨e', j, hread, hbare⟩
      exact ⟨some e', j, .some (kind_of_bare hequals) hread.expression, by simp [hbare]⟩

/-- The parameters behind those that have been read. -/
theorem reads_moreParameters (params : List Token) {ts : List Token} (before : List Token)
    (h : params.all (·.kind == .identifier) = true) (hlength : before.length + params.length ≤ 255)
    (hts : ts.map Token.bare =
      (params.flatMap fun param => [Kind.comma.token, param]).map Token.bare) :
    ∃ params', MoreParameters before ts (before ++ params') ∧
      params'.map Token.bare = params.map Token.bare := by
  induction params generalizing ts before with
  | nil =>
      simp only [List.flatMap_nil, List.map_nil, List.map_eq_nil_iff] at hts
      subst hts
      refine ⟨[], ?_, rfl⟩
      rw [List.append_nil]
      exact .done
  | cons param params ih =>
      simp only [List.all_cons, Bool.and_eq_true, beq_iff_eq] at h
      simp only [List.flatMap_cons, List.cons_append, List.nil_append, List.map_cons,
        List.map_eq_cons_iff] at hts
      rcases hts with ⟨comma, _, rfl, hcomma, param', us, rfl, hparam, hus⟩
      rw [List.length_cons] at hlength
      rcases ih (before ++ [param']) h.2 (by simp; omega) hus with ⟨params', hread, hbare⟩
      refine ⟨param' :: params', ?_, by simp [hparam, hbare]⟩
      rw [List.append_assoc] at hread
      exact .more (kind_of_bare hcomma) (by omega)
        ((kind_of_bare hparam).trans h.1) hread

/-- Parameters are names with commas between them, up to the limit of the grammar. -/
theorem reads_parameters (params : List Token) {ts : List Token}
    (h : params.all (·.kind == .identifier) = true) (hlength : params.length ≤ 255)
    (hts : ts.map Token.bare = (flattenParameters params).map Token.bare) :
    ∃ params', Parameters ts params' ∧ params'.map Token.bare = params.map Token.bare := by
  cases params with
  | nil =>
      simp only [flattenParameters, List.map_nil, List.map_eq_nil_iff] at hts
      subst hts
      exact ⟨[], .none, rfl⟩
  | cons first rest =>
      simp only [List.all_cons, Bool.and_eq_true, beq_iff_eq] at h
      simp only [flattenParameters, List.map_cons, List.map_eq_cons_iff] at hts
      rcases hts with ⟨first', us, rfl, hfirst, hus⟩
      rcases reads_moreParameters rest [first'] h.2 (by simpa [Nat.add_comm] using hlength) hus with
        ⟨rest', hread, hbare⟩
      exact ⟨first' :: rest', .some ((kind_of_bare hfirst).trans h.1) hread,
        by simp [hfirst, hbare]⟩

mutual

/-- The tokens of a printable statement are read as that statement again, open or closed as it
is. -/
theorem reads_statement : ∀ (s : Stmt) {ts : List Token} (i : NodeId), s.printable = true →
    ts.map Token.bare = s.flatten.map Token.bare →
    ∃ s' j, ReadsLike s ts i s' j ∧ s'.bare = s.bare
  | .block body, ts, i, h, hts => by
      simp only [Stmt.flatten, List.map_append, List.map_cons, List.map_nil, List.map_eq_append_iff,
        List.map_eq_cons_iff, List.map_eq_nil_iff] at hts
      rcases hts with ⟨openBrace, _, rfl, hopen, us, _, rfl, hus, closeBrace, _, rfl, hclose, rfl⟩
      rcases reads_statements body i h hus with ⟨body', j, hread, hbare⟩
      refine ⟨.block body', j, ?_, by simp [Stmt.bare, hbare]⟩
      exact Statement.block (kind_of_bare hopen) hread (kind_of_bare hclose)
  | .classDecl name superclass methods, ts, i, h, hts => by
      simp only [Stmt.printable, Bool.and_eq_true, beq_iff_eq] at h
      simp only [Stmt.flatten, List.map_append, List.map_cons, List.map_nil, List.map_eq_append_iff,
        List.map_eq_cons_iff, List.map_eq_nil_iff] at hts
      rcases hts with ⟨keyword, _, rfl, hkeyword, name', _, rfl, hname, us, _, rfl, hus, openBrace,
        _, rfl, hopen, vs, _, rfl, hvs, closeBrace, _, rfl, hclose, rfl⟩
      rcases reads_superclass superclass i h.1.2 hus with ⟨superclass', j, hsuper, hbare⟩
      rcases reads_methods methods j h.2 hvs with ⟨methods', k, hread, hbare'⟩
      refine ⟨.classDecl name' superclass' methods', k, ?_, by simp [Stmt.bare, hname, hbare, hbare']⟩
      have hwhole := Declaration.classDecl (kind_of_bare hkeyword)
        ((kind_of_bare hname).trans h.1.1) hsuper (kind_of_bare hopen) hread (kind_of_bare hclose)
      simpa [ReadsLike, Stmt.isDeclaration] using hwhole
  | .expression e, ts, i, h, hts => by
      simp only [Stmt.flatten, List.map_append, List.map_cons, List.map_nil, List.map_eq_append_iff,
        List.map_eq_cons_iff, List.map_eq_nil_iff] at hts
      rcases hts with ⟨us, _, rfl, hus, mark, _, rfl, hmark, rfl⟩
      rcases reads_expr e i h hus with ⟨e', j, hread, hbare⟩
      refine ⟨.expression e', j, ?_, by simp [Stmt.bare, hbare]⟩
      exact Statement.expression (.mk hread.expression (kind_of_bare hmark))
  | .function decl, ts, i, h, hts => by
      simp only [Stmt.flatten, List.map_cons, List.map_eq_cons_iff] at hts
      rcases hts with ⟨keyword, us, rfl, hkeyword, hus⟩
      rcases reads_function decl i h hus with ⟨decl', j, hread, hbare⟩
      refine ⟨.function decl', j, ?_, by simp [Stmt.bare, hbare]⟩
      exact Declaration.function (kind_of_bare hkeyword) hread
  | .ifElse condition thenBranch none, ts, i, h, hts => by
      simp only [Stmt.printable, Bool.and_eq_true, Bool.not_eq_true'] at h
      simp only [Stmt.flatten, List.map_append, List.map_cons, List.map_eq_append_iff,
        List.map_eq_cons_iff] at hts
      rcases hts with ⟨keyword, _, rfl, hkeyword, openParen, _, rfl, hopen, us, _, rfl, hus,
        closeParen, vs, rfl, hclose, hvs⟩
      rcases reads_expr condition i h.1.1 hus with ⟨condition', j, hread, hbare⟩
      rcases reads_statement thenBranch j h.2 hvs with ⟨thenBranch', k, hread', hbare'⟩
      refine ⟨.ifElse condition' thenBranch' none, k, ?_, by simp [Stmt.bare, hbare, hbare']⟩
      exact Statement.ifOnly (kind_of_bare hkeyword) (kind_of_bare hopen) hread.expression
        (kind_of_bare hclose) (hread'.statement h.1.2)
  | .ifElse condition thenBranch (some elseBranch), ts, i, h, hts => by
      simp only [Stmt.printable, Bool.and_eq_true, Bool.not_eq_true'] at h
      simp only [Stmt.flatten, List.map_append, List.map_cons, List.map_eq_append_iff,
        List.map_eq_cons_iff] at hts
      rcases hts with ⟨keyword, _, rfl, hkeyword, openParen, _, rfl, hopen, us, _, rfl, hus,
        closeParen, _, rfl, hclose, vs, _, rfl, hvs, elseWord, ws, rfl, helse, hws⟩
      rcases h with ⟨⟨⟨⟨⟨hcondition, hthen⟩, hopenIf⟩, hother⟩, hprintable⟩, hprintable'⟩
      rcases reads_expr condition i hcondition hus with ⟨condition', j, hread, hbare⟩
      rcases reads_statement thenBranch j hprintable hvs with ⟨thenBranch', k, hread', hbare'⟩
      rcases reads_statement elseBranch k hprintable' hws with ⟨elseBranch', l, hread'', hbare''⟩
      refine ⟨.ifElse condition' thenBranch' (some elseBranch'), l, ?_,
        by simp [Stmt.bare, hbare, hbare', hbare'']⟩
      -- The branch in front of `else` is read as one that does not end in an open `if`.
      have hclosed := hread'.statement hthen
      rw [hopenIf] at hclosed
      have hwhole := Statement.ifElse (kind_of_bare hkeyword) (kind_of_bare hopen) hread.expression
        (kind_of_bare hclose) hclosed (kind_of_bare helse) (hread''.statement hother)
      simpa [ReadsLike, Stmt.isDeclaration, Stmt.endsInIf] using hwhole
  | .print e, ts, i, h, hts => by
      simp only [Stmt.flatten, List.map_append, List.map_cons, List.map_nil, List.map_eq_append_iff,
        List.map_eq_cons_iff, List.map_eq_nil_iff] at hts
      rcases hts with ⟨keyword, _, rfl, hkeyword, us, _, rfl, hus, mark, _, rfl, hmark, rfl⟩
      rcases reads_expr e i h hus with ⟨e', j, hread, hbare⟩
      refine ⟨.print e', j, ?_, by simp [Stmt.bare, hbare]⟩
      exact Statement.print (kind_of_bare hkeyword) hread.expression (kind_of_bare hmark)
  | .returnValue keyword value, ts, i, h, hts => by
      simp only [Stmt.printable, Bool.and_eq_true, beq_iff_eq] at h
      simp only [Stmt.flatten, List.map_append, List.map_cons, List.map_nil, List.map_eq_append_iff,
        List.map_eq_cons_iff, List.map_eq_nil_iff] at hts
      rcases hts with ⟨keyword', _, rfl, hkeyword, us, _, rfl, hus, mark, _, rfl, hmark, rfl⟩
      rcases reads_optional value i h.2 hus with ⟨value', j, hread, hbare⟩
      refine ⟨.returnValue keyword' value', j, ?_, by simp [Stmt.bare, hkeyword, hbare]⟩
      exact Statement.returnValue ((kind_of_bare hkeyword).trans h.1) hread (kind_of_bare hmark)
  | .varDecl name value, ts, i, h, hts => by
      simp only [Stmt.printable, Bool.and_eq_true, beq_iff_eq] at h
      simp only [Stmt.flatten, List.map_append, List.map_cons, List.map_nil, List.map_eq_append_iff,
        List.map_eq_cons_iff, List.map_eq_nil_iff] at hts
      rcases hts with ⟨keyword, _, rfl, hkeyword, name', _, rfl, hname, us, _, rfl, hus, mark, _,
        rfl, hmark, rfl⟩
      rcases reads_initializer value i h.2 hus with ⟨value', j, hread, hbare⟩
      refine ⟨.varDecl name' value', j, ?_, by simp [Stmt.bare, hname, hbare]⟩
      exact Declaration.variable (kind_of_bare hkeyword)
        (.mk ((kind_of_bare hname).trans h.1) hread (kind_of_bare hmark))
  | .whileLoop condition body, ts, i, h, hts => by
      simp only [Stmt.printable, Bool.and_eq_true, Bool.not_eq_true'] at h
      simp only [Stmt.flatten, List.map_append, List.map_cons, List.map_eq_append_iff,
        List.map_eq_cons_iff] at hts
      rcases hts with ⟨keyword, _, rfl, hkeyword, openParen, _, rfl, hopen, us, _, rfl, hus,
        closeParen, vs, rfl, hclose, hvs⟩
      rcases reads_expr condition i h.1.1 hus with ⟨condition', j, hread, hbare⟩
      rcases reads_statement body j h.2 hvs with ⟨body', k, hread', hbare'⟩
      refine ⟨.whileLoop condition' body', k, ?_, by simp [Stmt.bare, hbare, hbare']⟩
      have hwhole := Statement.whileLoop (kind_of_bare hkeyword) (kind_of_bare hopen)
        hread.expression (kind_of_bare hclose) (hread'.statement h.1.2)
      simpa [ReadsLike, Stmt.isDeclaration, Stmt.endsInIf] using hwhole

/-- The tokens of statements, one after the other, are read as those statements. -/
theorem reads_statements : ∀ (ss : List Stmt) {ts : List Token} (i : NodeId),
    Stmt.allPrintable ss = true → ts.map Token.bare = (Stmt.flattenAll ss).map Token.bare →
    ∃ ss' j, Declarations ts i ss' j ∧ Stmt.bareAll ss' = Stmt.bareAll ss
  | [], ts, i, _, hts => by
      simp only [Stmt.flattenAll, List.map_nil, List.map_eq_nil_iff] at hts
      subst hts
      exact ⟨[], i, .nil, rfl⟩
  | s :: ss, ts, i, h, hts => by
      simp only [Stmt.allPrintable, Bool.and_eq_true] at h
      simp only [Stmt.flattenAll, List.map_append, List.map_eq_append_iff] at hts
      rcases hts with ⟨us, vs, rfl, hus, hvs⟩
      rcases reads_statement s i h.1 hus with ⟨s', j, hread, hbare⟩
      rcases reads_statements ss j h.2 hvs with ⟨ss', k, hread', hbare'⟩
      exact ⟨s' :: ss', k, .cons hread.declaration hread', by simp [Stmt.bareAll, hbare, hbare']⟩

theorem reads_function : ∀ (decl : FunctionDecl) {ts : List Token} (i : NodeId),
    decl.printable = true → ts.map Token.bare = decl.flatten.map Token.bare →
    ∃ decl' j, Function ts i decl' j ∧ decl'.bare = decl.bare
  | ⟨name, params, body⟩, ts, i, h, hts => by
      simp only [FunctionDecl.printable, Bool.and_eq_true, beq_iff_eq, decide_eq_true_eq] at h
      simp only [FunctionDecl.flatten, List.map_append, List.map_cons, List.map_nil,
        List.map_eq_append_iff, List.map_eq_cons_iff, List.map_eq_nil_iff] at hts
      rcases hts with ⟨name', _, rfl, hname, openParen, _, rfl, hopen, us, _, rfl, hus, closeParen,
        _, rfl, hclose, openBrace, _, rfl, hopen', vs, _, rfl, hvs, closeBrace, _, rfl, hclose', rfl⟩
      rcases reads_parameters params h.1.1.2 h.1.2 hus with ⟨params', hparams, hbare⟩
      rcases reads_statements body i h.2 hvs with ⟨body', j, hread, hbare'⟩
      refine ⟨⟨name', params', body'⟩, j, ?_, by simp [FunctionDecl.bare, hname, hbare, hbare']⟩
      have hwhole := Function.mk ((kind_of_bare hname).trans h.1.1.1) (kind_of_bare hopen) hparams
        (kind_of_bare hclose) (kind_of_bare hopen') hread (kind_of_bare hclose')
      simpa using hwhole

theorem reads_methods : ∀ (decls : List FunctionDecl) {ts : List Token} (i : NodeId),
    FunctionDecl.allPrintable decls = true →
    ts.map Token.bare = (FunctionDecl.flattenAll decls).map Token.bare →
    ∃ decls' j, Methods ts i decls' j ∧ FunctionDecl.bareAll decls' = FunctionDecl.bareAll decls
  | [], ts, i, _, hts => by
      simp only [FunctionDecl.flattenAll, List.map_nil, List.map_eq_nil_iff] at hts
      subst hts
      exact ⟨[], i, .nil, rfl⟩
  | decl :: decls, ts, i, h, hts => by
      simp only [FunctionDecl.allPrintable, Bool.and_eq_true] at h
      simp only [FunctionDecl.flattenAll, List.map_append, List.map_eq_append_iff] at hts
      rcases hts with ⟨us, vs, rfl, hus, hvs⟩
      rcases reads_function decl i h.1 hus with ⟨decl', j, hread, hbare⟩
      rcases reads_methods decls j h.2 hvs with ⟨decls', k, hread', hbare'⟩
      exact ⟨decl' :: decls', k, .cons hread hread', by simp [FunctionDecl.bareAll, hbare, hbare']⟩

end

end Reading

/-! ## Whole programs -/

/-- Reading undoes printing, wherever the tokens stand and from whatever number on. -/
theorem Program.ofTokens_flatten {ss : List Stmt} (hss : Stmt.allPrintable ss = true)
    {ts : List Token} (hts : ts.map Token.bare = (Stmt.flattenAll ss).map Token.bare) {eof : Token}
    (heof : eof.kind = .eof) (firstId : NodeId) :
    (ofTokens (ts ++ [eof]) firstId).errors = [] ∧
      Stmt.bareAll (ofTokens (ts ++ [eof]) firstId).statements = Stmt.bareAll ss := by
  rcases Reading.reads_statements ss firstId hss hts with ⟨ss', j, hread, hbare⟩
  rw [(ofTokens_eq_iff_reading heof hread.kind_ne_eof).2 hread]
  exact ⟨rfl, hbare⟩

/-- The hypotheses hold of
`class A < B { m(x) { if (x) while (!x) x = -x; else return super.m(x, (nil)).y; } }`. -/
theorem Program.ofTokens_flatten_class :
    let word (text : String) : Token := ⟨.identifier, text, .nil, 0, 0⟩
    let x : Expr := .variable ⟨0, word "x"⟩
    let found : Expr := .get 0 (.call 0 (.super 0 Kind.superWord.token (word "m"))
      Kind.rightParen.token [x, .grouping 0 (.literal 0 .nil)]) (word "y")
    let turn : Stmt := .expression (.assign 0 (word "x") (.unary 0 Kind.minus.token x))
    let body : Stmt := .ifElse x (.whileLoop (.unary 0 Kind.bang.token x) turn)
      (some (.returnValue Kind.returnWord.token (some found)))
    let ss : List Stmt := [.classDecl (word "A") (some ⟨0, word "B"⟩) [⟨word "m", [word "x"], [body]⟩]]
    Stmt.allPrintable ss = true ∧
      (ofTokens (Stmt.flattenAll ss ++ [Token.endOfInput 1 1]) 7).errors = [] ∧
      Stmt.bareAll (ofTokens (Stmt.flattenAll ss ++ [Token.endOfInput 1 1]) 7).statements =
        Stmt.bareAll ss :=
  ⟨by decide, ofTokens_flatten (by decide) rfl rfl 7⟩

end LoxLang
