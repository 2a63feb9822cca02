import LoxLang.Proofs.Grammar.Alike
import LoxLang.Proofs.Grammar.Reading
import LoxLang.Proofs.Parsing.Depth

/-!
# Readings of relabelled tokens

A list of tokens in which every one has been replaced by another of the same kind reads as a tree of
the same shape: the grammar looks at nothing but the kinds. Where the numbering starts makes no
difference either, since the two trees are numbered in step. A reading does not depend on what comes
behind it, so `Declarations.append` puts two of them together.
-/

namespace LoxLang

/-- Tokens are replaced by others that are the same word. -/
structure Relabels (f : Token → Token) : Prop where
  kind : ∀ t, (f t).kind = t.kind
  lexeme : ∀ t, (f t).lexeme = t.lexeme
  literal : ∀ t, (f t).literal = t.literal

theorem Relabels.of_kind {f : Token → Token} (hf : Relabels f) {t : Token} {kind : Kind}
    (h : t.kind = kind) : (f t).kind = kind := (hf.kind t).trans h

theorem relabels_id : Relabels id := ⟨fun _ => rfl, fun _ => rfl, fun _ => rfl⟩

/-- Numbers that are related stay so when both are counted on. -/
def InStep (R : NodeId → NodeId → Prop) : Prop := ∀ i i', R i i' → R (i + 1) (i' + 1)

theorem inStep_eq : InStep Eq := fun _ _ h => congrArg (· + 1) h

namespace Reading

variable {T : Token → Token → Prop} {R : NodeId → NodeId → Prop} {f : Token → Token}

/-! ## Expressions -/

/-- Alike operands make alike nodes, at each level. -/
theorem alike_node (p : Precedence) (id id' : NodeId) {left left' right right' : Expr}
    {operator operator' : Token} (hleft : Expr.Alike T R left left')
    (hop : T operator operator') (hright : Expr.Alike T R right right') :
    Expr.Alike T R (p.node id left operator right) (p.node id' left' operator' right') := by
  cases p with
  | logicOr | logicAnd => exact .logical hleft hop hright
  | equality | comparison | term | factor => exact .binary hleft hop hright

theorem allAlike_append : ∀ {es es' : List Expr} {e e' : Expr}, Expr.AllAlike T R es es' →
    Expr.Alike T R e e' → Expr.AllAlike T R (es ++ [e]) (es' ++ [e'])
  | [], [], _, _, .nil, h => .cons h .nil
  | _ :: _, _ :: _, _, _, .cons hfirst hs, h => .cons hfirst (allAlike_append hs h)

theorem length_of_allAlike : ∀ {es es' : List Expr}, Expr.AllAlike T R es es' →
    es'.length = es.length
  | [], [], .nil => rfl
  | _ :: _, _ :: _, .cons _ hs => congrArg (· + 1) (length_of_allAlike hs)

mutual

/-- Tokens that are relabelled are read as the same tree with the tokens relabelled, and numbers
that keep in step. -/
theorem Expression.relabel (hf : Relabels f) (hR : InStep R) {ts : List Token} {i i' j : NodeId}
    {e : Expr} : Expression ts i e j → R i i' → (∀ t ∈ ts, T t (f t)) →
    ∃ e' j', Expression (ts.map f) i' e' j' ∧ R j j' ∧ Expr.Alike T R e e'
  -- Both readings give out a number for the same nodes, so the numbers stay in step.
  | .plain h, hi, hts => by
      rcases h.relabel hf hR hi hts with ⟨e', j', hread, hj, halike⟩
      exact ⟨e', j', .plain hread, hj, halike⟩
  | .assign hname hequals h, hi, hts => by
      simp only [List.forall_mem_cons] at hts
      rcases h.relabel hf hR (hR _ _ hi) hts.2.2 with ⟨value', j', hread, hj, halike⟩
      exact ⟨_, _, .assign (hf.of_kind hname) (hf.of_kind hequals) hread, hR _ _ hj,
        .assign hj hts.1 halike⟩
  | .set hobject hdot hname hequals h, hi, hts => by
      simp only [List.forall_mem_append, List.forall_mem_cons] at hts
      rcases hobject.relabel hf hR hi hts.1 with ⟨object', j', hread, hj, halike⟩
      rcases h.relabel hf hR (hR _ _ hj) hts.2.2.2.2 with ⟨value', k', hread', hk, halike'⟩
      rw [List.map_append]
      exact ⟨_, _, .set hread (hf.of_kind hdot) (hf.of_kind hname)
        (hf.of_kind hequals) hread', hR _ _ hk, .set halike hts.2.2.1 halike'⟩

theorem Operation.relabel (hf : Relabels f) (hR : InStep R) {ps : List Precedence}
    {ts : List Token} {i i' j : NodeId} {e : Expr} :
    Operation ps ts i e j → R i i' → (∀ t ∈ ts, T t (f t)) →
    ∃ e' j', Operation ps (ts.map f) i' e' j' ∧ R j j' ∧ Expr.Alike T R e e'
  | .unary h, hi, hts => by
      rcases h.relabel hf hR hi hts with ⟨e', j', hread, hj, halike⟩
      exact ⟨e', j', .unary hread, hj, halike⟩
  | .chain hleft hchain, hi, hts => by
      simp only [List.forall_mem_append] at hts
      rcases hleft.relabel hf hR hi hts.1 with ⟨left', j', hread, hj, halike⟩
      rcases hchain.relabel hf hR halike hj hts.2 with ⟨e', k', hread', hk, halike'⟩
      rw [List.map_append]
      exact ⟨e', k', .chain hread hread', hk, halike'⟩

/-- The left operand may be another one to begin with, as long as it is alike. -/
theorem Chain.relabel (hf : Relabels f) (hR : InStep R) {p : Precedence}
    {tighter : List Precedence} {left left' e : Expr} {ts : List Token} {i i' j : NodeId} :
    Chain p tighter left ts i e j → Expr.Alike T R left left' → R i i' →
    (∀ t ∈ ts, T t (f t)) →
    ∃ e' j', Chain p tighter left' (ts.map f) i' e' j' ∧ R j j' ∧ Expr.Alike T R e e'
  | .done, hleft, hi, _ => ⟨left', _, .done, hi, hleft⟩
  | @Chain.more _ _ _ _ _ _ k _ _ _ _ hop hright hchain, hleft, hi, hts => by
      simp only [List.cons_append, List.forall_mem_cons, List.forall_mem_append] at hts
      rcases hright.relabel hf hR hi hts.2.1 with ⟨right', j', hread, hj, halike⟩
      have hnode := alike_node p k j' hleft hts.1 halike
      rcases hchain.relabel hf hR hnode (hR _ _ hj) hts.2.2 with ⟨e', k', hread', hk, halike'⟩
      rw [List.map_append]
      exact ⟨e', k', .more ((hf.kind _).symm ▸ hop) hread hread', hk, halike'⟩

theorem Unary.relabel (hf : Relabels f) (hR : InStep R) {ts : List Token} {i i' j : NodeId}
    {e : Expr} : Unary ts i e j → R i i' → (∀ t ∈ ts, T t (f t)) →
    ∃ e' j', Unary (ts.map f) i' e' j' ∧ R j j' ∧ Expr.Alike T R e e'
  | .operator hop h, hi, hts => by
      simp only [List.forall_mem_cons] at hts
      rcases h.relabel hf hR hi hts.2 with ⟨right', j', hread, hj, halike⟩
      exact ⟨_, _, .operator ((hf.kind _).symm ▸ hop) hread, hR _ _ hj, .unary hts.1 halike⟩
  | .call h, hi, hts => by
      rcases h.relabel hf hR hi hts with ⟨e', j', hread, hj, halike⟩
      exact ⟨e', j', .call hread, hj, halike⟩

theorem Call.relabel (hf : Relabels f) (hR : InStep R) {ts : List Token} {i i' j : NodeId}
    {e : Expr} : Call ts i e j → R i i' → (∀ t ∈ ts, T t (f t)) →
    ∃ e' j', Call (ts.map f) i' e' j' ∧ R j j' ∧ Expr.Alike T R e e'
  | .mk hprimary hcalls, hi, hts => by
      simp only [List.forall_mem_append] at hts
      rcases hprimary.relabel hf hR hi hts.1 with ⟨callee', j', hread, hj, halike⟩
      rcases hcalls.relabel hf hR halike hj hts.2 with ⟨e', k', hread', hk, halike'⟩
      rw [List.map_append]
      exact ⟨e', k', .mk hread hread', hk, halike'⟩

/-- The callee may be another one to begin with, as long as it is alike. -/
theorem Calls.relabel (hf : Relabels f) (hR : InStep R) {callee callee' e : Expr}
    {ts : List Token} {i i' j : NodeId} :
    Calls callee ts i e j → Expr.Alike T R callee callee' → R i i' → (∀ t ∈ ts, T t (f t)) →
    ∃ e' j', Calls callee' (ts.map f) i' e' j' ∧ R j j' ∧ Expr.Alike T R e e'
  | .done, hcallee, hi, _ => ⟨callee', _, .done, hi, hcallee⟩
  | .call hopen hargs hclose hcalls, hcallee, hi, hts => by
      simp only [List.cons_append, List.forall_mem_cons, List.forall_mem_append] at hts
      rcases hargs.relabel hf hR hi hts.2.1 with ⟨args', j', hread, hj, halike⟩
      rcases hcalls.relabel hf hR (.call hcallee hts.2.2.1 halike) (hR _ _ hj) hts.2.2.2 with
        ⟨e', k', hread', hk, halike'⟩
      rw [List.map_append]
      exact ⟨e', k', .call (hf.of_kind hopen) hread (hf.of_kind hclose) hread', hk, halike'⟩
  | .get hdot hname hcalls, hcallee, hi, hts => by
      simp only [List.forall_mem_cons] at hts
      rcases hcalls.relabel hf hR (.get hcallee hts.2.1) (hR _ _ hi) hts.2.2 with
        ⟨e', j', hread, hj, halike⟩
      exact ⟨e', j', .get (hf.of_kind hdot) (hf.of_kind hname) hread, hj, halike⟩

theorem Arguments.relabel (hf : Relabels f) (hR : InStep R) {ts : List Token} {i i' j : NodeId}
    {es : List Expr} : Arguments ts i es j → R i i' → (∀ t ∈ ts, T t (f t)) →
    ∃ es' j', Arguments (ts.map f) i' es' j' ∧ R j j' ∧ Expr.AllAlike T R es es'
  | .none, hi, _ => ⟨[], _, .none, hi, .nil⟩
  | .some h hmore, hi, hts => by
      simp only [List.forall_mem_append] at hts
      rcases h.relabel hf hR hi hts.1 with ⟨e', j', hread, hj, halike⟩
      rcases hmore.relabel hf hR (.cons halike .nil) hj hts.2 with
        ⟨es', k', hread', hk, halike'⟩
      rw [List.map_append]
      exact ⟨es', k', .some hread hread', hk, halike'⟩

/-- As many arguments stand before on both sides, so the limit is met by both. -/
theorem MoreArguments.relabel (hf : Relabels f) (hR : InStep R) {before before' es : List Expr}
    {ts : List Token} {i i' j : NodeId} :
    MoreArguments before ts i es j → Expr.AllAlike T R before before' → R i i' →
    (∀ t ∈ ts, T t (f t)) →
    ∃ es' j', MoreArguments before' (ts.map f) i' es' j' ∧ R j j' ∧ Expr.AllAlike T R es es'
  | .done, hbefore, hi, _ => ⟨before', _, .done, hi, hbefore⟩
  | .more hcomma hlength h hmore, hbefore, hi, hts => by
      simp only [List.cons_append, List.forall_mem_cons, List.forall_mem_append] at hts
      rcases h.relabel hf hR hi hts.2.1 with ⟨e', j', hread, hj, halike⟩
      rcases hmore.relabel hf hR (allAlike_append hbefore halike) hj hts.2.2 with
        ⟨es', k', hread', hk, halike'⟩
      rw [List.map_append]
      exact ⟨es', k', .more (hf.of_kind hcomma) (length_of_allAlike hbefore ▸ hlength) hread
        hread', hk, halike'⟩

theorem Primary.relabel (hf : Relabels f) (hR : InStep R) {ts : List Token} {i i' j : NodeId}
    {e : Expr} : Primary ts i e j → R i i' → (∀ t ∈ ts, T t (f t)) →
    ∃ e' j', Primary (ts.map f) i' e' j' ∧ R j j' ∧ Expr.Alike T R e e'
  | .falseWord h, hi, _ => ⟨_, _, .falseWord (hf.of_kind h), hR _ _ hi, .literal⟩
  | .trueWord h, hi, _ => ⟨_, _, .trueWord (hf.of_kind h), hR _ _ hi, .literal⟩
  | .nilWord h, hi, _ => ⟨_, _, .nilWord (hf.of_kind h), hR _ _ hi, .literal⟩
  | .number h, hi, _ => ⟨_, _, .number (hf.of_kind h), hR _ _ hi, hf.literal _ ▸ .literal⟩
  | .string h, hi, _ => ⟨_, _, .string (hf.of_kind h), hR _ _ hi, hf.literal _ ▸ .literal⟩
  | .this h, hi, hts =>
      ⟨_, _, .this (hf.of_kind h), hR _ _ hi, .this hi (hts _ List.mem_cons_self)⟩
  | .variable h, hi, hts =>
      ⟨_, _, .variable (hf.of_kind h), hR _ _ hi, .variable hi (hts _ List.mem_cons_self)⟩
  | .super h hdot hmethod, hi, hts => by
      simp only [List.forall_mem_cons] at hts
      exact ⟨_, _, .super (hf.of_kind h) (hf.of_kind hdot) (hf.of_kind hmethod), hR _ _ hi,
        .super hi hts.1 hts.2.2.1⟩
  | .grouping hopen h hclose, hi, hts => by
      simp only [List.cons_append, List.forall_mem_cons, List.forall_mem_append] at hts
      rcases h.relabel hf hR hi hts.2.1 with ⟨inner', j', hread, hj, halike⟩
      rw [List.map_append]
      exact ⟨_, _, .grouping (hf.of_kind hopen) hread (hf.of_kind hclose), hR _ _ hj,
        .grouping halike⟩

end

/-! ## Clauses -/

theorem OptionalExpression.relabel (hf : Relabels f) (hR : InStep R) {ts : List Token}
    {i i' j : NodeId} {o : Option Expr} (h : OptionalExpression ts i o j) (hi : R i i')
    (hts : ∀ t ∈ ts, T t (f t)) :
    ∃ o' j', OptionalExpression (ts.map f) i' o' j' ∧ R j j' ∧
      Option.Rel (Expr.Alike T R) o o' := by
  cases h with
  | none => exact ⟨_, _, .none, hi, .none⟩
  | some h =>
      rcases h.relabel hf hR hi hts with ⟨e', j', hread, hj, halike⟩
      exact ⟨_, _, .some hread, hj, .some halike⟩

theorem Initializer.relabel (hf : Relabels f) (hR : InStep R) {ts : List Token}
    {i i' j : NodeId} {o : Option Expr} (h : Initializer ts i o j) (hi : R i i')
    (hts : ∀ t ∈ ts, T t (f t)) :
    ∃ o' j', Initializer (ts.map f) i' o' j' ∧ R j j' ∧ Option.Rel (Expr.Alike T R) o o' := by
  cases h with
  | none => exact ⟨_, _, .none, hi, .none⟩
  | some hequals h =>
      simp only [List.forall_mem_cons] at hts
      rcases h.relabel hf hR hi hts.2 with ⟨e', j', hread, hj, halike⟩
      exact ⟨_, _, .some (hf.of_kind hequals) hread, hj, .some halike⟩

theorem VarDeclaration.relabel (hf : Relabels f) (hR : InStep R) {ts : List Token}
    {i i' j : NodeId} {s : Stmt} (h : VarDeclaration ts i s j) (hi : R i i')
    (hts : ∀ t ∈ ts, T t (f t)) :
    ∃ s' j', VarDeclaration (ts.map f) i' s' j' ∧ R j j' ∧ Stmt.Alike T R s s' := by
  rcases h with ⟨hname, hvalue, hmark⟩
  simp only [List.cons_append, List.forall_mem_cons, List.forall_mem_append] at hts
  rcases hvalue.relabel hf hR hi hts.2.1 with ⟨value', j', hread, hj, halike⟩
  rw [List.map_append]
  exact ⟨_, _, .mk (hf.of_kind hname) hread (hf.of_kind hmark), hj,
    .varDecl (hf.lexeme _) halike⟩

theorem ExpressionStatement.relabel (hf : Relabels f) (hR : InStep R) {ts : List Token}
    {i i' j : NodeId} {s : Stmt} (h : ExpressionStatement ts i s j) (hi : R i i')
    (hts : ∀ t ∈ ts, T t (f t)) :
    ∃ s' j', ExpressionStatement (ts.map f) i' s' j' ∧ R j j' ∧ Stmt.Alike T R s s' := by
  rcases h with ⟨he, hmark⟩
  simp only [List.forall_mem_append] at hts
  rcases he.relabel hf hR hi hts.1 with ⟨e', j', hread, hj, halike⟩
  rw [List.map_append]
  exact ⟨_, _, .mk hread (hf.of_kind hmark), hj, .expression halike⟩

theorem ForInitializer.relabel (hf : Relabels f) (hR : InStep R) {ts : List Token}
    {i i' j : NodeId} {o : Option Stmt} :
    ForInitializer ts i o j → R i i' → (∀ t ∈ ts, T t (f t)) →
    ∃ o' j', ForInitializer (ts.map f) i' o' j' ∧ R j j' ∧ Option.Rel (Stmt.Alike T R) o o'
  | .none hmark, hi, _ => ⟨_, _, .none (hf.of_kind hmark), hi, .none⟩
  | .variable hkeyword h, hi, hts => by
      simp only [List.forall_mem_cons] at hts
      rcases h.relabel hf hR hi hts.2 with ⟨s', j', hread, hj, halike⟩
      exact ⟨_, _, .variable (hf.of_kind hkeyword) hread, hj, .some halike⟩
  | .expression h, hi, hts => by
      rcases h.relabel hf hR hi hts with ⟨s', j', hread, hj, halike⟩
      exact ⟨_, _, .expression hread, hj, .some halike⟩

theorem MoreParameters.relabel (hf : Relabels f) {before ts params : List Token}
    (h : MoreParameters before ts params) :
    MoreParameters (before.map f) (ts.map f) (params.map f) := by
  induction h with
  | done => exact .done
  | more hcomma hlength hparam _ ih =>
      rw [List.map_append] at ih
      exact .more (hf.of_kind hcomma) (by simpa using hlength) (hf.of_kind hparam) ih

theorem Parameters.relabel (hf : Relabels f) {ts params : List Token} (h : Parameters ts params) :
    Parameters (ts.map f) (params.map f) := by
  cases h with
  | none => exact .none
  | some hfirst hmore => exact .some (hf.of_kind hfirst) (hmore.relabel hf)

/-- Two superclasses that are alike make classes with methods that are alike into such classes. -/
theorem Superclass.relabel (hf : Relabels f) (hR : InStep R) {ts : List Token} {i i' j : NodeId}
    {o : Option Reference} (h : Superclass ts i o j) (hi : R i i') (hts : ∀ t ∈ ts, T t (f t)) :
    ∃ o' j', Superclass (ts.map f) i' o' j' ∧ R j j' ∧
      ∀ {name name' : Token} {methods methods' : List FunctionDecl}, T name name' →
        FunctionDecl.AllAlike T R methods methods' →
        Stmt.Alike T R (.classDecl name o methods) (.classDecl name' o' methods') := by
  cases h with
  | none => exact ⟨_, _, .none, hi, .classDecl⟩
  | some hless hname =>
      simp only [List.forall_mem_cons] at hts
      exact ⟨_, _, .some (hf.of_kind hless) (hf.of_kind hname), hR _ _ hi,
        fun hnameT halike => .subclass hnameT hi hts.2.1 halike⟩

theorem alike_withIncrement {body body' : Stmt} {increment increment' : Option Expr}
    (hbody : Stmt.Alike T R body body')
    (hincrement : Option.Rel (Expr.Alike T R) increment increment') :
    Stmt.Alike T R (withIncrement body increment) (withIncrement body' increment') := by
  cases hincrement with
  | none => exact hbody
  | some he => exact .block (.cons hbody (.cons (.expression he) .nil))

theorem alike_withInitializer {loop loop' : Stmt} {initializer initializer' : Option Stmt}
    (hloop : Stmt.Alike T R loop loop')
    (hinit : Option.Rel (Stmt.Alike T R) initializer initializer') :
    Stmt.Alike T R (withInitializer loop initializer) (withInitializer loop' initializer') := by
  cases hinit with
  | none => exact hloop
  | some hs => exact .block (.cons hs (.cons hloop .nil))

/-! ## Statements -/

mutual

/-- Declarations that are relabelled are read as declarations that are alike. -/
theorem Declaration.relabel (hf : Relabels f) (hR : InStep R) {ts : List Token} {i i' j : NodeId}
    {s : Stmt} : Declaration ts i s j → R i i' → (∀ t ∈ ts, T t (f t)) →
    ∃ s' j', Declaration (ts.map f) i' s' j' ∧ R j j' ∧ Stmt.Alike T R s s'
  | .classDecl hkeyword hname hsuper hopen hmethods hclose, hi, hts => by
      simp only [List.cons_append, List.forall_mem_cons, List.forall_mem_append] at hts
      rcases hts with ⟨-, hnameT, ⟨hsuperT, -, hmethodsT⟩, -⟩
      rcases hsuper.relabel hf hR hi hsuperT with ⟨superclass', j', hread, hj, hclass⟩
      rcases hmethods.relabel hf hR hj hmethodsT with ⟨methods', k', hread', hk, halike⟩
      rw [List.map_append, List.map_append]
      exact ⟨_, _, .classDecl (hf.of_kind hkeyword) (hf.of_kind hname) hread (hf.of_kind hopen)
        hread' (hf.of_kind hclose), hk, hclass hnameT halike⟩
  | .function hkeyword h, hi, hts => by
      simp only [List.forall_mem_cons] at hts
      rcases h.relabel hf hR hi hts.2 with ⟨decl', j', hread, hj, halike⟩
      exact ⟨_, _, .function (hf.of_kind hkeyword) hread, hj, .function halike⟩
  | .variable hkeyword h, hi, hts => by
      simp only [List.forall_mem_cons] at hts
      rcases h.relabel hf hR hi hts.2 with ⟨s', j', hread, hj, halike⟩
      exact ⟨s', j', .variable (hf.of_kind hkeyword) hread, hj, halike⟩
  | .statement h, hi, hts => by
      rcases h.relabel hf hR hi hts with ⟨s', j', hread, hj, halike⟩
      exact ⟨s', j', .statement hread, hj, halike⟩

theorem Methods.relabel (hf : Relabels f) (hR : InStep R) {ts : List Token} {i i' j : NodeId}
    {decls : List FunctionDecl} : Methods ts i decls j → R i i' → (∀ t ∈ ts, T t (f t)) →
    ∃ decls' j', Methods (ts.map f) i' decls' j' ∧ R j j' ∧
      FunctionDecl.AllAlike T R decls decls'
  | .nil, hi, _ => ⟨[], _, .nil, hi, .nil⟩
  | .cons h hmore, hi, hts => by
      simp only [List.forall_mem_append] at hts
      rcases h.relabel hf hR hi hts.1 with ⟨decl', j', hread, hj, halike⟩
      rcases hmore.relabel hf hR hj hts.2 with ⟨decls', k', hread', hk, halike'⟩
      rw [List.map_append]
      exact ⟨_, _, .cons hread hread', hk, .cons halike halike'⟩

theorem Function.relabel (hf : Relabels f) (hR : InStep R) {ts : List Token} {i i' j : NodeId}
    {decl : FunctionDecl} : Function ts i decl j → R i i' → (∀ t ∈ ts, T t (f t)) →
    ∃ decl' j', Function (ts.map f) i' decl' j' ∧ R j j' ∧ FunctionDecl.Alike T R decl decl'
  | .mk hname hopen hparams hclose hopenBody hbody hcloseBody, hi, hts => by
      simp only [List.cons_append, List.forall_mem_cons, List.forall_mem_append] at hts
      rcases hts with ⟨-, -, ⟨-, -, -, hbodyT⟩, -⟩
      rcases hbody.relabel hf hR hi hbodyT with ⟨body', j', hread, hj, halike⟩
      rw [List.map_append, List.map_append]
      refine ⟨_, _, .mk (hf.of_kind hname) (hf.of_kind hopen) (hparams.relabel hf)
        (hf.of_kind hclose) (hf.of_kind hopenBody) hread (hf.of_kind hcloseBody), hj,
        .mk (hf.lexeme _) ?_ halike⟩
      rw [List.map_map]
      exact List.map_congr_left fun t _ => hf.lexeme t

theorem Declarations.relabel (hf : Relabels f) (hR : InStep R) {ts : List Token}
    {i i' j : NodeId} {ss : List Stmt} : Declarations ts i ss j → R i i' →
    (∀ t ∈ ts, T t (f t)) →
    ∃ ss' j', Declarations (ts.map f) i' ss' j' ∧ R j j' ∧ Stmt.AllAlike T R ss ss'
  | .nil, hi, _ => ⟨[], _, .nil, hi, .nil⟩
  | .cons h hmore, hi, hts => by
      simp only [List.forall_mem_append] at hts
      rcases h.relabel hf hR hi hts.1 with ⟨s', j', hread, hj, halike⟩
      rcases hmore.relabel hf hR hj hts.2 with ⟨ss', k', hread', hk, halike'⟩
      rw [List.map_append]
      exact ⟨_, _, .cons hread hread', hk, .cons halike halike'⟩

/-- Whether a statement is open is a matter of kinds, which stay. -/
theorem Statement.relabel (hf : Relabels f) (hR : InStep R) {isOpen : Bool} {ts : List Token}
    {i i' j : NodeId} {s : Stmt} : Statement isOpen ts i s j → R i i' → (∀ t ∈ ts, T t (f t)) →
    ∃ s' j', Statement isOpen (ts.map f) i' s' j' ∧ R j j' ∧ Stmt.Alike T R s s'
  | .expression h, hi, hts => by
      rcases h.relabel hf hR hi hts with ⟨s', j', hread, hj, halike⟩
      exact ⟨s', j', .expression hread, hj, halike⟩
  | .print hkeyword h hmark, hi, hts => by
      simp only [List.cons_append, List.forall_mem_cons, List.forall_mem_append] at hts
      rcases h.relabel hf hR hi hts.2.1 with ⟨e', j', hread, hj, halike⟩
      rw [List.map_append]
      exact ⟨_, _, .print (hf.of_kind hkeyword) hread (hf.of_kind hmark), hj, .print halike⟩
  | .returnValue hkeyword h hmark, hi, hts => by
      simp only [List.cons_append, List.forall_mem_cons, List.forall_mem_append] at hts
      rcases h.relabel hf hR hi hts.2.1 with ⟨value', j', hread, hj, halike⟩
      rw [List.map_append]
      exact ⟨_, _, .returnValue (hf.of_kind hkeyword) hread (hf.of_kind hmark), hj,
        .returnValue hts.1 halike⟩
  | .block hopen h hclose, hi, hts => by
      simp only [List.cons_append, List.forall_mem_cons, List.forall_mem_append] at hts
      rcases h.relabel hf hR hi hts.2.1 with ⟨body', j', hread, hj, halike⟩
      rw [List.map_append]
      exact ⟨_, _, .block (hf.of_kind hopen) hread (hf.of_kind hclose), hj, .block halike⟩
  | .whileLoop hkeyword hopen h hclose hbody, hi, hts => by
      simp only [List.cons_append, List.forall_mem_cons, List.forall_mem_append] at hts
      rcases h.relabel hf hR hi hts.2.2.1 with ⟨condition', j', hread, hj, halike⟩
      rcases hbody.relabel hf hR hj hts.2.2.2.2 with ⟨body', k', hread', hk, halike'⟩
      rw [List.map_append]
      exact ⟨_, _, .whileLoop (hf.of_kind hkeyword) (hf.of_kind hopen) hread (hf.of_kind hclose)
        hread', hk, .whileLoop halike halike'⟩
  | .ifOnly hkeyword hopen h hclose hthen, hi, hts => by
      simp only [List.cons_append, List.forall_mem_cons, List.forall_mem_append] at hts
      rcases h.relabel hf hR hi hts.2.2.1 with ⟨condition', j', hread, hj, halike⟩
      rcases hthen.relabel hf hR hj hts.2.2.2.2 with ⟨then', k', hread', hk, halike'⟩
      rw [List.map_append]
      exact ⟨_, _, .ifOnly (hf.of_kind hkeyword) (hf.of_kind hopen) hread (hf.of_kind hclose)
        hread', hk, .ifOnly halike halike'⟩
  | .ifElse hkeyword hopen h hclose hthen hword helse, hi, hts => by
      simp only [List.cons_append, List.forall_mem_cons, List.forall_mem_append] at hts
      rcases hts with ⟨-, -, ⟨hts, -, hus⟩, -, hvs⟩
      rcases h.relabel hf hR hi hts with ⟨condition', j', hread, hj, halike⟩
      rcases hthen.relabel hf hR hj hus with ⟨then', k', hread', hk, halike'⟩
      rcases helse.relabel hf hR hk hvs with ⟨else', l', hread'', hl, halike''⟩
      rw [List.map_append, List.map_append]
      exact ⟨_, _, .ifElse (hf.of_kind hkeyword) (hf.of_kind hopen) hread (hf.of_kind hclose)
        hread' (hf.of_kind hword) hread'', hl, .ifElse halike halike' halike''⟩
  -- A loop is read clause by clause, in the order of the text, and put together as statements.
  | .forLoop hkeyword hopen hinit h hmark hincrement hclose hbody, hi, hts => by
      simp only [List.cons_append, List.forall_mem_cons, List.forall_mem_append] at hts
      rcases hts with ⟨-, -, ⟨⟨hts, hus⟩, -, hvs⟩, -, hws⟩
      rcases hinit.relabel hf hR hi hts with ⟨init', j', hinit', hj, halike⟩
      rcases h.relabel hf hR hj hus with ⟨condition', k', hread, hk, halike'⟩
      rcases hincrement.relabel hf hR hk hvs with ⟨increment', l', hincrement', hl, halike''⟩
      rcases hbody.relabel hf hR hl hws with ⟨body', m', hbody', hm, halike'''⟩
      rw [List.map_append, List.map_append, List.map_append]
      exact ⟨_, _, .forLoop (hf.of_kind hkeyword) (hf.of_kind hopen) hinit' hread
        (hf.of_kind hmark) hincrement' (hf.of_kind hclose) hbody', hm,
        alike_withInitializer (.whileLoop halike' (alike_withIncrement halike''' halike'')) halike⟩
  -- The condition that is left out is a literal, with a number of its own on both sides.
  | .forEver hkeyword hopen hinit hmark hincrement hclose hbody, hi, hts => by
      simp only [List.cons_append, List.forall_mem_cons, List.forall_mem_append] at hts
      rcases hts with ⟨-, -, ⟨hts, -, hvs⟩, -, hws⟩
      rcases hinit.relabel hf hR hi hts with ⟨init', j', hinit', hj, halike⟩
      rcases hincrement.relabel hf hR hj hvs with ⟨increment', l', hincrement', hl, halike'⟩
      rcases hbody.relabel hf hR hl hws with ⟨body', m', hbody', hm, halike''⟩
      rw [List.map_append, List.map_append]
      exact ⟨_, _, .forEver (hf.of_kind hkeyword) (hf.of_kind hopen) hinit' (hf.of_kind hmark)
        hincrement' (hf.of_kind hclose) hbody', hR _ _ hm,
        alike_withInitializer (.whileLoop .literal (alike_withIncrement halike'' halike')) halike⟩

end

/-! ## Readings in sequence -/

/-- Declarations that follow each other are read together, their numbers going on. -/
theorem Declarations.append {ts us : List Token} {i j k : NodeId} {ss ss' : List Stmt}
    (h : Declarations ts i ss j) (h' : Declarations us j ss' k) :
    Declarations (ts ++ us) i (ss ++ ss') k := by
  induction ss generalizing ts i with
  | nil =>
      cases h
      exact h'
  | cons s ss ih =>
      cases h with
      | cons hfirst hrest =>
          rw [List.append_assoc]
          exact .cons hfirst (ih hrest)

end Reading

end LoxLang
