import LoxLang.Proofs.Grammar.Alike
import LoxLang.Proofs.Scope.Resolution

/-!
# Programs that are continued

Resolving takes the same course on two programs that are alike, and on a program that is resolved in
two parts: the second part is resolved alone, with the globals that the first one declares among
those that it knows.

* `State.Continues`: two walks have come to the same place, but one of them has resolved more
  before.
* `Parallel`: two walks over trees that are alike stay at the same place.
* `globals_stmts`: behind a program, the names that it declares at the top level are global, and all
  initializers are behind.
* `resolve_alike`: programs that are alike have faults or none together, and the same addresses for
  numbers that correspond.
* `resolve_append`: the two parts together have no fault if neither has, and the same addresses. A
  read that the first part puts off is settled by then, and stays so.
-/

namespace LoxLang

namespace Resolver

/-! ## Two walks side by side -/

/-- Each number is related to one other number at most. -/
def Paired (R : NodeId → NodeId → Prop) : Prop :=
  ∀ {a a' b b' : NodeId}, R a a' → R b b' → (a = b ↔ a' = b')

/-- The second walk is where the first one is, on a tree with other numbers. Before that it has
entered `n` addresses, and has put off reads of the names `held`, which are global by now. -/
structure State.Continues (R : NodeId → NodeId → Prop) (held : List String) (n : Nat)
    (s s' : State) : Prop where
  links : ∀ id id' : NodeId, R id id' → s'.links[id']? = s.links[id]?
  size : s'.links.size = s.links.size + n
  errors : s'.errors.length = s.errors.length
  scopes : s'.scopes = s.scopes
  globals : ∀ x, s'.globals.get? x = s.globals.get? x
  pending : s'.pending.map Token.lexeme = held ++ s.pending.map Token.lexeme
  settled : ∀ x ∈ held, s'.globals.get? x = some true

def Parallel (R : NodeId → NodeId → Prop) (held : List String) (n : Nat)
    (walk walk' : Resolver Unit) : Prop :=
  ∀ s s', State.Continues R held n s s' → State.Continues R held n (walk s).2 (walk' s').2

variable {R : NodeId → NodeId → Prop} {held : List String} {n : Nat}

namespace Parallel

/-- Parallel walks, one after the other, are parallel. -/
theorem bind {walk walk' : Resolver Unit} {rest rest' : Unit → Resolver Unit}
    (h : Parallel R held n walk walk') (hrest : Parallel R held n (rest ()) (rest' ())) :
    Parallel R held n (walk >>= rest) (walk' >>= rest') :=
  fun s s' hs => hrest _ _ (h s s' hs)

theorem pure : Parallel R held n (Pure.pure ()) (Pure.pure ()) := fun _ _ h => h

/-- Walks that look at their states first. -/
theorem get_bind {rest rest' : State → Resolver Unit}
    (h : ∀ s s', State.Continues R held n s s' →
      State.Continues R held n (rest s s).2 (rest' s' s').2) :
    Parallel R held n (get >>= rest) (get >>= rest') := h

theorem report (fault : ScopeFault) (token token' : Token) :
    Parallel R held n (report fault token) (report fault token') := by
  intro s s' h
  have hlength : (s'.errors ++ [StaticError.atToken (.resolve fault) token']).length =
      (s.errors ++ [StaticError.atToken (.resolve fault) token]).length := by
    simp [h.errors]
  exact ⟨h.links, h.size, hlength, h.scopes, h.globals, h.pending, h.settled⟩

/-- Inside a scope that was opened on both sides the walks go on in parallel. -/
theorem inScope (scope : Scope) {walk walk' : Resolver Unit} (h : Parallel R held n walk walk') :
    Parallel R held n (inScope scope walk) (inScope scope walk') := by
  intro s s' hs
  have hpush : State.Continues R held n { s with scopes := scope :: s.scopes }
      { s' with scopes := scope :: s'.scopes } :=
    ⟨hs.links, hs.size, hs.errors, congrArg (scope :: ·) hs.scopes, hs.globals, hs.pending,
      hs.settled⟩
  have hwalk := h _ _ hpush
  exact ⟨hwalk.links, hwalk.size, hwalk.errors, congrArg List.tail hwalk.scopes, hwalk.globals,
    hwalk.pending, hwalk.settled⟩

/-- Entries are made for numbers that are paired, so each side finds its own. -/
theorem record (hR : Paired R) {id id' : NodeId} (hid : R id id') (distance : Option Nat) :
    Parallel R held n (record id distance) (record id' distance) := by
  cases distance with
  | none => exact pure
  | some d =>
      intro s s' h
      have hcontains : s'.links.contains id' = s.links.contains id := by
        rw [Std.TreeMap.contains_eq_isSome_getElem?, Std.TreeMap.contains_eq_isSome_getElem?,
          h.links id id' hid]
      -- an entry for a pair of numbers changes neither of any other pair
      have hlinks : ∀ k k' : NodeId, R k k' →
          (s'.links.insert id' d)[k']? = (s.links.insert id d)[k]? := by
        intro k k' hk
        rw [Std.TreeMap.getElem?_insert, Std.TreeMap.getElem?_insert]
        simp only [Nat.compare_eq_eq, ← hR hid hk, h.links k k' hk]
      have hsize : (s'.links.insert id' d).size = (s.links.insert id d).size + n := by
        rw [Std.TreeMap.size_insert, Std.TreeMap.size_insert, h.size, hcontains]
        split <;> omega
      exact ⟨hlinks, hsize, h.errors, h.scopes, h.globals, h.pending, h.settled⟩

theorem link (hR : Paired R) {id id' : NodeId} (hid : R id id') (name : String) :
    Parallel R held n (link id name) (link id' name) := by
  refine get_bind ?_
  intro s s' h
  rw [h.scopes]
  exact record hR hid _ s s' h

/-! ### Declarations -/

/-- Scopes hold names, not tokens, so what is declared on one side is on the other. -/
theorem declare {name name' : Token} (hname : name'.lexeme = name.lexeme) :
    Parallel R held n (declare name) (declare name') := by
  intro s s' h
  cases hscopes : s.scopes with
  -- Where no scope is open, the name is declared among the globals of both.
  | nil =>
      rw [declare_global name hscopes, declare_global name' (h.scopes.trans hscopes), hname,
        Bindings.contains, Bindings.contains, h.globals]
      split
      · exact h
      · rename_i hnone
        have hglobals : ∀ x, (s'.globals.insert name.lexeme false).get? x =
            (s.globals.insert name.lexeme false).get? x := by
          intro x
          rw [Bindings.get?_insert, Bindings.get?_insert, h.globals]
        refine ⟨h.links, h.size, h.errors, h.scopes, hglobals, h.pending, ?_⟩
        -- a global that is settled is not the new one, or it would have been found
        intro x hx
        have hne : name.lexeme ≠ x := by
          rintro rfl
          rw [← h.globals, h.settled _ hx] at hnone
          exact hnone rfl
        rw [Bindings.get?_insert_of_ne _ _ hne]
        exact h.settled x hx
  | cons scope outer =>
      rw [declare_local name hscopes, declare_local name' (h.scopes.trans hscopes), hname]
      refine ⟨h.links, h.size, ?_, rfl, h.globals, h.pending, h.settled⟩
      dsimp only
      split
      · simp [h.errors]
      · exact h.errors

/-- A name is marked as ready on both sides, whichever line it stands on. -/
theorem define {name name' : Token} (hname : name'.lexeme = name.lexeme) :
    Parallel R held n (define name) (define name') := by
  intro s s' h
  cases hscopes : s.scopes with
  | nil =>
      rw [define_global name hscopes, define_global name' (h.scopes.trans hscopes), hname]
      refine ⟨h.links, h.size, h.errors, h.scopes, ?_, h.pending, ?_⟩
      · intro x
        rw [Bindings.get?_insert, Bindings.get?_insert, h.globals]
      · intro x hx
        rw [Bindings.get?_insert, h.settled x hx]
        split <;> rfl
  | cons scope outer =>
      rw [define_local name hscopes, define_local name' (h.scopes.trans hscopes), hname]
      exact ⟨h.links, h.size, h.errors, rfl, h.globals, h.pending, h.settled⟩

theorem introduce {name name' : Token} (hname : name'.lexeme = name.lexeme) :
    Parallel R held n (introduce name) (introduce name') :=
  (declare hname).bind (define hname)

/-- Parameters of the same names are introduced one after the other. -/
theorem parameters : ∀ {params params' : List Token},
    params'.map Token.lexeme = params.map Token.lexeme →
    Parallel R held n (parameters params) (parameters params')
  | [], [], _ => pure
  | [], _ :: _, h => by cases h
  | _ :: _, [], h => by cases h
  | param :: params, param' :: params', h => by
      rcases List.cons.inj h with ⟨hparam, hparams⟩
      exact (introduce hparam).bind (parameters hparams)

/-! ### Uses of names -/

/-- A read in its own initializer is put off on both sides, or reported on both, or bound
outside. -/
theorem linkShadowed (hR : Paired R) (ctx : Context) {id id' : NodeId} (hid : R id id')
    {name name' : Token} (hname : name'.lexeme = name.lexeme) (outer : List Scope) :
    Parallel R held n (linkShadowed ctx ⟨id, name⟩ outer)
      (linkShadowed ctx ⟨id', name'⟩ outer) := by
  unfold Resolver.linkShadowed
  dsimp only
  rw [hname]
  -- bound further out, global and ready, reported at once, or put off
  split
  · exact record hR hid _
  · refine get_bind ?_
    intro s s' h
    rw [h.globals]
    split
    · exact h
    · split
      · exact report _ _ _ s s' h
      · refine ⟨h.links, h.size, h.errors, h.scopes, h.globals, ?_, h.settled⟩
        change (s'.pending ++ [name']).map Token.lexeme =
          held ++ (s.pending ++ [name]).map Token.lexeme
        rw [List.map_append, List.map_append, h.pending, List.append_assoc, List.map_cons, hname]
        rfl

/-- What a name stands for depends on the scopes, which are the same. -/
theorem read (hR : Paired R) (ctx : Context) {id id' : NodeId} (hid : R id id')
    {name name' : Token} (hname : name'.lexeme = name.lexeme) :
    Parallel R held n (read ctx ⟨id, name⟩) (read ctx ⟨id', name'⟩) := by
  refine get_bind ?_
  intro s s' h
  rw [h.scopes]
  -- at the top level, in its own initializer, or bound to the nearest scope
  cases s.scopes with
  | nil =>
      dsimp only
      rw [hname, h.globals]
      split
      · exact report _ _ _ s s' h
      · exact h
  | cons scope outer =>
      dsimp only
      rw [hname]
      split
      · exact linkShadowed hR ctx hid hname outer s s' h
      · exact link hR hid _ s s' h

theorem useThis (hR : Paired R) (ctx : Context) {id id' : NodeId} (hid : R id id')
    (keyword keyword' : Token) :
    Parallel R held n (useThis ctx id keyword) (useThis ctx id' keyword') := by
  unfold Resolver.useThis
  split
  · exact report _ _ _
  · exact link hR hid _

theorem useSuper (hR : Paired R) (ctx : Context) {id id' : NodeId} (hid : R id id')
    (keyword keyword' : Token) :
    Parallel R held n (useSuper ctx id keyword) (useSuper ctx id' keyword') := by
  refine bind ?_ (link hR hid _)
  unfold checkSuper
  split
  · exact report _ _ _
  · exact pure

/-- Whether a `return` is at fault depends on its surroundings and on there being a value. -/
theorem checkReturn (ctx : Context) (keyword keyword' : Token) {value value' : Option Expr}
    (hvalue : value'.isSome = value.isSome) :
    Parallel R held n (checkReturn ctx keyword value) (checkReturn ctx keyword' value') := by
  unfold Resolver.checkReturn
  rw [hvalue]
  split
  · exact report _ _ _
  · split
    · exact report _ _ _
    · exact pure

theorem checkInheritance {name name' parent parent' : Token} (id id' : NodeId)
    (hname : name'.lexeme = name.lexeme) (hparent : parent'.lexeme = parent.lexeme) :
    Parallel R held n (checkInheritance name ⟨id, parent⟩)
      (checkInheritance name' ⟨id', parent'⟩) := by
  unfold Resolver.checkInheritance
  dsimp only
  rw [hname, hparent]
  split
  · exact report _ _ _
  · exact pure

end Parallel

/-! ### Trees that are alike -/

section Trees

variable {T : Token → Token → Prop}

mutual

/-- By induction on the evidence that two expressions are alike. -/
theorem parallel_expr (hT : ∀ t t', T t t' → t.SameWord t') (hR : Paired R) (ctx : Context)
    {e e' : Expr} :
    Expr.Alike T R e e' → Parallel R held n (expr ctx e) (expr ctx e')
  | .assign hid hname hvalue => by
      refine (parallel_expr hT hR ctx hvalue).bind ?_
      rw [(hT _ _ hname).lexeme]
      exact .link hR hid _
  | .binary hleft _ hright => (parallel_expr hT hR ctx hleft).bind (parallel_expr hT hR ctx hright)
  | .call hcallee _ hargs => (parallel_expr hT hR ctx hcallee).bind (parallel_exprs hT hR ctx hargs)
  | .get hobject _ => by
      have hwalk := parallel_expr hT hR ctx hobject
      exact hwalk
  | .grouping hinner => by
      have hwalk := parallel_expr hT hR ctx hinner
      exact hwalk
  | .literal => .pure
  | .logical hleft _ hright => (parallel_expr hT hR ctx hleft).bind (parallel_expr hT hR ctx hright)
  | .set hobject _ hvalue => (parallel_expr hT hR ctx hvalue).bind (parallel_expr hT hR ctx hobject)
  | .super hid _ _ => .useSuper hR ctx hid _ _
  | .this hid _ => .useThis hR ctx hid _ _
  | .unary _ hright => by
      have hwalk := parallel_expr hT hR ctx hright
      exact hwalk
  | .variable hid hname => .read hR ctx hid (hT _ _ hname).lexeme

theorem parallel_exprs (hT : ∀ t t', T t t' → t.SameWord t') (hR : Paired R) (ctx : Context)
    {es es' : List Expr} :
    Expr.AllAlike T R es es' → Parallel R held n (exprs ctx es) (exprs ctx es')
  | .nil => .pure
  | .cons h hs => (parallel_expr hT hR ctx h).bind (parallel_exprs hT hR ctx hs)

end

theorem parallel_expr? (hT : ∀ t t', T t t' → t.SameWord t') (hR : Paired R) (ctx : Context)
    {e e' : Option Expr} (h : Option.Rel (Expr.Alike T R) e e') :
    Parallel R held n (expr? ctx e) (expr? ctx e') := by
  cases h with
  | none => exact .pure
  | some h => exact parallel_expr hT hR ctx h

mutual

/-- By induction on the evidence that two statements are alike: their walks open the same scopes in
the same order. -/
theorem parallel_stmt (hT : ∀ t t', T t t' → t.SameWord t') (hR : Paired R) (ctx : Context)
    {st st' : Stmt} :
    Stmt.Alike T R st st' → Parallel R held n (stmt ctx st) (stmt ctx st')
  | .block hbody => by
      apply Parallel.inScope
      exact parallel_stmts hT hR ctx hbody
  | .classDecl hname hmethods => by
      have hword := (hT _ _ hname).lexeme
      apply (Parallel.introduce hword).bind
      apply Parallel.inScope
      exact parallel_methods hT hR _ hmethods
  | .subclass hname hid hparent hmethods => by
      have hword := (hT _ _ hname).lexeme
      have hword' := (hT _ _ hparent).lexeme
      apply (Parallel.introduce hword).bind
      apply (Parallel.checkInheritance _ _ hword hword').bind
      apply (Parallel.read hR ctx hid hword').bind
      apply Parallel.inScope
      apply Parallel.inScope
      exact parallel_methods hT hR _ hmethods
  | .expression he => parallel_expr hT hR ctx he
  | .print he => parallel_expr hT hR ctx he
  | .function (.mk hname hparams hbody) => by
      apply (Parallel.introduce hname).bind
      exact parallel_function hT hR _ (.mk hname hparams hbody)
  | .ifOnly hcondition hthen => by
      apply (parallel_expr hT hR ctx hcondition).bind
      exact parallel_stmt hT hR ctx hthen
  | .ifElse hcondition hthen helse => by
      apply (parallel_expr hT hR ctx hcondition).bind
      apply (parallel_stmt hT hR ctx hthen).bind
      exact parallel_stmt hT hR ctx helse
  -- Only whether there is a value matters to what a `return` is checked for.
  | .returnValue _ hvalue => by
      refine (Parallel.checkReturn ctx _ _ ?_).bind (parallel_expr? hT hR ctx hvalue)
      cases hvalue <;> rfl
  | .varDecl hname hvalue => by
      apply (Parallel.declare hname).bind
      apply (parallel_expr? hT hR ctx hvalue).bind
      exact .define hname
  | .whileLoop hcondition hbody => by
      apply (parallel_expr hT hR ctx hcondition).bind
      exact parallel_stmt hT hR ctx hbody

theorem parallel_stmts (hT : ∀ t t', T t t' → t.SameWord t') (hR : Paired R) (ctx : Context)
    {ss ss' : List Stmt} :
    Stmt.AllAlike T R ss ss' → Parallel R held n (stmts ctx ss) (stmts ctx ss')
  | .nil => .pure
  | .cons h hs => (parallel_stmt hT hR ctx h).bind (parallel_stmts hT hR ctx hs)

theorem parallel_function (hT : ∀ t t', T t t' → t.SameWord t') (hR : Paired R) (ctx : Context)
    {decl decl' : FunctionDecl} :
    FunctionDecl.Alike T R decl decl' → Parallel R held n (function ctx decl) (function ctx decl')
  | .mk _ hparams hbody => by
      apply Parallel.inScope
      apply (Parallel.parameters hparams).bind
      exact parallel_stmts hT hR ctx hbody

theorem parallel_methods (hT : ∀ t t', T t t' → t.SameWord t') (hR : Paired R) (ctx : Context)
    {decls decls' : List FunctionDecl} :
    FunctionDecl.AllAlike T R decls decls' →
    Parallel R held n (methods ctx decls) (methods ctx decls')
  | .nil => .pure
  | .cons (.mk hname hparams hbody) hs => by
      refine Parallel.bind ?_ (parallel_methods hT hR ctx hs)
      unfold methodKind
      dsimp only
      rw [hname]
      exact parallel_function hT hR _ (.mk hname hparams hbody)

end

end Trees

/-! ## The globals of a program -/

/-- A walk that leaves every scope that it enters, and no other one. -/
structure Contained (walk : Resolver Unit) : Prop where
  depth : ∀ s, (walk s).2.scopes.length = s.scopes.length
  globals : ∀ s, s.scopes ≠ [] → (walk s).2.globals = s.globals

namespace Contained

/-- Walks that keep to the globals they declare do so together. -/
theorem bind {walk : Resolver Unit} {rest : Unit → Resolver Unit} (h : Contained walk)
    (hrest : Contained (rest ())) : Contained (walk >>= rest) where
  depth s := (hrest.depth (walk s).2).trans (h.depth s)
  globals s hs := by
    have hinner : (walk s).2.scopes ≠ [] := by
      rw [← List.length_pos_iff, h.depth, List.length_pos_iff]
      exact hs
    exact (hrest.globals (walk s).2 hinner).trans (h.globals s hs)

theorem of_mild {walk : Resolver Unit} (h : Mild walk) : Contained walk where
  depth s := congrArg List.length (h.scopes s)
  globals s _ := h.globals s

theorem globals_inScope {walk : Resolver Unit} (h : Contained walk) (scope : Scope) (s : State) :
    (inScope scope walk s).2.globals = s.globals :=
  h.globals { s with scopes := scope :: s.scopes } (List.cons_ne_nil _ _)

/-- Inside a scope nothing is declared among the globals. -/
theorem inScope {walk : Resolver Unit} (h : Contained walk) (scope : Scope) :
    Contained (inScope scope walk) where
  depth s := by
    have hwalk := h.depth { s with scopes := scope :: s.scopes }
    change (walk { s with scopes := scope :: s.scopes }).2.scopes.tail.length = _
    rw [List.length_tail, hwalk, List.length_cons, Nat.add_sub_cancel]
  globals s _ := h.globals_inScope scope s

/-- A global is declared where no scope is open, and nowhere else. -/
theorem declare (name : Token) : Contained (declare name) where
  depth s := by
    cases hscopes : s.scopes with
    | nil =>
        rw [declare_global name hscopes]
        split <;> exact congrArg List.length hscopes
    | cons scope outer =>
        rw [declare_local name hscopes]
        rfl
  globals s hs := by
    cases hscopes : s.scopes with
    | nil => exact absurd hscopes hs
    | cons scope outer => rw [declare_local name hscopes]

theorem define (name : Token) : Contained (define name) where
  depth s := by
    cases hscopes : s.scopes with
    | nil =>
        rw [define_global name hscopes]
        exact congrArg List.length hscopes
    | cons scope outer =>
        rw [define_local name hscopes]
        rfl
  globals s hs := by
    cases hscopes : s.scopes with
    | nil => exact absurd hscopes hs
    | cons scope outer => rw [define_local name hscopes]

end Contained

theorem contained : Compositional Contained where
  mild := .of_mild
  bind := .bind
  inScope scope {_} h := h.inScope scope
  varDecl ctx name initializer := by
    have hvalue := Contained.of_mild (Mild.expr? ctx initializer)
    exact (Contained.declare name).bind (hvalue.bind (Contained.define name))

/-- What a name means among the globals once others have been declared. -/
def declaredOr (names : List String) (globals : Scope) (x : String) : Option Bool :=
  if x ∈ names then some true else globals.get? x

theorem declaredOr_none (globals : Scope) (x : String) :
    declaredOr (none : Option String).toList globals x = globals.get? x := rfl

/-- At the top level a name that is defined is a global, and ready. -/
theorem get?_define {s : State} (name : Token) (h : s.scopes = []) (x : String) :
    (define name s).2.globals.get? x = declaredOr [name.lexeme] s.globals x := by
  rw [define_global name h, Bindings.get?_insert, declaredOr]
  simp [eq_comm]

/-- The initializer of a global comes between the two steps of its declaration, and changes no
scope. -/
theorem get?_declare_define {s : State} (name : Token) (h : s.scopes = []) {walk : Resolver Unit}
    (hwalk : Mild walk) (x : String) :
    ((declare name >>= fun _ => walk >>= fun _ => define name) s).2.globals.get? x =
      declaredOr [name.lexeme] s.globals x := by
  have hscopes : (walk (declare name s).2).2.scopes = [] := by
    rw [hwalk.scopes, declare_global name h]
    split <;> exact h
  change (define name (walk (declare name s).2).2).2.globals.get? x = _
  rw [get?_define name hscopes, declaredOr, declaredOr, hwalk.globals, declare_global name h]
  by_cases hx : x = name.lexeme
  · simp [hx]
  · have hne : name.lexeme ≠ x := Ne.symm hx
    simp only [List.mem_singleton, hx, if_false]
    split
    · rfl
    · exact Bindings.get?_insert_of_ne _ _ hne

theorem get?_introduce {s : State} (name : Token) (h : s.scopes = []) (x : String) :
    (introduce name s).2.globals.get? x = declaredOr [name.lexeme] s.globals x :=
  get?_declare_define name h Mild.pure x

/-- A statement at the top level makes the name that it declares a global, and no other one. -/
theorem globals_stmt (ctx : Context) {A : Addresses} {Γ : List Layer} : ∀ (st : Stmt) {s : State},
    st.Linked A Γ → s.scopes = [] → ∀ x,
    (stmt ctx st s).2.globals.get? x = declaredOr st.declared?.toList s.globals x
  | .block body, s, _, _, x => by
      change (inScope .empty (stmts ctx body) s).2.globals.get? x = _
      rw [(contained.stmts ctx body).globals_inScope]
      rfl
  | .classDecl name none decls, s, _, hs, x => by
      change (inScope thisScope (methods _ decls) (introduce name s).2).2.globals.get? x = _
      rw [(contained.methods _ decls).globals_inScope, get?_introduce name hs]
      rfl
  | .classDecl name (some ref) decls, s, _, hs, x => by
      -- Neither the check nor the read of the superclass declares anything.
      have hmild : Mild (checkInheritance name ref >>= fun _ => read ctx ref) :=
        (Mild.checkInheritance name ref).bind (.read ctx ref)
      change (inScope superScope (inScope thisScope (methods _ decls))
        ((checkInheritance name ref >>= fun _ => read ctx ref) (introduce name s).2).2).2.globals.get?
          x = _
      rw [(contained.inScope _ (contained.methods _ decls)).globals_inScope, hmild.globals,
        get?_introduce name hs]
      rfl
  | .expression e, s, _, _, x => by
      change (expr ctx e s).2.globals.get? x = _
      rw [(Mild.expr ctx e).globals]
      rfl
  | .function decl, s, _, hs, x => by
      rcases decl with ⟨name, params, body⟩
      have hbody : Contained (parameters params >>= fun _ =>
          stmts { ctx with function := .function } body) :=
        (contained.parameters params).bind (contained.stmts _ body)
      have hglobals := hbody.globals_inScope .empty (introduce name s).2
      exact (congrArg (Bindings.get? · x) hglobals).trans (get?_introduce name hs x)
  | .ifElse condition thenBranch none, s, ⟨_, hthen, hnone⟩, hs, x => by
      have hscopes := ((Mild.expr ctx condition).scopes s).trans hs
      change (stmt ctx thenBranch (expr ctx condition s).2).2.globals.get? x = _
      rw [globals_stmt ctx thenBranch hthen hscopes, hnone, (Mild.expr ctx condition).globals]
      rfl
  | .ifElse condition thenBranch (some elseBranch), s, ⟨_, ⟨hthen, hnone⟩, helse, hnone'⟩, hs, x => by
      have hscopes := ((Mild.expr ctx condition).scopes s).trans hs
      have hscopes' : (stmt ctx thenBranch (expr ctx condition s).2).2.scopes = [] := by
        rw [← List.length_eq_zero_iff, (contained.stmt ctx thenBranch).depth, hscopes]
        rfl
      change (stmt ctx elseBranch (stmt ctx thenBranch (expr ctx condition s).2).2).2.globals.get?
        x = _
      rw [globals_stmt ctx elseBranch helse hscopes', hnone', declaredOr_none,
        globals_stmt ctx thenBranch hthen hscopes, hnone, (Mild.expr ctx condition).globals]
      rfl
  | .print e, s, _, _, x => by
      change (expr ctx e s).2.globals.get? x = _
      rw [(Mild.expr ctx e).globals]
      rfl
  | .returnValue keyword value, s, _, _, x => by
      have hmild : Mild (checkReturn ctx keyword value >>= fun _ => expr? ctx value) :=
        (Mild.checkReturn ctx keyword value).bind (.expr? ctx value)
      change ((checkReturn ctx keyword value >>= fun _ => expr? ctx value) s).2.globals.get? x = _
      rw [hmild.globals]
      rfl
  | .varDecl name value, s, _, hs, x => get?_declare_define name hs (.expr? ctx value) x
  | .whileLoop condition body, s, ⟨_, hbody, hnone⟩, hs, x => by
      have hscopes := ((Mild.expr ctx condition).scopes s).trans hs
      change (stmt ctx body (expr ctx condition s).2).2.globals.get? x = _
      rw [globals_stmt ctx body hbody hscopes, hnone, (Mild.expr ctx condition).globals]
      rfl

/-- By induction on the statements: the globals are those there were and those that are declared. -/
theorem globals_stmts (ctx : Context) {A : Addresses} : ∀ (ss : List Stmt) {Γ : List Layer}
    {s : State}, Stmt.AllLinked A Γ ss → s.scopes = [] → ∀ x,
    (stmts ctx ss s).2.globals.get? x = declaredOr (ss.filterMap Stmt.declared?) s.globals x
  | [], _, _, _, _, _ => rfl
  | st :: ss, Γ, s, h, hs, x => by
      have hscopes : (stmt ctx st s).2.scopes = [] := by
        rw [← List.length_eq_zero_iff, (contained.stmt ctx st).depth, hs]
        rfl
      change (stmts ctx ss (stmt ctx st s).2).2.globals.get? x = _
      rw [globals_stmts ctx ss h.2 hscopes, declaredOr, globals_stmt ctx st h.1 hs]
      unfold declaredOr
      cases hdeclared : st.declared? with
      | none => simp [hdeclared]
      | some y =>
          by_cases hx : x ∈ ss.filterMap Stmt.declared? <;> simp [hdeclared, hx]

/-! ## Two parts -/

/-- Statements may be resolved in two parts. -/
theorem stmts_append (ctx : Context) (ss ss' : List Stmt) (s : State) :
    stmts ctx (ss ++ ss') s = stmts ctx ss' (stmts ctx ss s).2 := by
  induction ss generalizing s with
  | nil => rfl
  | cons st ss ih => exact ih (stmt ctx st s).2

end Resolver

open Resolver

/-- There is no error if none was found on the way and no read that was put off failed. -/
theorem resolve_errors_eq_nil {ss : List Stmt} {known : List String}
    {s : State} (hs : s = (stmts ⟨.none, .none⟩ ss (start known)).2) :
    (resolve ss known).errors = [] ↔
      s.errors = [] ∧ ∀ t ∈ s.pending, s.globals.get? t.lexeme = some true := by
  have hlength : (resolve ss known).errors.length = (s.errors ++ settle s).length := by
    rw [hs]
    exact List.length_mergeSort _
  rw [← List.length_eq_zero_iff, hlength, List.length_eq_zero_iff, List.append_eq_nil_iff]
  simp [settle, List.filter_eq_nil_iff]

/-- Programs that are alike are resolved alike. -/
theorem resolve_alike {T : Token → Token → Prop} {R : NodeId → NodeId → Prop}
    (hT : ∀ t t', T t t' → t.SameWord t') (hR : Paired R) {ss ss' : List Stmt}
    (halike : Stmt.AllAlike T R ss ss') {known : List String}
    (h : (resolve ss known).errors = []) :
    (resolve ss' known).errors = [] ∧
      (resolve ss' known).links.size = (resolve ss known).links.size ∧
      ∀ id id' : NodeId, R id id' →
        (resolve ss' known).links[id']? = (resolve ss known).links[id]? := by
  have hstart : State.Continues R [] 0 (start known) (start known) :=
    ⟨fun _ _ _ => (by simp [start]), rfl, rfl, rfl, fun _ => rfl, rfl, fun _ hx => by cases hx⟩
  have hend := parallel_stmts hT hR ⟨.none, .none⟩ halike _ _ hstart
  -- No fault is put off either: the names that still wait are the same, and so are the globals.
  rcases (resolve_errors_eq_nil rfl).1 h with ⟨herrors, hpending⟩
  refine ⟨(resolve_errors_eq_nil rfl).2 ⟨?_, ?_⟩, hend.size, hend.links⟩
  · exact List.eq_nil_of_length_eq_zero (hend.errors.trans (congrArg List.length herrors))
  · intro token htoken
    have hmem := List.mem_map_of_mem (f := Token.lexeme) htoken
    rw [hend.pending] at hmem
    rcases List.mem_map.1 hmem with ⟨token', htoken', heq⟩
    rw [hend.globals, ← heq]
    exact hpending token' htoken'

/-- The numbers of the second part of a program, which stay as they are. -/
def Behind (j : NodeId) (id id' : NodeId) : Prop := id' = id ∧ j ≤ id

theorem paired_behind (j : NodeId) : Paired (Behind j) := by
  rintro a _ b _ ⟨rfl, -⟩ ⟨rfl, -⟩
  exact Iff.rfl

/-- A program without a fault, followed by one that has none where the globals of the first are
known. -/
theorem resolve_append {T : Token → Token → Prop} (hT : ∀ t t', T t t' → t.SameWord t')
    {ss rest rest' : List Stmt} {known known' : List String} {i j l : NodeId}
    (hformed : Stmt.AllFormed ss i j) (hformed' : Stmt.AllFormed rest' j l)
    (hfirst : (resolve ss known).errors = [])
    (hknown : ∀ x, x ∈ known' ↔ x ∈ known ∨ x ∈ ss.filterMap Stmt.declared?)
    (hrest : (resolve rest known').errors = []) (halike : Stmt.AllAlike T (Behind j) rest rest') :
    (resolve (ss ++ rest') known).errors = [] ∧
      ∀ id : NodeId, (resolve (ss ++ rest') known).links[id]? =
        if id < j then (resolve ss known).links[id]? else (resolve rest known').links[id]? := by
  let ctx : Resolver.Context := ⟨.none, .none⟩
  let s := (stmts ctx ss (start known)).2
  let t := (stmts ctx rest (start known')).2
  rcases resolve_linked hformed hfirst with ⟨hlinked, hunlinked⟩
  rcases (resolve_errors_eq_nil rfl).1 hfirst with ⟨herrors, hpending⟩
  rcases (resolve_errors_eq_nil rfl).1 hrest with ⟨herrors', hpending'⟩
  have hscopes : s.scopes = [] :=
    List.eq_nil_of_length_eq_zero ((contained.stmts ctx ss).depth (start known))
  have hglobals : ∀ x, s.globals.get? x = (start known').globals.get? x := by
    intro x
    have hdeclared : s.globals.get? x = _ := globals_stmts ctx ss hlinked rfl x
    rw [hdeclared]
    change declaredOr _ (Bindings.ofNames known true) x = (Bindings.ofNames known' true).get? x
    rw [declaredOr, Bindings.get?_ofNames, Bindings.get?_ofNames]
    by_cases hx : x ∈ ss.filterMap Stmt.declared? <;> simp [hknown, hx]
  -- Behind the first part the walk stands as one that starts with its globals known.
  have hstart : State.Continues (Behind j) (s.pending.map Token.lexeme) s.links.size
      (start known') s := by
    refine ⟨?_, ?_, congrArg List.length herrors, hscopes, hglobals, (List.append_nil _).symm, ?_⟩
    · rintro _ id ⟨rfl, hid⟩
      have hempty : (∅ : Links)[id]? = none := by simp
      exact (hunlinked id (.inr hid)).trans hempty.symm
    · change s.links.size = (∅ : Links).size + _
      simp
    · intro x hx
      rcases List.mem_map.1 hx with ⟨token, htoken, rfl⟩
      exact hpending token htoken
  have hend := parallel_stmts hT (paired_behind j) ctx halike _ _ hstart
  have herrors'' : (stmts ctx rest' s).2.errors = [] :=
    List.eq_nil_of_length_eq_zero (hend.errors.trans (congrArg List.length herrors'))
  have hwhole : (stmts ctx (ss ++ rest') (start known)).2 = (stmts ctx rest' s).2 :=
    congrArg Prod.snd (stmts_append ctx ss rest' (start known))
  constructor
  · refine (resolve_errors_eq_nil hwhole.symm).2 ⟨herrors'', ?_⟩
    -- What was put off is either a read of the first part, or one of the second part alone.
    intro token htoken
    have hmem : token.lexeme ∈ (stmts ctx rest' s).2.pending.map Token.lexeme :=
      List.mem_map_of_mem htoken
    rw [hend.pending] at hmem
    rcases List.mem_append.1 hmem with hheld | hown
    · exact hend.settled _ hheld
    · rcases List.mem_map.1 hown with ⟨token', htoken', heq⟩
      rw [hend.globals, ← heq]
      exact hpending' token' htoken'
  · intro id
    change (stmts ctx (ss ++ rest') (start known)).2.links[id]? = _
    rw [hwhole]
    split
    · -- The second part enters addresses for its own numbers only.
      rename_i hid
      have hopen : Open [] := trivial
      have hshows : Shows s.scopes [] := hscopes ▸ .nil
      have hquiet : Quiet (stmts ctx rest') s := by
        unfold Quiet
        rw [herrors'']
        exact Nat.zero_le _
      rcases resolves_stmts ctx hopen .none rest' hformed' s hshows
        (fun id hid _ => hunlinked id (.inr hid)) hquiet with ⟨-, henters⟩
      exact henters.links id (.inl hid)
    · rename_i hid
      exact hend.links id id ⟨rfl, Nat.le_of_not_lt hid⟩

end LoxLang
