import LoxLang.Proofs.Grammar.Renumber
import LoxLang.Proofs.Scope.Continued

/-!
# Resolving with more known globals

The more globals are known before a program runs, the fewer of its faults are found; but only reads
of a variable in its own initializer can be missing, since no other check asks for the globals.

* `Spares es es'`: the faults `es'` are those of `es`, in order, except that some of these reads are
  missing. This goes along with sorting (`Spares.mergeSort`).
* `State.Informs s s'`: the second walk is where the first one is, and more globals are known to it.
* `Informed`: two walks over trees that differ in their numbers only keep this.
* `resolve_spares` is the result for programs.
-/

namespace LoxLang

/-! ## Faults that are missing -/

/-- Whether an error is a read of a variable in its own initializer. -/
def StaticError.isOwnRead (e : StaticError) : Bool :=
  e.fault == .resolve .readInOwnInitializer

/-- Own-initializer reads are told by their message, which no other error has. -/
theorem StaticError.message_of_isOwnRead {e : StaticError} (h : e.isOwnRead = true) :
    e.message = "Can't read local variable in its own initializer." := by
  have hfault : e.fault = .resolve .readInOwnInitializer := by simpa [isOwnRead] using h
  rw [message, hfault]
  rfl

structure Spares (es es' : List StaticError) : Prop where
  sublist : es'.Sublist es
  others : (es'.filter fun e => !e.isOwnRead) = es.filter fun e => !e.isOwnRead

namespace Spares

variable {es es' more more' : List StaticError}

theorem refl (es : List StaticError) : Spares es es := ⟨.refl es, rfl⟩

/-- What is spared in two parts is spared together. -/
theorem append (h : Spares es es') (hmore : Spares more more') :
    Spares (es ++ more) (es' ++ more') :=
  ⟨h.sublist.append hmore.sublist, by rw [List.filter_append, List.filter_append, h.others,
    hmore.others]⟩

/-- Any of the reads may be missing. -/
theorem of_isOwnRead (hes : ∀ e ∈ es, e.isOwnRead = true) (h : es'.Sublist es) : Spares es es' := by
  have hnone : ∀ l : List StaticError, (∀ e ∈ l, e.isOwnRead = true) →
      (l.filter fun e => !e.isOwnRead) = [] := by
    intro l hl
    rw [List.filter_eq_nil_iff]
    intro e he
    simp [hl e he]
  exact ⟨h, by rw [hnone es hes, hnone es' fun e he => hes e (h.subset he)]⟩

/-- A choice that passes over these reads does not tell the two lists apart. -/
theorem filter_eq (h : Spares es es') {p : StaticError → Bool}
    (hp : ∀ {e : StaticError}, e.isOwnRead = true → p e = false) : es'.filter p = es.filter p := by
  have hothers : ∀ l : List StaticError, l.filter p = (l.filter fun e => !e.isOwnRead).filter p := by
    intro l
    rw [List.filter_filter]
    refine List.filter_congr ?_
    intro e _
    cases he : e.isOwnRead with
    | true => rw [hp he]; rfl
    | false => simp
  rw [hothers es', h.others, ← hothers]

end Spares

/-- What is smaller than an element of a sorted list can be told from what is not. -/
theorem filter_of_pairwise {α : Type} {le : α → α → Bool} {a : α} {l₁ l₂ : List α}
    (hsorted : (l₁ ++ a :: l₂).Pairwise fun x y => le x y = true)
    (hl₁ : ∀ b, b ∈ l₁ → (!le a b) = true) :
    ((l₁ ++ l₂).filter fun b => !le a b) = l₁ ∧ ((l₁ ++ l₂).filter fun b => le a b) = l₂ := by
  have hl₂ : ∀ b ∈ l₂, le a b = true :=
    (List.pairwise_cons.1 (List.pairwise_append.1 hsorted).2.1).1
  rw [List.filter_append, List.filter_append, List.filter_eq_self.2 hl₁, List.filter_eq_self.2 hl₂,
    List.filter_eq_nil_iff.2 fun b hb => by simp [hl₂ b hb],
    List.filter_eq_nil_iff.2 fun b hb => by simpa using hl₁ b hb]
  exact ⟨List.append_nil _, rfl⟩

/-- Sorting keeps a part of a list a part of it: what is put between two elements stays there, as
long as equal elements keep their order. -/
theorem sublist_mergeSort_mergeSort {α : Type} {le : α → α → Bool}
    (trans : ∀ a b c, le a b = true → le b c = true → le a c = true)
    (total : ∀ a b, (le a b || le b a) = true) {l l' : List α} (h : l'.Sublist l) :
    (l'.mergeSort le).Sublist (l.mergeSort le) := by
  induction h with
  | slnil => exact .refl _
  | @cons _ l a _ ih =>
      rcases List.mergeSort_cons trans total a l with ⟨l₁, l₂, hcons, hl, -⟩
      rw [hcons]
      rw [hl] at ih
      exact ih.middle a
  | @cons_cons l' l a _ ih =>
      rcases List.mergeSort_cons trans total a l with ⟨l₁, l₂, hcons, hl, hbefore⟩
      rcases List.mergeSort_cons trans total a l' with ⟨k₁, k₂, hcons', hl', hbefore'⟩
      have hsorted := List.pairwise_mergeSort trans total (a :: l)
      have hsorted' := List.pairwise_mergeSort trans total (a :: l')
      rw [hl, hl'] at ih
      rw [hcons] at hsorted ⊢
      rw [hcons'] at hsorted' ⊢
      -- The new element stands where the smaller ones end, in both lists.
      rcases filter_of_pairwise hsorted hbefore with ⟨h₁, h₂⟩
      rcases filter_of_pairwise hsorted' hbefore' with ⟨h₁', h₂'⟩
      have hfirst : k₁.Sublist l₁ := by
        have hfilter := ih.filter fun b => !le a b
        rwa [h₁, h₁'] at hfilter
      have hrest : k₂.Sublist l₂ := by
        have hfilter := ih.filter fun b => le a b
        rwa [h₂, h₂'] at hfilter
      exact hfirst.append (hrest.cons_cons a)

/-- Sorting by line keeps the order of all errors that are not spared. -/
theorem Spares.mergeSort {le : StaticError → StaticError → Bool}
    (trans : ∀ a b c, le a b = true → le b c = true → le a c = true)
    (total : ∀ a b, (le a b || le b a) = true) {es es' : List StaticError} (h : Spares es es') :
    Spares (es.mergeSort le) (es'.mergeSort le) := by
  have hsublist := sublist_mergeSort_mergeSort trans total h.sublist
  refine ⟨hsublist, (hsublist.filter _).eq_of_length ?_⟩
  have hlength := ((List.mergeSort_perm es le).filter fun e => !e.isOwnRead).length_eq
  have hlength' := ((List.mergeSort_perm es' le).filter fun e => !e.isOwnRead).length_eq
  rw [hlength, hlength', h.others]

namespace Resolver

/-! ## Two walks side by side -/

/-- The second walk knows what the first one knows of the globals, or that they have a value. -/
structure State.Informs (s s' : State) : Prop where
  scopes : s'.scopes = s.scopes
  globals : ∀ x, s'.globals.get? x = s.globals.get? x ∨ s'.globals.get? x = some true
  errors : Spares s.errors s'.errors
  pending : s'.pending.Sublist s.pending

def Informed (walk walk' : Resolver Unit) : Prop :=
  ∀ s s', State.Informs s s' → State.Informs (walk s).2 (walk' s').2

namespace Informed

/-- To know more is to know more at every step. -/
theorem bind {walk walk' : Resolver Unit} {rest rest' : Unit → Resolver Unit}
    (h : Informed walk walk') (hrest : Informed (rest ()) (rest' ())) :
    Informed (walk >>= rest) (walk' >>= rest') :=
  fun s s' hs => hrest _ _ (h s s' hs)

theorem pure : Informed (Pure.pure ()) (Pure.pure ()) := fun _ _ h => h

/-- Walks that look at their states first. -/
theorem get_bind {rest rest' : State → Resolver Unit}
    (h : ∀ s s', State.Informs s s' → State.Informs (rest s s).2 (rest' s' s').2) :
    Informed (get >>= rest) (get >>= rest') := h

theorem report (fault : ScopeFault) (token : Token) :
    Informed (report fault token) (report fault token) :=
  fun _ _ h => ⟨h.scopes, h.globals, h.errors.append (.refl _), h.pending⟩

/-- Scopes are the same, however many globals are known. -/
theorem inScope (scope : Scope) {walk walk' : Resolver Unit} (h : Informed walk walk') :
    Informed (inScope scope walk) (inScope scope walk') := by
  intro s s' hs
  have hwalk := h { s with scopes := scope :: s.scopes } { s' with scopes := scope :: s'.scopes }
    ⟨congrArg (scope :: ·) hs.scopes, hs.globals, hs.errors, hs.pending⟩
  exact ⟨congrArg List.tail hwalk.scopes, hwalk.globals, hwalk.errors, hwalk.pending⟩

/-- No check asks for an address. -/
theorem record (id id' : NodeId) (distance : Option Nat) :
    Informed (record id distance) (record id' distance) := by
  cases distance with
  | none => exact pure
  | some d => exact fun _ _ h => ⟨h.scopes, h.globals, h.errors, h.pending⟩

theorem link (id id' : NodeId) (name : String) : Informed (link id name) (link id' name) := by
  refine get_bind fun s s' h => ?_
  rw [h.scopes]
  exact record id id' _ s s' h

/-! ### Declarations -/

/-- A known global may be declared again; in a scope nothing changes. -/
theorem declare (name : Token) : Informed (declare name) (declare name) := by
  intro s s' h
  cases hscopes : s.scopes with
  | nil =>
      rw [declare_global name hscopes, declare_global name (h.scopes.trans hscopes)]
      -- The second walk declares nothing where it knows the name to have a value.
      rcases h.globals name.lexeme with hname | hname
      · rw [Bindings.contains, Bindings.contains, hname]
        split
        · exact h
        · refine ⟨h.scopes, ?_, h.errors, h.pending⟩
          intro x
          rw [Bindings.get?_insert, Bindings.get?_insert]
          split
          · exact .inl rfl
          · exact h.globals x
      · have hcontains : s'.globals.contains name.lexeme = true := by
          simp [Bindings.contains, hname]
        rw [if_pos hcontains]
        split
        · exact h
        · refine ⟨h.scopes, ?_, h.errors, h.pending⟩
          intro x
          rw [Bindings.get?_insert]
          split
          · rename_i heq
            exact .inr (heq ▸ hname)
          · exact h.globals x
  | cons scope outer =>
      rw [declare_local name hscopes, declare_local name (h.scopes.trans hscopes)]
      refine ⟨rfl, h.globals, ?_, h.pending⟩
      dsimp only
      split
      · exact h.errors.append (.refl _)
      · exact h.errors

theorem define (name : Token) : Informed (define name) (define name) := by
  intro s s' h
  cases hscopes : s.scopes with
  | nil =>
      rw [define_global name hscopes, define_global name (h.scopes.trans hscopes)]
      refine ⟨h.scopes, ?_, h.errors, h.pending⟩
      intro x
      rw [Bindings.get?_insert, Bindings.get?_insert]
      split
      · exact .inl rfl
      · exact h.globals x
  | cons scope outer =>
      rw [define_local name hscopes, define_local name (h.scopes.trans hscopes)]
      exact ⟨rfl, h.globals, h.errors, h.pending⟩

theorem introduce (name : Token) : Informed (introduce name) (introduce name) :=
  (declare name).bind (define name)

theorem parameters : ∀ params : List Token, Informed (parameters params) (parameters params)
  | [] => pure
  | param :: params => (introduce param).bind (parameters params)

/-! ### Uses of names -/

/-- A fault that the second walk does not find. -/
theorem spares_report {es es' : List StaticError} (h : Spares es es') (name : Token) :
    Spares (es ++ [.atToken (.resolve .readInOwnInitializer) name]) es' := by
  have hown : Spares [StaticError.atToken (.resolve .readInOwnInitializer) name] [] := by
    refine .of_isOwnRead ?_ (List.nil_sublist _)
    intro e he
    rw [List.mem_singleton.1 he]
    rfl
  have hboth := h.append hown
  rwa [List.append_nil] at hboth

/-- What was a fault may be none if the outer name is a known global; nothing else changes. -/
theorem linkShadowed (ctx : Context) (id id' : NodeId) (name : Token) (outer : List Scope) :
    Informed (linkShadowed ctx ⟨id, name⟩ outer) (linkShadowed ctx ⟨id', name⟩ outer) := by
  unfold Resolver.linkShadowed
  dsimp only
  split
  · exact record _ _ _
  · refine get_bind fun s s' h => ?_
    -- Inside of a function the read is put off, elsewhere it is faulty at once.
    rcases h.globals name.lexeme with hname | hname
    · rw [hname]
      split
      · exact h
      · split
        · exact report _ _ s s' h
        · exact ⟨h.scopes, h.globals, h.errors, h.pending.append (.refl _)⟩
    · rw [if_pos hname]
      split
      · exact h
      · split
        · exact ⟨h.scopes, h.globals, spares_report h.errors name, h.pending⟩
        · exact ⟨h.scopes, h.globals, h.errors, h.pending.trans (List.sublist_append_left _ _)⟩

/-- Only a read in its own initializer can tell how many globals are known. -/
theorem read (ctx : Context) (id id' : NodeId) (name : Token) :
    Informed (read ctx ⟨id, name⟩) (read ctx ⟨id', name⟩) := by
  refine get_bind fun s s' h => ?_
  rw [h.scopes]
  cases s.scopes with
  | nil =>
      dsimp only
      -- Both know the same about the name, or it has a value where more globals are known.
      rcases h.globals name.lexeme with hname | hname
      · rw [hname]
        split
        · exact report _ _ s s' h
        · exact h
      · have hknown : ¬ s'.globals.get? name.lexeme = some false := by
          rw [hname]
          decide
        rw [if_neg hknown]
        split
        · exact ⟨h.scopes, h.globals, spares_report h.errors name, h.pending⟩
        · exact h
  | cons scope outer =>
      dsimp only
      split
      · exact linkShadowed ctx id id' name outer s s' h
      · exact link _ _ _ s s' h

theorem useThis (ctx : Context) (id id' : NodeId) (keyword : Token) :
    Informed (useThis ctx id keyword) (useThis ctx id' keyword) := by
  unfold Resolver.useThis
  split
  · exact report _ _
  · exact link _ _ _

theorem useSuper (ctx : Context) (id id' : NodeId) (keyword : Token) :
    Informed (useSuper ctx id keyword) (useSuper ctx id' keyword) := by
  refine bind ?_ (link id id' _)
  unfold checkSuper
  split
  · exact report _ _
  · exact pure

theorem checkReturn (f : NodeId → NodeId) (ctx : Context) (keyword : Token) (value : Option Expr) :
    Informed (checkReturn ctx keyword value)
      (checkReturn ctx keyword (value.map (Expr.renumber f))) := by
  unfold Resolver.checkReturn
  rw [Option.isSome_map]
  split
  · exact report _ _
  · split
    · exact report _ _
    · exact pure

theorem checkInheritance (name parent : Token) (id id' : NodeId) :
    Informed (checkInheritance name ⟨id, parent⟩) (checkInheritance name ⟨id', parent⟩) := by
  unfold Resolver.checkInheritance
  dsimp only
  split
  · exact report _ _
  · exact pure

/-! ### Trees -/

variable (f : NodeId → NodeId)

mutual

/-- By induction on the expression. Its numbers play no part in what is at fault. -/
theorem expr (ctx : Context) : ∀ e : Expr, Informed (expr ctx e) (expr ctx (e.renumber f))
  | .assign _ _ value => (expr ctx value).bind (link _ _ _)
  | .binary _ left _ right | .logical _ left _ right => (expr ctx left).bind (expr ctx right)
  | .call _ callee _ arguments => (expr ctx callee).bind (exprs ctx arguments)
  | .get _ inner _ | .grouping _ inner | .unary _ _ inner => expr ctx inner
  | .literal _ _ => pure
  | .set _ object _ value => (expr ctx value).bind (expr ctx object)
  | .super _ keyword _ => useSuper ctx _ _ keyword
  | .this _ keyword => useThis ctx _ _ keyword
  | .variable ⟨_, name⟩ => read ctx _ _ name

theorem exprs (ctx : Context) : ∀ es : List Expr,
    Informed (exprs ctx es) (exprs ctx (Expr.renumberAll f es))
  | [] => pure
  | e :: es => (expr ctx e).bind (exprs ctx es)

end

theorem expr? (ctx : Context) (e : Option Expr) :
    Informed (expr? ctx e) (expr? ctx (e.map (Expr.renumber f))) := by
  cases e with
  | none => exact pure
  | some e => exact expr f ctx e

mutual

/-- By induction on the statement. -/
theorem stmt (ctx : Context) : ∀ st : Stmt, Informed (stmt ctx st) (stmt ctx (st.renumber f))
  | .block body => by
      apply inScope
      exact stmts ctx body
  | .classDecl name none decls => by
      apply (introduce name).bind
      apply inScope
      exact methods _ decls
  | .classDecl name (some ⟨_, parent⟩) decls => by
      apply (introduce name).bind
      apply (checkInheritance name parent _ _).bind
      apply (read ctx _ _ parent).bind
      apply inScope
      apply inScope
      exact methods _ decls
  | .expression e | .print e => expr f ctx e
  | .function ⟨name, params, body⟩ => by
      apply (introduce name).bind
      exact function _ ⟨name, params, body⟩
  | .ifElse condition thenBranch none => by
      have hcondition := expr f ctx condition
      exact hcondition.bind (stmt ctx thenBranch)
  | .ifElse condition thenBranch (some elseBranch) => by
      have hcondition := expr f ctx condition
      have hthen := stmt ctx thenBranch
      exact hcondition.bind (hthen.bind (stmt ctx elseBranch))
  | .returnValue keyword value => by
      have hcheck := checkReturn f ctx keyword value
      exact hcheck.bind (expr? f ctx value)
  | .varDecl name value => by
      have hvalue := expr? f ctx value
      apply (declare name).bind
      exact hvalue.bind (define name)
  | .whileLoop condition body => by
      have hcondition := expr f ctx condition
      exact hcondition.bind (stmt ctx body)

theorem stmts (ctx : Context) : ∀ ss : List Stmt,
    Informed (stmts ctx ss) (stmts ctx (Stmt.renumberAll f ss))
  | [] => pure
  | st :: ss => (stmt ctx st).bind (stmts ctx ss)

theorem function (ctx : Context) : ∀ decl : FunctionDecl,
    Informed (function ctx decl) (function ctx (decl.renumber f))
  | ⟨_, params, body⟩ => by
      apply inScope
      apply (parameters params).bind
      exact stmts ctx body

theorem methods (ctx : Context) : ∀ decls : List FunctionDecl,
    Informed (methods ctx decls) (methods ctx (FunctionDecl.renumberAll f decls))
  | [] => pure
  | ⟨name, params, body⟩ :: decls => (function _ ⟨name, params, body⟩).bind (methods ctx decls)

end

end Informed

/-! ## Programs -/

/-- Of the reads that were put off, fewer are faulty if more globals have a value. -/
theorem State.Informs.settle {s s' : State} (h : s.Informs s') : Spares (settle s) (settle s') := by
  refine .of_isOwnRead ?_ ?_
  · intro e he
    rcases List.mem_map.1 he with ⟨token, -, rfl⟩
    rfl
  · refine List.Sublist.map _ ?_
    have hkept : (s'.pending.filter fun token => s'.globals.get? token.lexeme != some true).Sublist
        s.pending := List.filter_sublist.trans h.pending
    have hpending := hkept.filter fun token => s.globals.get? token.lexeme != some true
    rwa [List.filter_eq_self.2 ?_] at hpending
    intro token htoken
    have hlater := (List.mem_filter.1 htoken).2
    rcases h.globals token.lexeme with hname | hname
    · rwa [← hname]
    · simp [hname] at hlater

end Resolver

open Resolver

/-- A program with other numbers, where more globals are known: the faults that are found are among
those that were found before, in the same order, and only reads of a variable in its own initializer
are missing. -/
theorem resolve_spares (f : NodeId → NodeId) (ss : List Stmt) {known known' : List String}
    (h : known ⊆ known') :
    Spares (resolve ss known).errors (resolve (Stmt.renumberAll f ss) known').errors := by
  have hstart : State.Informs (start known) (start known') := by
    refine ⟨rfl, ?_, .refl [], .refl []⟩
    intro x
    change (Bindings.ofNames known' true).get? x = (Bindings.ofNames known true).get? x ∨
      (Bindings.ofNames known' true).get? x = some true
    rw [Bindings.get?_ofNames, Bindings.get?_ofNames]
    by_cases hx : x ∈ known
    · simp [h hx]
    · by_cases hx' : x ∈ known' <;> simp [hx, hx']
  have hend := Informed.stmts f ⟨.none, .none⟩ ss _ _ hstart
  -- Sorting by lines is stable, so it keeps what is spared in order.
  refine (hend.errors.append hend.settle).mergeSort ?_ ?_
  · intro a b c hab hbc
    exact decide_eq_true (Nat.le_trans (of_decide_eq_true hab) (of_decide_eq_true hbc))
  · intro a b
    simpa using Nat.le_total a.line b.line

end LoxLang
