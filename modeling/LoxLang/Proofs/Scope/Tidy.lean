import LoxLang.Proofs.Scope.Walk

/-!
# Walks tidy up

What a walk over statements leaves of the scopes around them.

* `State.Grows s s'`: from `s` to `s'` the innermost scope, or the top level where there is none,
  has only gained names, and everything else in the scopes is the same.
* `State.Settled s`: every name is initialized. `State.Awaits waiting s`: only the variable
  `waiting` may not be, where it is declared.
* `Tidy walk`: from any state the scopes only grow, and from a settled one the walk leads to a
  settled one. This is what walks over statements are like (`Tidy.stmt`), with or without faults.
-/

namespace LoxLang

namespace Resolver

/-! ## Scopes that grow -/

/-- The innermost scope, or the top level, has only gained names. -/
structure State.Grows (s s' : State) : Prop where
  count : s'.scopes.length = s.scopes.length
  outer : s'.scopes.tail = s.scopes.tail
  inner : ∀ scope ∈ s.scopes.head?, ∃ scope' ∈ s'.scopes.head?,
    ∀ x, scope.contains x = true → scope'.contains x = true
  top : s.scopes = [] → ∀ x, s.globals.contains x = true → s'.globals.contains x = true
  globals : s.scopes ≠ [] → s'.globals = s.globals

namespace State.Grows

variable {s s' s'' : State}

/-- The scopes are as they were. -/
theorem of_eq (hscopes : s'.scopes = s.scopes) (hglobals : s'.globals = s.globals) :
    State.Grows s s' where
  count := by rw [hscopes]
  outer := by rw [hscopes]
  inner scope hscope := ⟨scope, by rwa [hscopes], fun _ => id⟩
  top _ x := by rw [hglobals]; exact id
  globals _ := hglobals

theorem refl (s : State) : State.Grows s s := of_eq rfl rfl

theorem nil (h : State.Grows s s') (hs : s.scopes = []) : s'.scopes = [] := by
  rw [← List.length_eq_zero_iff, h.count, hs]
  rfl

/-- Names that are added in two parts are added. -/
theorem trans (h : State.Grows s s') (h' : State.Grows s' s'') : State.Grows s s'' where
  count := h'.count.trans h.count
  outer := h'.outer.trans h.outer
  inner scope hscope := by
    rcases h.inner scope hscope with ⟨scope', hscope', hgains⟩
    rcases h'.inner scope' hscope' with ⟨scope'', hscope'', hgains'⟩
    exact ⟨scope'', hscope'', fun x hx => hgains' x (hgains x hx)⟩
  top hs x hx := h'.top (h.nil hs) x (h.top hs x hx)
  globals hs := by
    have hs' : s'.scopes ≠ [] := by
      rw [← List.length_pos_iff, h.count]
      exact List.length_pos_iff.2 hs
    exact (h'.globals hs').trans (h.globals hs)

/-- At the top level a name is entered. -/
theorem of_insert_global {name : String} {mark : Bool} (hs : s.scopes = []) :
    State.Grows s { s with globals := s.globals.insert name mark } where
  count := rfl
  outer := rfl
  inner scope hscope := by
    rw [hs] at hscope
    cases hscope
  top _ x hx := by simp [Bindings.contains_insert, hx]
  globals h := absurd hs h

/-- A name is entered in the innermost scope. -/
theorem of_insert {scope : Scope} {outer : List Scope} {name : String} {mark : Bool}
    (hs : s.scopes = scope :: outer) (hs' : s'.scopes = scope.insert name mark :: outer)
    (hglobals : s'.globals = s.globals) : State.Grows s s' where
  count := by rw [hs, hs']; rfl
  outer := by rw [hs, hs']; rfl
  inner scope' hscope := by
    rw [hs] at hscope
    cases hscope
    refine ⟨scope.insert name mark, by rw [hs']; rfl, fun x hx => ?_⟩
    simp [Bindings.contains_insert, hx]
  top h := by
    rw [hs] at h
    cases h
  globals _ := hglobals

end State.Grows

/-- Declaring a name takes none away. -/
theorem grows_declare (name : Token) (s : State) : State.Grows s (declare name s).2 := by
  cases hs : s.scopes with
  | nil =>
      rw [declare_global name hs]
      split
      · exact .refl s
      · exact .of_insert_global hs
  | cons scope outer =>
      rw [declare_local name hs]
      -- A name that is declared again loses its mark, but it stays in the scope.
      exact .of_insert hs rfl rfl

theorem grows_define (name : Token) (s : State) : State.Grows s (define name s).2 := by
  cases hs : s.scopes with
  | nil =>
      rw [define_global name hs]
      exact .of_insert_global hs
  | cons scope outer =>
      rw [define_local name hs]
      exact .of_insert hs rfl rfl

/-- A walk inside a scope of its own leaves the scopes around it as they are. -/
theorem scopes_inScope {walk : Resolver Unit} (h : ∀ s, State.Grows s (walk s).2) (scope : Scope)
    (s : State) :
    (inScope scope walk s).2.scopes = s.scopes ∧ (inScope scope walk s).2.globals = s.globals := by
  have hinside := h { s with scopes := scope :: s.scopes }
  exact ⟨hinside.outer, hinside.globals (List.cons_ne_nil _ _)⟩

/-! ## Names and their initializers -/

/-- Every name is initialized. -/
def State.Settled (s : State) : Prop :=
  ∀ scope ∈ s.globals :: s.scopes, ∀ x, scope.get? x ≠ some false

/-- Only one variable may not be initialized, and it is declared in the innermost scope, or at the
top level if there is no scope. -/
structure State.Awaits (waiting : Option String) (s : State) : Prop where
  globals : ∀ x, s.globals.get? x = some false → s.scopes = [] ∧ waiting = some x
  inner : ∀ scope ∈ s.scopes.head?, ∀ x, scope.get? x = some false → waiting = some x
  outer : ∀ scope ∈ s.scopes.tail, ∀ x, scope.get? x ≠ some false

/-- Where all names are ready, it does no harm to await one. -/
theorem State.Settled.awaits {s : State} (h : s.Settled) (waiting : Option String) :
    s.Awaits waiting where
  globals x hx := absurd hx (h _ (List.mem_cons_self ..) x)
  inner _ hscope x hx :=
    absurd hx (h _ (List.mem_cons_of_mem _ (List.mem_of_mem_head? hscope)) x)
  outer _ hscope := h _ (List.mem_cons_of_mem _ (List.mem_of_mem_tail hscope))

/-- What becomes of a state is looked up in its scopes only. -/
theorem State.Settled.of_eq {s s' : State} (h : s.Settled) (hscopes : s'.scopes = s.scopes)
    (hglobals : s'.globals = s.globals) : s'.Settled := by
  unfold State.Settled
  rw [hscopes, hglobals]
  exact h

/-- What is awaited can be read off the scopes and the globals. -/
theorem State.Awaits.of_eq {s s' : State} {waiting : Option String} (h : s.Awaits waiting)
    (hscopes : s'.scopes = s.scopes) (hglobals : s'.globals = s.globals) :
    s'.Awaits waiting where
  globals := by rw [hscopes, hglobals]; exact h.globals
  inner := by rw [hscopes]; exact h.inner
  outer := by rw [hscopes]; exact h.outer

theorem State.Settled.mild {s : State} (h : s.Settled) {walk : Resolver Unit} (hwalk : Mild walk) :
    (walk s).2.Settled :=
  h.of_eq (hwalk.scopes s) (hwalk.globals s)

theorem State.Awaits.mild {waiting : Option String} {s : State} (h : s.Awaits waiting)
    {walk : Resolver Unit} (hwalk : Mild walk) : (walk s).2.Awaits waiting :=
  h.of_eq (hwalk.scopes s) (hwalk.globals s)

/-- Where no variable is waited for, every name is initialized. -/
theorem State.Awaits.settled {s : State} (h : s.Awaits none) : s.Settled := by
  have hglobals : ∀ x, s.globals.get? x ≠ some false := fun x hx => nomatch (h.globals x hx).2
  refine List.forall_mem_cons.2 ⟨hglobals, ?_⟩
  have hinner := h.inner
  have houter := h.outer
  cases hs : s.scopes with
  | nil => exact fun _ hscope => nomatch hscope
  | cons scope outer =>
      rw [hs] at hinner houter
      have hscope : ∀ x, scope.get? x ≠ some false := fun x hx => nomatch hinner scope rfl x hx
      exact List.forall_mem_cons.2 ⟨hscope, houter⟩

/-- A scope may be opened if all that it begins with is ready. -/
theorem settled_push {s : State} {scope : Scope} (h : s.Settled)
    (hscope : ∀ x, scope.get? x ≠ some false) : (push scope s).2.Settled := by
  rcases List.forall_mem_cons.1 h with ⟨hglobals, hscopes⟩
  have hinside : ∀ scope' ∈ scope :: s.scopes, ∀ x, scope'.get? x ≠ some false :=
    List.forall_mem_cons.2 ⟨hscope, hscopes⟩
  exact List.forall_mem_cons.2 ⟨hglobals, hinside⟩

theorem settled_pop {s : State} (h : s.Settled) : (pop s).2.Settled := by
  rcases List.forall_mem_cons.1 h with ⟨hglobals, hscopes⟩
  exact List.forall_mem_cons.2
    ⟨hglobals, fun scope hscope => hscopes scope (List.mem_of_mem_tail hscope)⟩

theorem settled_empty (x : String) : (Bindings.empty : Scope).get? x ≠ some false := nofun

theorem settled_insert (name x : String) :
    ((Bindings.empty : Scope).insert name true).get? x ≠ some false := by
  rw [Bindings.get?_insert]
  split <;> simp

theorem settled_thisScope : ∀ x, thisScope.get? x ≠ some false := settled_insert "this"

theorem settled_superScope : ∀ x, superScope.get? x ≠ some false := settled_insert "super"

/-- A name that is declared is the only one that is not ready. -/
theorem awaits_declare {s : State} (h : s.Settled) (name : Token) :
    (declare name s).2.Awaits (some name.lexeme) := by
  rcases List.forall_mem_cons.1 h with ⟨hglobals, hscopes⟩
  have hnew : ∀ {scope : Scope}, (∀ x, scope.get? x ≠ some false) →
      ∀ x, (scope.insert name.lexeme false).get? x = some false → some name.lexeme = some x := by
    intro scope hscope x hx
    rw [Bindings.get?_insert] at hx
    split at hx
    · rename_i heq
      rw [heq]
    · exact absurd hx (hscope x)
  cases hs : s.scopes with
  | nil =>
      rw [declare_global name hs]
      -- A global that is declared again keeps its mark, and is not waiting.
      split
      · exact h.awaits _
      · refine ⟨fun x hx => ⟨hs, hnew hglobals x hx⟩, ?_, ?_⟩ <;> simp [hs]
  | cons scope outer =>
      rw [hs, List.forall_mem_cons] at hscopes
      rw [declare_local name hs]
      refine ⟨fun x hx => absurd hx (hglobals x), ?_, hscopes.2⟩
      rintro _ ⟨⟩
      exact hnew hscopes.1

/-- With the awaited name, all names are ready. -/
theorem settled_define {s : State} {name : Token} (h : s.Awaits (some name.lexeme)) :
    (define name s).2.Settled := by
  have hnew : ∀ {scope : Scope}, (∀ x, scope.get? x = some false → some name.lexeme = some x) →
      ∀ x, (scope.insert name.lexeme true).get? x ≠ some false := by
    intro scope hscope x
    rw [Bindings.get?_insert]
    split
    · simp
    · rename_i hne
      exact fun hx => hne (Option.some.inj (hscope x hx))
  cases hs : s.scopes with
  | nil =>
      rw [define_global name hs]
      refine List.forall_mem_cons.2 ⟨hnew fun x hx => (h.globals x hx).2, ?_⟩
      simp [hs]
  | cons scope outer =>
      have hinner := h.inner scope (by rw [hs]; rfl)
      have houter := h.outer
      rw [hs] at houter
      rw [define_local name hs]
      -- What is waiting is declared in the innermost scope, so it is no global.
      refine List.forall_mem_cons.2 ⟨fun x hx => ?_, List.forall_mem_cons.2 ⟨hnew hinner, houter⟩⟩
      have hnil := (h.globals x hx).1
      rw [hs] at hnil
      cases hnil

/-! ## Walks over statements -/

/-- A walk behind which the scopes around it are in order again. -/
structure Tidy (walk : Resolver Unit) : Prop where
  grows : ∀ s, State.Grows s (walk s).2
  settled : ∀ {s}, s.Settled → (walk s).2.Settled

/-- In its initializer a variable is waiting, and behind it, it is not. -/
theorem tidy_varDecl (ctx : Context) (name : Token) (initializer : Option Expr) :
    Tidy (do declare name; expr? ctx initializer; define name) where
  grows s := by
    have hinside := Mild.expr? ctx initializer
    have hvalue : State.Grows (declare name s).2 (expr? ctx initializer (declare name s).2).2 :=
      .of_eq (hinside.scopes _) (hinside.globals _)
    have hdeclared := (grows_declare name s).trans hvalue
    exact hdeclared.trans (grows_define name _)
  settled {s} hs := by
    have hdeclared := awaits_declare hs name
    have hvalue := hdeclared.mild (Mild.expr? ctx initializer)
    exact settled_define hvalue

/-- Every step of a walk over statements leaves all names ready. -/
theorem tidy : Compositional Tidy where
  mild h :=
    { grows := fun s => .of_eq (h.scopes s) (h.globals s)
      settled := fun hs => hs.mild h }
  bind {walk _} h hrest :=
    { grows := fun s => (h.grows s).trans (hrest.grows (walk s).2)
      settled := fun hs => hrest.settled (h.settled hs) }
  -- A walk in a scope of its own changes none of the scopes around it.
  inScope scope {_} h :=
    { grows := fun s => .of_eq (scopes_inScope h.grows scope s).1 (scopes_inScope h.grows scope s).2
      settled := fun {s} hs =>
        hs.of_eq (scopes_inScope h.grows scope s).1 (scopes_inScope h.grows scope s).2 }
  varDecl := tidy_varDecl

end Resolver

end LoxLang
