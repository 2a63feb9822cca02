import LoxLang.Proofs.Eval.Heap
import LoxLang.Proofs.Lexical.Interpreter

/-!
# Frames and cells

How a machine with frames and a machine with cells keep the same variables.

* A `Book` tells for each cell which name of which frame it stands for. Two cells never stand for
  the same variable. Only `this` and `super` have many cells, one for each call, but nobody assigns
  to them.
* `Sees`: a scope and a chain of frames give the same meaning to all names.
* `Stands`: the same for a place where statements are executed. The innermost frame belongs to that
  place alone: it has a cell for the names that are declared so far, and for no other name.
* `Later`: what has been entered in the book stays, and what is new belongs to new frames, or to
  the innermost frame of the statements that are executed.
* `Related`: all that the two machines hold agrees.
-/

namespace LoxLang

open Layer

/-- What each cell stands for. -/
abbrev Book := Array (FrameId × String)

/-! ## Scopes and chains -/

/-- A name that is local has a cell in scope, which stands for it in the frame that it is declared
in; a name that is not local is not in scope. -/
def Sees (β : Book) (scope : Lexical.Scope) (chain : List FrameId) (Γ : List Layer) : Prop :=
  ∀ x, match depth? x Γ with
    | some d => ∃ c f, scope.get? x = some c ∧ chain[d]? = some f ∧ β[c]? = some (f, x)
    | none => scope.get? x = none

/-- The names of a frame that have a cell. -/
def Owns (β : Book) (f : FrameId) (xs : List String) : Prop :=
  ∀ (c : Lexical.CellId) (x : String), β[c]? = some (f, x) → IsName x → x ∈ xs

inductive Stands (β : Book) (store : Store) : Env → Lexical.Place → List Layer → Prop where
  | top : Stands β store Machine.globals .top []
  | inner {env : Env} {scope : Lexical.Scope} {xs : List String} {Γ : List Layer} :
      env.frame ≠ 0 → env.frame < store.frames.size → Owns β env.frame xs →
      Sees β scope env.chain (.names xs :: Γ) → Stands β store env (.inner scope) (.names xs :: Γ)

structure Later (own : Option FrameId) (β : Book) (s : Store) (β' : Book) (s' : Store) : Prop where
  book : ∀ (c : Lexical.CellId) (p : FrameId × String), β[c]? = some p → β'[c]? = some p
  size_le : s.frames.size ≤ s'.frames.size
  fixed : ∀ (f : FrameId) (x : String) (v : Value), ¬ IsName x → (s.frame f).get? x = some v →
    (s'.frame f).get? x = some v
  new : ∀ (c : Lexical.CellId) (f : FrameId) (x : String), β[c]? = none → β'[c]? = some (f, x) →
    IsName x → s.frames.size ≤ f ∨ own = some f

namespace Later

variable {own : Option FrameId} {β β' β'' : Book} {s s' s'' : Store}

/-- What has not changed has not become less. -/
theorem refl (own : Option FrameId) (β : Book) (s : Store) : Later own β s β s where
  book _ _ h := h
  size_le := Nat.le_refl _
  fixed _ _ _ _ h := h
  new c f x hnone hsome := by simp [hnone] at hsome

/-- A cell that is new to the whole stretch is new to one of its two parts. -/
theorem trans (h : Later own β s β' s') (h' : Later own β' s' β'' s'') :
    Later own β s β'' s'' where
  book c p hp := h'.book c p (h.book c p hp)
  size_le := Nat.le_trans h.size_le h'.size_le
  fixed f x v hx hv := h'.fixed f x v hx (h.fixed f x v hx hv)
  new c f x hnone hsome hx := by
    cases hmid : β'[c]? with
    | none =>
        rcases h'.new c f x hmid hsome hx with hsize | hown
        · exact .inl (Nat.le_trans h.size_le hsize)
        · exact .inr hown
    | some p =>
        have heq := (h'.book c p hmid).symm.trans hsome
        cases heq
        exact h.new c f x hnone hmid hx

/-- What adds to new frames only may stand among statements. -/
theorem quiet (h : Later none β s β' s') (own : Option FrameId) : Later own β s β' s' where
  book := h.book
  size_le := h.size_le
  fixed := h.fixed
  new c f x hnone hsome hx := by
    rcases h.new c f x hnone hsome hx with hsize | hown
    · exact .inl hsize
    · cases hown

/-- What is added to a frame that is itself new is added to new frames only. -/
theorem leave {f : FrameId} (h : Later none β s β' s') (hf : s.frames.size ≤ f)
    (h' : Later (some f) β' s' β'' s'') : Later none β s β'' s'' := by
  have hboth := (h.quiet (some f)).trans h'
  refine ⟨hboth.book, hboth.size_le, hboth.fixed, ?_⟩
  intro c g x hnone hsome hx
  rcases hboth.new c g x hnone hsome hx with hsize | hown
  · exact .inl hsize
  · cases hown
    exact .inl hf

end Later

/-- What is seen stays in sight, since no entry of the book is changed. -/
theorem Sees.mono {own : Option FrameId} {β β' : Book} {s s' : Store} (hlater : Later own β s β' s')
    {scope : Lexical.Scope} {chain : List FrameId} {Γ : List Layer} (h : Sees β scope chain Γ) :
    Sees β' scope chain Γ := by
  intro x
  have hx := h x
  cases hdepth : depth? x Γ with
  | none =>
      rw [hdepth] at hx
      exact hx
  | some d =>
      rw [hdepth] at hx
      rcases hx with ⟨c, f, hscope, hchain, hbook⟩
      exact ⟨c, f, hscope, hchain, hlater.book c _ hbook⟩

/-- A place stays as it is while other code runs, which declares nothing in its frame. -/
theorem Stands.mono {β β' : Book} {s s' : Store} (hlater : Later none β s β' s') {env : Env}
    {place : Lexical.Place} {Γ : List Layer} (h : Stands β s env place Γ) :
    Stands β' s' env place Γ := by
  cases h with
  | top => exact .top
  | inner hne hlt howns hsees =>
      refine .inner hne (Nat.lt_of_lt_of_le hlt hlater.size_le) ?_ (hsees.mono hlater)
      intro c x hbook hx
      cases hold : β[c]? with
      | none =>
          -- A new cell would stand for a name of a frame that is not new.
          rcases hlater.new c _ x hold hbook hx with hsize | hown
          · exact absurd hlt (Nat.not_lt.2 hsize)
          · cases hown
      | some p =>
          have heq := (hlater.book c p hold).symm.trans hbook
          cases heq
          exact howns c x hold hx

/-- Where statements stand, all names are seen; at the top level none is local. -/
theorem Stands.sees {β : Book} {s : Store} {env : Env} {place : Lexical.Place} {Γ : List Layer}
    (h : Stands β s env place Γ) : Sees β place.scope env.chain Γ := by
  cases h with
  | top => exact fun x => rfl
  | inner _ _ _ hsees => exact hsees

/-- A layer that declares nothing new to see. -/
theorem Sees.cons {β : Book} {scope : Lexical.Scope} {chain : List FrameId} {Γ : List Layer}
    (h : Sees β scope chain Γ) (f : FrameId) : Sees β scope (f :: chain) (.names [] :: Γ) := by
  intro x
  have hx := h x
  rw [depth?_cons_of_not_declares Γ (by simp [declares])]
  cases hdepth : depth? x Γ with
  | none =>
      rw [hdepth] at hx
      exact hx
  | some d =>
      rw [hdepth] at hx
      exact hx

/-- A scope that knows one more name, which is declared in the innermost layer. -/
theorem Sees.insert {β β' : Book} {scope : Lexical.Scope} {chain chain' : List FrameId}
    {Γ Γ' : List Layer} {f : FrameId} {x : String} {c : Lexical.CellId} (h : Sees β scope chain Γ)
    (hbook : ∀ (c : Lexical.CellId) (p : FrameId × String), β[c]? = some p → β'[c]? = some p)
    (hc : β'[c]? = some (f, x)) (hx : depth? x Γ' = some 0) (hf : chain'[0]? = some f)
    (hother : ∀ y, y ≠ x → ∀ d, depth? y Γ = d →
      ∃ k, depth? y Γ' = d.map (· + k) ∧ ∀ i : Nat, chain'[i + k]? = chain[i]?) :
    Sees β' (scope.insert x c) chain' Γ' := by
  intro y
  -- the new name is found in the new cell, all others where they were
  by_cases hxy : x = y
  · subst hxy
    rw [hx]
    exact ⟨c, f, by simp, hf, hc⟩
  · have hy := h y
    rcases hother y (Ne.symm hxy) _ rfl with ⟨k, hdepth', hchain⟩
    rw [Bindings.get?_insert_of_ne _ _ hxy, hdepth']
    cases hdepth : depth? y Γ with
    | none =>
        rw [hdepth] at hy
        exact hy
    | some d =>
        rw [hdepth] at hy
        rcases hy with ⟨c', f', hscope, hlink, hcell⟩
        exact ⟨c', f', hscope, (hchain d).trans hlink, hbook c' _ hcell⟩

/-- A declaration in the innermost layer. -/
theorem Sees.declare {β β' : Book} {scope : Lexical.Scope} {f : FrameId} {chain : List FrameId}
    {xs : List String} {Γ : List Layer} {x : String} {c : Lexical.CellId}
    (h : Sees β scope (f :: chain) (.names xs :: Γ))
    (hbook : ∀ (c : Lexical.CellId) (p : FrameId × String), β[c]? = some p → β'[c]? = some p)
    (hc : β'[c]? = some (f, x)) :
    Sees β' (scope.insert x c) (f :: chain) (.names (xs ++ [x]) :: Γ) := by
  refine h.insert hbook hc (depth?_cons_of_declares Γ (by simp [declares])) rfl ?_
  intro y hy d hd
  refine ⟨0, ?_, fun _ => rfl⟩
  rw [← hd, ← depth?_add_of_ne hy (.names xs :: Γ)]
  simp [add]

/-- The layer of a class body, which declares one name only. -/
theorem Sees.class {β β' : Book} {scope : Lexical.Scope} {f : FrameId} {chain : List FrameId}
    {l : Layer} {Γ : List Layer} {x : String} {c : Lexical.CellId} (h : Sees β scope chain Γ)
    (hbook : ∀ (c : Lexical.CellId) (p : FrameId × String), β[c]? = some p → β'[c]? = some p)
    (hc : β'[c]? = some (f, x)) (hl : ∀ y, l.declares y = (y == x)) :
    Sees β' (scope.insert x c) (f :: chain) (l :: Γ) := by
  refine h.insert hbook hc (depth?_cons_of_declares Γ (by simp [hl])) rfl ?_
  intro y hy d hd
  refine ⟨1, ?_, fun _ => rfl⟩
  rw [depth?_cons_of_not_declares Γ (by simpa [hl] using hy), hd]

/-! ## Variables -/

/-- The variables of the two machines have the same values. -/
structure VarsRelated (β : Book) (store : Store) (cells : Array Value) (globals : Bindings Value) :
    Prop where
  size_pos : 0 < store.frames.size
  globals : ∀ x, globals.get? x = (store.frame 0).get? x
  size_eq : β.size = cells.size
  cells : ∀ (c : Lexical.CellId) (f : FrameId) (x : String), β[c]? = some (f, x) →
    f ≠ 0 ∧ f < store.frames.size ∧ (store.frame f).get? x = cells[c]?
  injective : ∀ (c c' : Lexical.CellId) (f : FrameId) (x : String), IsName x →
    β[c]? = some (f, x) → β[c']? = some (f, x) → c = c'

/-- To bind a name never touches `this` or `super`. -/
theorem Store.fixed_bind (s : Store) (f : FrameId) {x : String} (hx : IsName x) (v : Value)
    (g : FrameId) {y : String} (hy : ¬ IsName y) {w : Value} (hw : (s.frame g).get? y = some w) :
    ((s.bind f x v).frame g).get? y = some w := by
  by_cases hf : f < s.frames.size
  · rw [frame_bind s hf]
    split
    · have hne : x ≠ y := fun heq => hy (heq ▸ hx)
      rwa [Bindings.get?_insert_of_ne _ _ hne]
    · exact hw
  · rwa [bind_of_le (Nat.le_of_not_lt hf)]

theorem Book.push_of_some {β : Book} {p q : FrameId × String} {c : Lexical.CellId}
    (h : β[c]? = some q) : (β.push p)[c]? = some q := by
  have hlt : c < β.size := by
    rcases Array.getElem?_eq_some_iff.1 h with ⟨hlt, -⟩
    exact hlt
  rwa [Array.getElem?_push_lt hlt, ← Array.getElem?_eq_getElem hlt]

/-- An entry of the longer book is the new one, or an old one. -/
theorem Book.of_push {β : Book} {p q : FrameId × String} {c : Lexical.CellId}
    (h : (β.push p)[c]? = some q) : (c = β.size ∧ q = p) ∨ β[c]? = some q := by
  rw [Array.getElem?_push] at h
  split at h
  · cases h
    exact .inl ⟨by assumption, rfl⟩
  · exact .inr h

namespace VarsRelated

variable {β : Book} {s : Store} {cells : Array Value} {globals : Bindings Value}

/-- A cell for a name may be added in the own frame; those for `this` and `super` in any. -/
theorem later_push {p : FrameId × String} {s' : Store} {own : Option FrameId}
    (hsize : s.frames.size ≤ s'.frames.size)
    (hfixed : ∀ (f : FrameId) (x : String) (v : Value), ¬ IsName x →
      (s.frame f).get? x = some v → (s'.frame f).get? x = some v)
    (hown : IsName p.2 → own = some p.1) : Later own β s (β.push p) s' where
  book _ _ h := Book.push_of_some h
  size_le := hsize
  fixed := hfixed
  new c f x hnone hsome hx := by
    rcases Book.of_push hsome with ⟨-, rfl⟩ | hold
    · exact .inr (hown hx)
    · simp [hnone] at hold

/-- A new variable, in a frame that has no cell for its name. -/
theorem declare (h : VarsRelated β s cells globals) {f : FrameId} {x : String} (hx : IsName x)
    (hne : f ≠ 0) (hlt : f < s.frames.size)
    (hfresh : ∀ c : Lexical.CellId, β[c]? ≠ some (f, x)) (v : Value) :
    VarsRelated (β.push (f, x)) (s.bind f x v) (cells.push v) globals ∧
      Later (some f) β s (β.push (f, x)) (s.bind f x v) := by
  refine ⟨⟨?_, ?_, ?_, ?_, ?_⟩, later_push ?_ ?_ fun _ => rfl⟩
  · simpa [Store.size_bind] using h.size_pos
  · intro y
    rw [Store.frame_bind s hlt, if_neg hne]
    exact h.globals y
  · simp [h.size_eq]
  · intro c g y hbook
    rw [Store.size_bind, Store.frame_bind s hlt]
    rcases Book.of_push hbook with ⟨rfl, heq⟩ | hold
    · cases heq
      exact ⟨hne, hlt, by simp [h.size_eq]⟩
    · rcases h.cells c g y hold with ⟨hg, hglt, hcell⟩
      have hc : c < cells.size := by
        rw [← h.size_eq]
        exact (Array.getElem?_eq_some_iff.1 hold).1
      refine ⟨hg, hglt, ?_⟩
      rw [Array.getElem?_push, if_neg (Nat.ne_of_lt hc), ← hcell]
      split
      · rename_i hfg
        have hxy : x ≠ y := by
          rintro rfl
          exact hfresh c (hfg ▸ hold)
        rw [Bindings.get?_insert_of_ne _ _ hxy]
      · rfl
  · -- No old cell stands for the new variable, since its frame had none for that name.
    intro c c' g y hy hbook hbook'
    rcases Book.of_push hbook with ⟨rfl, heq⟩ | hold <;>
      rcases Book.of_push hbook' with ⟨rfl, heq'⟩ | hold'
    · rfl
    · exact absurd (heq ▸ hold') (hfresh c')
    · exact absurd (heq' ▸ hold) (hfresh c)
    · exact h.injective c c' g y hy hold hold'
  · exact Nat.le_of_eq (Store.size_bind s f x v).symm
  · intro g y w hy hw
    exact Store.fixed_bind s f hx v g hy hw

/-- One more cell for a variable that nobody assigns to. -/
theorem share (h : VarsRelated β s cells globals) {f : FrameId} {x : String} (hx : ¬ IsName x)
    (hne : f ≠ 0) (hlt : f < s.frames.size) {v : Value} (hv : (s.frame f).get? x = some v) :
    VarsRelated (β.push (f, x)) s (cells.push v) globals ∧
      Later none β s (β.push (f, x)) s := by
  refine ⟨⟨h.size_pos, h.globals, by simp [h.size_eq], ?_, ?_⟩,
    later_push (Nat.le_refl _) (fun _ _ _ _ hw => hw) fun hname => absurd hname hx⟩
  · intro c g y hbook
    -- the new cell holds what the frame holds; the old ones stand for what they stood for
    rcases Book.of_push hbook with ⟨rfl, heq⟩ | hold
    · cases heq
      exact ⟨hne, hlt, by simp [h.size_eq, hv]⟩
    · have hc : c < cells.size := by
        rw [← h.size_eq]
        exact (Array.getElem?_eq_some_iff.1 hold).1
      rw [Array.getElem?_push, if_neg (Nat.ne_of_lt hc)]
      exact h.cells c g y hold
  · intro c c' g y hy hbook hbook'
    -- two cells may stand for `this` or `super`, which are no names
    rcases Book.of_push hbook with ⟨rfl, heq⟩ | hold
    · cases heq
      exact absurd hy hx
    · rcases Book.of_push hbook' with ⟨rfl, heq'⟩ | hold'
      · cases heq'
        exact absurd hy hx
      · exact h.injective c c' g y hy hold hold'

theorem frame_get?_push (s : Store) (frame : Frame) {f : FrameId} {x : String} {v : Value}
    (h : (s.frame f).get? x = some v) : (Store.frame ⟨s.frames.push frame⟩ f).get? x = some v := by
  by_cases hf : f < s.frames.size
  · rwa [Store.frame_push s frame hf]
  · rw [Store.frame_of_le (Nat.le_of_not_lt hf)] at h
    cases h

/-- A new frame, which has no cells yet. -/
theorem pushFrame (h : VarsRelated β s cells globals) (frame : Frame) :
    VarsRelated β ⟨s.frames.push frame⟩ cells globals ∧
      Later none β s β ⟨s.frames.push frame⟩ := by
  refine ⟨⟨by simp, ?_, h.size_eq, ?_, h.injective⟩, ⟨fun _ _ hp => hp, by simp, ?_, ?_⟩⟩
  · intro x
    rw [Store.frame_push s frame h.size_pos]
    exact h.globals x
  · intro c f x hbook
    rcases h.cells c f x hbook with ⟨hne, hlt, hcell⟩
    rw [Store.frame_push s frame hlt]
    exact ⟨hne, by simpa using Nat.lt_succ_of_lt hlt, hcell⟩
  · intro f x v _ hv
    exact frame_get?_push s frame hv
  · intro c f x hnone hsome
    simp [hnone] at hsome

/-- A scope that is entered in a new frame. -/
theorem stands_pushFrame (h : VarsRelated β s cells globals) {scope : Lexical.Scope}
    {chain : List FrameId} {Γ : List Layer} (hsees : Sees β scope chain Γ) :
    Stands β ⟨s.frames.push .empty⟩ ⟨s.frames.size, chain⟩ (.inner scope) (.names [] :: Γ) := by
  refine .inner (Nat.ne_of_gt h.size_pos) (by simp) ?_ (hsees.cons _)
  -- Whatever has a cell is in a frame that was there before, so the new frame owns nothing.
  intro c x hbook _
  exact absurd (h.cells c _ x hbook).2.1 (Nat.lt_irrefl _)

/-- An assignment to a variable that has a cell. -/
theorem setCell (h : VarsRelated β s cells globals) {c : Lexical.CellId} {f : FrameId} {x : String}
    (hx : IsName x) (hc : β[c]? = some (f, x)) (v : Value) :
    VarsRelated β (s.bind f x v) (cells.setIfInBounds c v) globals ∧
      Later none β s β (s.bind f x v) := by
  rcases h.cells c f x hc with ⟨hne, hlt, -⟩
  refine ⟨⟨?_, ?_, by simpa using h.size_eq, ?_, h.injective⟩,
    ⟨fun _ _ hp => hp, Nat.le_of_eq (Store.size_bind s f x v).symm, ?_, ?_⟩⟩
  · simpa [Store.size_bind] using h.size_pos
  · intro y
    rw [Store.frame_bind s hlt, if_neg hne]
    exact h.globals y
  · intro c' g y hbook
    rcases h.cells c' g y hbook with ⟨hg, hglt, hcell⟩
    refine ⟨hg, by simpa [Store.size_bind] using hglt, ?_⟩
    rw [Store.frame_bind s hlt]
    by_cases hcc : c = c'
    · subst hcc
      have heq := hc.symm.trans hbook
      cases heq
      have hsize : c < cells.size := by
        rw [← h.size_eq]
        exact (Array.getElem?_eq_some_iff.1 hc).1
      simp [hsize]
    · -- Another cell stands for another variable.
      have hother : ¬ (f = g ∧ x = y) := by
        rintro ⟨rfl, rfl⟩
        exact hcc (h.injective c c' f x hx hc hbook)
      rw [Array.getElem?_setIfInBounds_ne hcc, ← hcell]
      split
      · rename_i hfg
        rw [Bindings.get?_insert_of_ne _ _ fun hxy => hother ⟨hfg, hxy⟩]
      · rfl
  · intro g y w hy hw
    exact Store.fixed_bind s f hx v g hy hw
  · intro c' g y hnone hsome
    simp [hnone] at hsome

/-- An assignment to a global variable, or the declaration of one. -/
theorem setGlobal (h : VarsRelated β s cells globals) {x : String} (hx : IsName x) (v : Value) :
    VarsRelated β (s.bind 0 x v) cells (globals.insert x v) ∧
      Later none β s β (s.bind 0 x v) := by
  refine ⟨⟨?_, ?_, h.size_eq, ?_, h.injective⟩,
    ⟨fun _ _ hp => hp, Nat.le_of_eq (Store.size_bind s 0 x v).symm, ?_, ?_⟩⟩
  · simpa [Store.size_bind] using h.size_pos
  · intro y
    rw [Store.frame_bind s h.size_pos, if_pos rfl, Bindings.get?_insert, Bindings.get?_insert,
      h.globals y]
  · intro c f y hbook
    rcases h.cells c f y hbook with ⟨hne, hlt, hcell⟩
    refine ⟨hne, by simpa [Store.size_bind] using hlt, ?_⟩
    rw [Store.frame_bind s h.size_pos, if_neg (Ne.symm hne)]
    exact hcell
  · intro g y w hy hw
    exact Store.fixed_bind s 0 hx v g hy hw
  · intro c f y hnone hsome
    simp [hnone] at hsome

end VarsRelated

/-! ## Initializers that leave their variable alone -/

mutual

/-- Whether an expression contains an assignment to a name. -/
def Expr.assigns (x : String) : Expr → Bool
  | .assign _ name value => name.lexeme == x || value.assigns x
  | .binary _ left _ right | .logical _ left _ right => left.assigns x || right.assigns x
  | .call _ callee _ arguments => callee.assigns x || Expr.anyAssigns x arguments
  | .get _ e _ | .grouping _ e | .unary _ _ e => e.assigns x
  | .set _ object _ value => object.assigns x || value.assigns x
  | .literal _ _ | .super _ _ _ | .this _ _ | .variable _ => false

def Expr.anyAssigns (x : String) : List Expr → Bool
  | [] => false
  | e :: es => e.assigns x || Expr.anyAssigns x es

end

mutual

/-- Whether no initializer of a local variable contains an assignment to that variable. The
statement itself stands at the top level or in a local scope. -/
def Stmt.selfFree (isLocal : Bool) : Stmt → Bool
  | .block body => Stmt.allSelfFree true body
  | .classDecl _ _ methods => FunctionDecl.allSelfFree methods
  | .function decl => decl.selfFree
  | .ifElse _ thenBranch none => thenBranch.selfFree isLocal
  | .ifElse _ thenBranch (some elseBranch) =>
      thenBranch.selfFree isLocal && elseBranch.selfFree isLocal
  | .varDecl name (some e) => !(isLocal && e.assigns name.lexeme)
  | .whileLoop _ body => body.selfFree isLocal
  | .expression _ | .print _ | .returnValue _ _ | .varDecl _ none => true

def Stmt.allSelfFree (isLocal : Bool) : List Stmt → Bool
  | [] => true
  | s :: ss => s.selfFree isLocal && Stmt.allSelfFree isLocal ss

def FunctionDecl.selfFree : FunctionDecl → Bool
  | ⟨_, _, body⟩ => Stmt.allSelfFree true body

def FunctionDecl.allSelfFree : List FunctionDecl → Bool
  | [] => true
  | decl :: decls => decl.selfFree && FunctionDecl.allSelfFree decls

end

theorem FunctionDecl.selfFree_of_mem {decls : List FunctionDecl}
    (h : FunctionDecl.allSelfFree decls = true) : ∀ decl ∈ decls, decl.selfFree = true := by
  induction decls with
  | nil => exact fun _ hdecl => by cases hdecl
  | cons decl decls ih =>
      rcases Bool.and_eq_true_iff.1 h with ⟨hfirst, hrest⟩
      exact List.forall_mem_cons.2 ⟨hfirst, ih hrest⟩

/-- The parameters of a function play no part in whether its body is free of self-assignment. -/
theorem FunctionDecl.selfFree_eq (decl : FunctionDecl) :
    decl.selfFree = Stmt.allSelfFree true decl.body := by
  cases decl
  rfl

mutual

/-- In such an initializer, every use of a name means what it means around the declaration. -/
theorem Expr.linked_none {A : Addresses} {Γ : List Layer} {x : String} : ∀ e : Expr,
    e.Linked A Γ (some x) → e.assigns x = false → e.Linked A Γ none
  | .assign _ name value, ⟨hvalue, hname, hid⟩, hassigns => by
      rcases Bool.or_eq_false_iff.1 hassigns with ⟨hne, hassigns⟩
      have hself : ¬ some x = some name.lexeme := by
        rintro ⟨⟩
        simp at hne
      rw [if_neg hself] at hid
      exact ⟨Expr.linked_none value hvalue hassigns, hname, by simpa using hid⟩
  | .binary _ left _ right, h, hassigns | .logical _ left _ right, h, hassigns => by
      rcases Bool.or_eq_false_iff.1 hassigns with ⟨hleft, hright⟩
      exact ⟨Expr.linked_none left h.1 hleft, Expr.linked_none right h.2 hright⟩
  | .call _ callee _ arguments, h, hassigns => by
      rcases Bool.or_eq_false_iff.1 hassigns with ⟨hcallee, harguments⟩
      exact ⟨Expr.linked_none callee h.1 hcallee, Expr.allLinked_none arguments h.2 harguments⟩
  | .get _ e _, h, hassigns | .grouping _ e, h, hassigns | .unary _ _ e, h, hassigns =>
      Expr.linked_none e h hassigns
  | .set _ object _ value, h, hassigns => by
      rcases Bool.or_eq_false_iff.1 hassigns with ⟨hobject, hvalue⟩
      exact ⟨Expr.linked_none object h.1 hobject, Expr.linked_none value h.2 hvalue⟩
  | .literal _ _, h, _ | .super _ _ _, h, _ | .this _ _, h, _ | .variable _, h, _ => h

/-- An expression that never assigns to its own variable does not need to know of it. -/
theorem Expr.allLinked_none {A : Addresses} {Γ : List Layer} {x : String} : ∀ es : List Expr,
    Expr.AllLinked A Γ (some x) es → Expr.anyAssigns x es = false → Expr.AllLinked A Γ none es
  | [], _, _ => trivial
  | e :: es, h, hassigns => by
      rcases Bool.or_eq_false_iff.1 hassigns with ⟨he, hes⟩
      exact ⟨Expr.linked_none e h.1 he, Expr.allLinked_none es h.2 hes⟩

end

/-! ## Functions and classes -/

/-- The scope of a function with what a call adds to it, and the frames that hold the same. -/
inductive Captures (β : Book) (store : Store) (scope : Lexical.Scope) :
    Option ClassId → Option ObjectId → List FrameId → List Layer → Prop where
  | plain {chain : List FrameId} {Γ : List Layer} :
      Sees β scope chain Γ → Captures β store scope none none chain Γ
  | super {chain : List FrameId} {Γ : List Layer} {f : FrameId} {classId : ClassId} :
      f ≠ 0 → f < store.frames.size → (store.frame f).get? "super" = some (.classRef classId) →
      Sees β scope chain Γ →
      Captures β store scope (some classId) none (f :: chain) (.super :: Γ)
  | this {superclass : Option ClassId} {chain : List FrameId} {Γ : List Layer} {f : FrameId}
      {object : ObjectId} :
      f ≠ 0 → f < store.frames.size → (store.frame f).get? "this" = some (.object object) →
      Captures β store scope superclass none chain Γ →
      Captures β store scope superclass (some object) (f :: chain) (.this :: Γ)

theorem not_isName_this : ¬ IsName "this" := fun h => h.1 rfl

theorem not_isName_super : ¬ IsName "super" := fun h => h.2 rfl

/-- What a function has closed over stays as it is. -/
theorem Captures.mono {own : Option FrameId} {β β' : Book} {s s' : Store}
    (hlater : Later own β s β' s') {scope : Lexical.Scope} {superclass : Option ClassId}
    {this : Option ObjectId} {chain : List FrameId} {Γ : List Layer}
    (h : Captures β s scope superclass this chain Γ) :
    Captures β' s' scope superclass this chain Γ := by
  induction h with
  | plain hsees => exact .plain (hsees.mono hlater)
  | super hne hlt hget hsees =>
      exact .super hne (Nat.lt_of_lt_of_le hlt hlater.size_le)
        (hlater.fixed _ _ _ not_isName_super hget) (hsees.mono hlater)
  | this hne hlt hget _ ih =>
      exact .this hne (Nat.lt_of_lt_of_le hlt hlater.size_le)
        (hlater.fixed _ _ _ not_isName_this hget) ih

/-- The innermost frame of a method that is bound to an object holds the object. -/
theorem Captures.get?_this {β : Book} {s : Store} {scope : Lexical.Scope}
    {superclass : Option ClassId} {this : Option ObjectId} {object : ObjectId} {env : Env}
    {Γ : List Layer} (h : Captures β s scope superclass this env.chain Γ)
    (hthis : this = some object) : (s.frame env.frame).get? "this" = some (.object object) := by
  generalize hchain : env.chain = chain at h
  cases h with
  | plain _ | super _ _ _ _ => cases hthis
  | this _ _ hget _ =>
      cases hchain
      cases hthis
      exact hget

/-- A function of either machine: the declarations are the same, and so is what they see. -/
structure FunctionRelated (A : Addresses) (β : Book) (store : Store) (f : Closure)
    (g : Lexical.Closure) : Prop where
  decl_eq : g.decl = f.decl
  isInitializer_eq : g.isInitializer = f.isInitializer
  selfFree : f.decl.selfFree = true
  bound : f.isInitializer = true → ∃ object, g.this = some object
  captures : ∃ Γ, Captures β store g.scope g.superclass g.this f.env.chain Γ ∧ f.decl.Linked A Γ

/-- A method as its class keeps it. -/
structure MethodRelated (A : Addresses) (β : Book) (store : Store) (f : Closure)
    (g : Lexical.Closure) : Prop where
  decl_eq : g.decl = f.decl
  isInitializer_eq : g.isInitializer = f.isInitializer
  selfFree : f.decl.selfFree = true
  captures : ∃ Γ, Captures β store g.scope g.superclass none f.env.chain Γ ∧
    f.decl.Linked A (.this :: Γ)

structure ClassRelated (A : Addresses) (β : Book) (store : Store) (c : ClassInfo)
    (d : Lexical.ClassInfo) : Prop where
  name_eq : d.name = c.name
  ancestors_eq : d.ancestors = c.ancestors
  methods : ∀ x, Option.Rel (MethodRelated A β store) (c.methods.get? x) (d.methods.get? x)

theorem FunctionRelated.mono {A : Addresses} {own : Option FrameId} {β β' : Book} {s s' : Store}
    (hlater : Later own β s β' s') {f : Closure} {g : Lexical.Closure}
    (h : FunctionRelated A β s f g) : FunctionRelated A β' s' f g := by
  rcases h.captures with ⟨Γ, hcaptures, hlinked⟩
  exact ⟨h.decl_eq, h.isInitializer_eq, h.selfFree, h.bound, Γ, hcaptures.mono hlater, hlinked⟩

theorem MethodRelated.mono {A : Addresses} {own : Option FrameId} {β β' : Book} {s s' : Store}
    (hlater : Later own β s β' s') {f : Closure} {g : Lexical.Closure}
    (h : MethodRelated A β s f g) : MethodRelated A β' s' f g := by
  rcases h.captures with ⟨Γ, hcaptures, hlinked⟩
  exact ⟨h.decl_eq, h.isInitializer_eq, h.selfFree, Γ, hcaptures.mono hlater, hlinked⟩

theorem ClassRelated.mono {A : Addresses} {own : Option FrameId} {β β' : Book} {s s' : Store}
    (hlater : Later own β s β' s') {c : ClassInfo} {d : Lexical.ClassInfo}
    (h : ClassRelated A β s c d) : ClassRelated A β' s' c d :=
  ⟨h.name_eq, h.ancestors_eq, fun x => rel_mono (fun _ _ hf => hf.mono hlater) (h.methods x)⟩

/-! ## Machines -/

structure Related (A : Addresses) (β : Book) (m : Machine) (r : Lexical.Machine) : Prop where
  vars : VarsRelated β m.store r.cells r.globals
  functions_size : m.functions.size = r.functions.size
  functions : ∀ id, FunctionRelated A β m.store (m.function id) (r.function id)
  classes_size : m.classes.size = r.classes.size
  classes : ∀ id, ClassRelated A β m.store (m.classInfo id) (r.classInfo id)
  objects : m.objects = r.objects
  output : m.output = r.output
  readings : m.readings = r.readings

/-- What happens to variables does not touch anything else. -/
theorem Related.withVars {A : Addresses} {own : Option FrameId} {β β' : Book} {m : Machine}
    {r : Lexical.Machine} {store : Store} {cells : Array Value} {globals : Bindings Value}
    (h : Related A β m r)
    (hvars : VarsRelated β' store cells globals ∧ Later own β m.store β' store) :
    Related A β' { m with store } { r with cells, globals } where
  vars := hvars.1
  functions_size := h.functions_size
  functions id := (h.functions id).mono hvars.2
  classes_size := h.classes_size
  classes id := (h.classes id).mono hvars.2
  objects := h.objects
  output := h.output
  readings := h.readings

/-- A list of classes has a method of some name in both machines or in neither. -/
theorem Related.findMethod? {A : Addresses} {β : Book} {m : Machine} {r : Lexical.Machine}
    (h : Related A β m r) (id : ClassId) (name : String) :
    Option.Rel (MethodRelated A β m.store) (m.findMethod? id name) (r.findMethod? id name) := by
  have hlineage : r.lineage id = m.lineage id :=
    congrArg (id :: ·) (h.classes id).ancestors_eq
  unfold Machine.findMethod? Lexical.Machine.findMethod?
  rw [hlineage]
  induction m.lineage id with
  | nil => exact .none
  | cons c cs ih =>
      have hc := (h.classes c).methods name
      rw [List.findSome?_cons, List.findSome?_cons]
      generalize (m.classInfo c).methods.get? name = f at hc
      generalize (r.classInfo c).methods.get? name = g at hc
      cases hc with
      | none => exact ih
      | some hmethod => exact .some hmethod

/-- Both machines say the same of a value. -/
theorem Related.text_eq {A : Addresses} {β : Book} {m : Machine} {r : Lexical.Machine}
    (h : Related A β m r) (v : Value) : m.text v = r.text v := by
  cases v with
  | function id => simp [Machine.text, Lexical.Machine.text, (h.functions id).decl_eq]
  | classRef id => simp [Machine.text, Lexical.Machine.text, (h.classes id).name_eq]
  | object id =>
      have hobject : r.object id = m.object id := by
        simp [Machine.object, Lexical.Machine.object, h.objects]
      simp [Machine.text, Lexical.Machine.text, hobject, (h.classes _).name_eq]
  | _ => rfl

/-- A function that is related may be added on both sides. -/
theorem Related.pushFunction {A : Addresses} {β : Book} {m : Machine} {r : Lexical.Machine}
    (h : Related A β m r) {f : Closure} {g : Lexical.Closure}
    (hf : FunctionRelated A β m.store f g) :
    Related A β { m with functions := m.functions.push f }
      { r with functions := r.functions.push g } where
  vars := h.vars
  functions_size := by simp [h.functions_size]
  functions id := by
    have hnew : Lexical.Machine.function { r with functions := r.functions.push g } id =
        if id = r.functions.size then g else r.function id := getD_push ..
    rw [Machine.function_push, hnew, ← h.functions_size]
    split
    · exact hf
    · exact h.functions id
  classes_size := h.classes_size
  classes := h.classes
  objects := h.objects
  output := h.output
  readings := h.readings

/-- A class that is related may be added on both sides. -/
theorem Related.pushClass {A : Addresses} {β : Book} {m : Machine} {r : Lexical.Machine}
    (h : Related A β m r) {c : ClassInfo} {d : Lexical.ClassInfo}
    (hc : ClassRelated A β m.store c d) :
    Related A β { m with classes := m.classes.push c } { r with classes := r.classes.push d } where
  vars := h.vars
  functions_size := h.functions_size
  functions := h.functions
  classes_size := by simp [h.classes_size]
  classes id := by
    have hnew : Lexical.Machine.classInfo { r with classes := r.classes.push d } id =
        if id = r.classes.size then d else r.classInfo id := getD_push ..
    rw [Machine.classInfo_push, hnew, ← h.classes_size]
    split
    · exact hc
    · exact h.classes id
  objects := h.objects
  output := h.output
  readings := h.readings

/-- Before anything has run, only the globals are there. -/
theorem related_start (A : Addresses) : Related A #[] Machine.start Lexical.Machine.start := by
  refine ⟨⟨by decide, fun _ => rfl, rfl, ?_, ?_⟩, rfl, ?_, rfl, ?_, rfl, rfl, rfl⟩
  · intro c f x hbook
    simp at hbook
  · intro c c' f x _ hbook
    simp at hbook
  · intro id
    exact ⟨rfl, rfl, rfl, (fun h => by cases h), [], .plain fun x => rfl,
      FunctionDecl.linked_default A []⟩
  · intro id
    exact ⟨rfl, rfl, fun x => .none⟩

end LoxLang
