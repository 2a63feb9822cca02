import LoxLang.Proofs.Eval.Alike
import LoxLang.Proofs.Eval.Growth
import LoxLang.Proofs.Eval.Proceed
import Mathlib.Logic.Relator
import Mathlib.Order.Basic

/-!
# Machines with other frames

Two machines that run one program, and keep its variables in frames that need not be the same ones.

* A `Pairing` says which frames of one machine stand for which frames of another one. By
  `Store.Paired`, such frames bind the same.
* `Parallel ρ chain chain' Γ`: two chains of frames for the layers `Γ`. The frames of a layer stand
  for each other; only where a layer declares nothing, so that nothing is ever found there, it may
  have any frames.
* `Machine.Reframed A ρ m m'`: apart from their frames, and from the environments of their
  functions, the machines are the same.
* `Abreast A ρ x x' Q`: from such machines, two actions lead to such machines again. They give
  results that are related by `Q`, or halt for the same reason. Every single step is abreast of
  itself.
-/

namespace LoxLang

open Layer

/-! ## Frames -/

/-- Which frames stand for which. -/
abbrev Pairing := FrameId → FrameId → Prop

def Pairing.add (ρ : Pairing) (f g : FrameId) : Pairing := fun a b => ρ a b ∨ a = f ∧ b = g

theorem Pairing.le_add (ρ : Pairing) (f g : FrameId) : ρ ≤ ρ.add f g := fun _ _ => .inl

theorem Pairing.add_self (ρ : Pairing) (f g : FrameId) : ρ.add f g f g := .inr ⟨rfl, rfl⟩

/-- Every frame of a store stands for itself. -/
def Store.itself (s : Store) : Pairing := fun f g => f = g ∧ f < s.frames.size

/-- Frames that stand for each other bind the same, and stand for no others. -/
structure Store.Paired (ρ : Pairing) (s s' : Store) : Prop where
  globals : ρ 0 0
  unique : Relator.BiUnique ρ
  lt_size : ∀ f g, ρ f g → f < s.frames.size ∧ g < s'.frames.size
  frame_eq : ∀ f g, ρ f g → s'.frame g = s.frame f

namespace Store.Paired

variable {ρ : Pairing} {s s' : Store}

/-- At the start every frame is paired with itself. -/
theorem itself (h : 0 < s.frames.size) : s.Paired s.itself s where
  globals := ⟨rfl, h⟩
  unique := ⟨fun _ _ _ hac hbc => hac.1.trans hbc.1.symm, fun _ _ _ hab hac => hab.1.symm.trans hac.1⟩
  lt_size f g hfg := ⟨hfg.2, hfg.1 ▸ hfg.2⟩
  frame_eq f g hfg := by rw [hfg.1]

/-- Binding a name to one value in two frames that are paired keeps the stores paired. -/
theorem bind (h : s.Paired ρ s') {f g : FrameId} (hfg : ρ f g) (x : String) (v : Value) :
    (s.bind f x v).Paired ρ (s'.bind g x v) where
  globals := h.globals
  unique := h.unique
  lt_size a b hab := by simpa only [size_bind] using h.lt_size a b hab
  frame_eq a b hab := by
    -- No frame is changed without the one that it stands for.
    have hsame : g = b ↔ f = a :=
      ⟨fun heq => h.unique.1 hfg (heq ▸ hab), fun heq => h.unique.2 hfg (heq ▸ hab)⟩
    rw [frame_bind s (h.lt_size f g hfg).1, frame_bind s' (h.lt_size f g hfg).2,
      h.frame_eq a b hab]
    simp only [hsame]

/-- A frame that is made in both stores. -/
theorem push (h : s.Paired ρ s') (frame : Frame) :
    Store.Paired (ρ.add s.frames.size s'.frames.size) ⟨s.frames.push frame⟩
      ⟨s'.frames.push frame⟩ where
  globals := .inl h.globals
  -- The new frames stand for each other. All older pairs lie within the stores, so they meet
  -- neither.
  unique := by
    constructor
    · rintro a b c (hac | ⟨rfl, hc⟩) (hbc | ⟨rfl, hc'⟩)
      · exact h.unique.1 hac hbc
      · exact absurd (h.lt_size a c hac).2 (hc' ▸ Nat.lt_irrefl _)
      · exact absurd (h.lt_size b c hbc).2 (hc ▸ Nat.lt_irrefl _)
      · rfl
    · rintro a b c (hab | ⟨ha, rfl⟩) (hac | ⟨ha', rfl⟩)
      · exact h.unique.2 hab hac
      · exact absurd (h.lt_size a b hab).1 (ha' ▸ Nat.lt_irrefl _)
      · exact absurd (h.lt_size a c hac).1 (ha ▸ Nat.lt_irrefl _)
      · rfl
  lt_size := by
    rintro f g (hfg | ⟨rfl, rfl⟩)
    · simpa using (h.lt_size f g hfg).imp Nat.lt_succ_of_lt Nat.lt_succ_of_lt
    · simp
  frame_eq := by
    rintro f g (hfg | ⟨rfl, rfl⟩)
    · rw [frame_push s frame (h.lt_size f g hfg).1, frame_push s' frame (h.lt_size f g hfg).2]
      exact h.frame_eq f g hfg
    · rw [frame_push_size, frame_push_size]

/-- A frame that only the first store makes. -/
theorem pushLeft (h : s.Paired ρ s') (frame : Frame) :
    Store.Paired ρ ⟨s.frames.push frame⟩ s' where
  globals := h.globals
  unique := h.unique
  lt_size f g hfg := by
    simpa using (h.lt_size f g hfg).imp_left Nat.lt_succ_of_lt
  frame_eq f g hfg := by
    rw [frame_push s frame (h.lt_size f g hfg).1]
    exact h.frame_eq f g hfg

/-- A frame that only the second store makes. -/
theorem pushRight (h : s.Paired ρ s') (frame : Frame) :
    Store.Paired ρ s ⟨s'.frames.push frame⟩ where
  globals := h.globals
  unique := h.unique
  lt_size f g hfg := by
    simpa using (h.lt_size f g hfg).imp_right Nat.lt_succ_of_lt
  frame_eq f g hfg := by
    rw [frame_push s' frame (h.lt_size f g hfg).2]
    exact h.frame_eq f g hfg

/-- The globals stand for each other. -/
theorem globals_eq (h : s.Paired ρ s') : s'.frame 0 = s.frame 0 := h.frame_eq 0 0 h.globals

end Store.Paired

/-! ## Chains -/

inductive Parallel (ρ : Pairing) : List FrameId → List FrameId → List Layer → Prop where
  | top : Parallel ρ [0] [0] []
  | layer {f g : FrameId} {chain chain' : List FrameId} {l : Layer} {Γ : List Layer} :
      ρ f g → Parallel ρ chain chain' Γ → Parallel ρ (f :: chain) (g :: chain') (l :: Γ)
  /-- Nothing has been declared in this layer. -/
  | spare {f g : FrameId} {chain chain' : List FrameId} {Γ : List Layer} :
      Parallel ρ chain chain' Γ → Parallel ρ (f :: chain) (g :: chain') (.names [] :: Γ)

namespace Parallel

variable {ρ ρ' : Pairing} {Γ : List Layer}

/-- More pairs keep chains parallel. -/
theorem mono (hle : ρ ≤ ρ') {chain chain' : List FrameId} (h : Parallel ρ chain chain' Γ) :
    Parallel ρ' chain chain' Γ := by
  induction h with
  | top => exact .top
  | layer hfg _ ih => exact .layer (hle _ _ hfg) ih
  | spare _ ih => exact .spare ih

/-- A chain whose frames are all there is parallel to itself. -/
theorem itself {s : Store} {chain : List FrameId} (h : Matches s chain Γ) :
    Parallel s.itself chain chain Γ := by
  induction h with
  | top _ => exact .top
  | layer _ hframe _ _ ih => exact .layer ⟨rfl, hframe.lt_size⟩ ih

/-- A declaration needs frames that stand for each other. -/
theorem add {f g : FrameId} {chain chain' : List FrameId}
    (h : Parallel ρ (f :: chain) (g :: chain') Γ) (hfg : ρ f g) (x : String) :
    Parallel ρ (f :: chain) (g :: chain') (add x Γ) := by
  match h with
  | .top => exact .top
  | @layer _ _ _ _ _ (.names _) _ _ hrest => exact .layer hfg hrest
  | @layer _ _ _ _ _ .this _ _ hrest => exact .layer hfg hrest
  | @layer _ _ _ _ _ .super _ _ hrest => exact .layer hfg hrest
  | .spare hrest => exact .layer hfg hrest

/-- Behind a statement there is what it declares. -/
theorem after {env env' : Env} (h : Parallel ρ env.chain env'.chain Γ) {s : Stmt}
    (hlead : s.declared? ≠ none → ρ env.frame env'.frame) :
    Parallel ρ env.chain env'.chain (s.after Γ) := by
  unfold Stmt.after
  cases hdeclared : s.declared? with
  | none => exact h
  | some x =>
      rw [hdeclared] at hlead
      exact h.add (hlead nofun) x

/-- Some layers out, the frames of a layer that declares something stand for each other. -/
theorem ancestor {env env' : Env} (h : Parallel ρ env.chain env'.chain Γ) {d : Nat} {l : Layer}
    (hd : Γ[d]? = some l) {x : String} (hx : l.declares x = true) :
    ∃ a a', env.ancestor d = .ok a ∧ env'.ancestor d = .ok a' ∧ ρ a.frame a'.frame := by
  induction d generalizing env env' Γ with
  | zero =>
      refine ⟨env, env', rfl, rfl, ?_⟩
      generalize hchain : env.chain = chain at h
      generalize hchain' : env'.chain = chain' at h
      cases h with
      | top => cases hd
      | layer hfg _ =>
          cases hchain
          cases hchain'
          exact hfg
      | spare _ =>
          cases hd
          cases hx
  | succ d ih =>
      rcases env with ⟨f, enclosing⟩
      rcases env' with ⟨g, enclosing'⟩
      -- Both chains go on, since there is one more layer.
      have hrest : ∃ Γ', Γ'[d]? = some l ∧ Parallel ρ enclosing enclosing' Γ' := by
        cases h with
        | top => cases hd
        | layer _ hrest => exact ⟨_, hd, hrest⟩
        | spare hrest => exact ⟨_, hd, hrest⟩
      rcases hrest with ⟨Γ', hd', hrest⟩
      match enclosing, enclosing', hrest with
      | f' :: enclosing, g' :: enclosing', hrest =>
          have hinner : Parallel ρ (Env.chain ⟨f', enclosing⟩) (Env.chain ⟨g', enclosing'⟩) Γ' :=
            hrest
          exact ih hinner hd'

/-- Names at the same depth are found in frames that are paired. -/
theorem ancestor_of_depth {env env' : Env} (h : Parallel ρ env.chain env'.chain Γ) {x : String}
    {d : Nat} (hd : depth? x Γ = some d) :
    ∃ a a', env.ancestor d = .ok a ∧ env'.ancestor d = .ok a' ∧ ρ a.frame a'.frame := by
  rcases getElem?_of_depth? hd with ⟨l, hl, hx⟩
  exact h.ancestor hl hx

end Parallel

/-! ## Functions and classes -/

/-- One function in two environments that are parallel. An initializer is bound to its object. -/
structure Closure.Reframed (A : Addresses) (ρ : Pairing) (f f' : Closure) : Prop where
  decl : f'.decl = f.decl
  isInitializer : f'.isInitializer = f.isInitializer
  linked : ∃ Γ, Parallel ρ f.env.chain f'.env.chain Γ ∧ f.decl.Linked A Γ
  this : f.isInitializer = true → ρ f.env.frame f'.env.frame

/-- One method as two classes keep it, without the layer of an object. -/
structure Closure.Kept (A : Addresses) (ρ : Pairing) (f f' : Closure) : Prop where
  decl : f'.decl = f.decl
  isInitializer : f'.isInitializer = f.isInitializer
  linked : ∃ Γ, Parallel ρ f.env.chain f'.env.chain Γ ∧ f.decl.Linked A (.this :: Γ)

structure ClassInfo.Reframed (A : Addresses) (ρ : Pairing) (c c' : ClassInfo) : Prop where
  name : c'.name = c.name
  ancestors : c'.ancestors = c.ancestors
  methods : ∀ x, Option.Rel (Closure.Kept A ρ) (c.methods.get? x) (c'.methods.get? x)

section Mono

variable {A : Addresses} {ρ ρ' : Pairing}

theorem Closure.Reframed.mono (hle : ρ ≤ ρ') {f f' : Closure} (h : f.Reframed A ρ f') :
    f.Reframed A ρ' f' where
  decl := h.decl
  isInitializer := h.isInitializer
  linked := h.linked.imp fun _ hΓ => hΓ.imp_left (.mono hle)
  this hinit := hle _ _ (h.this hinit)

theorem Closure.Kept.mono (hle : ρ ≤ ρ') {f f' : Closure} (h : f.Kept A ρ f') :
    f.Kept A ρ' f' where
  decl := h.decl
  isInitializer := h.isInitializer
  linked := h.linked.imp fun _ hΓ => hΓ.imp_left (.mono hle)

theorem ClassInfo.Reframed.mono (hle : ρ ≤ ρ') {c c' : ClassInfo} (h : c.Reframed A ρ c') :
    c.Reframed A ρ' c' where
  name := h.name
  ancestors := h.ancestors
  methods x := rel_mono (fun _ _ hf => hf.mono hle) (h.methods x)

theorem Closure.Reframed.arity {f f' : Closure} (h : f.Reframed A ρ f') : f'.arity = f.arity := by
  unfold Closure.arity
  rw [h.decl]

theorem Closure.Kept.arity {f f' : Closure} (h : f.Kept A ρ f') : f'.arity = f.arity := by
  unfold Closure.arity
  rw [h.decl]

end Mono

/-! ## Machines -/

structure Machine.Reframed (A : Addresses) (ρ : Pairing) (m m' : Machine) : Prop where
  store : m.store.Paired ρ m'.store
  size_functions : m'.functions.size = m.functions.size
  functions : ∀ id, (m.function id).Reframed A ρ (m'.function id)
  size_classes : m'.classes.size = m.classes.size
  classes : ∀ id, (m.classInfo id).Reframed A ρ (m'.classInfo id)
  objects : m'.objects = m.objects
  output : m'.output = m.output
  readings : m'.readings = m.readings

namespace Machine.Reframed

variable {A : Addresses} {ρ ρ' : Pairing} {m m' : Machine}

/-- A sound machine has its own frames. -/
theorem itself {G : String → Prop} (h : m.Sound A G) : m.Reframed A m.store.itself m where
  store := .itself h.globals.lt_size
  size_functions := rfl
  functions id := by
    rcases h.functions id with ⟨Γ, hmatches, hlinked, hinit⟩
    refine ⟨rfl, rfl, ⟨Γ, .itself hmatches, hlinked⟩, fun _ => ⟨rfl, hmatches.lt_size⟩⟩
  size_classes := rfl
  classes id := by
    refine ⟨rfl, rfl, fun x => ?_⟩
    cases hget : (m.classInfo id).methods.get? x with
    | none => exact .none
    | some f =>
        rcases h.methods id x f hget with ⟨Γ, hmatches, hlinked⟩
        exact .some ⟨rfl, rfl, Γ, .itself hmatches, hlinked⟩
  objects := rfl
  output := rfl
  readings := rfl

/-- Only the frames differ in more than place, so new stores that are paired are all that has to be
shown. -/
theorem withStore (h : m.Reframed A ρ m') (hle : ρ ≤ ρ') {s s' : Store} (hs : s.Paired ρ' s') :
    Machine.Reframed A ρ' { m with store := s } { m' with store := s' } where
  store := hs
  size_functions := h.size_functions
  functions id := (h.functions id).mono hle
  size_classes := h.size_classes
  classes id := (h.classes id).mono hle
  objects := h.objects
  output := h.output
  readings := h.readings

theorem withObjects (h : m.Reframed A ρ m') (objects : Array ObjectInfo) :
    Machine.Reframed A ρ { m with objects } { m' with objects } :=
  { h with objects := rfl }

/-- The same method is found in both machines, up to the environment it was made in. -/
theorem findMethod? (h : m.Reframed A ρ m') (id : ClassId) (name : String) :
    Option.Rel (Closure.Kept A ρ) (m.findMethod? id name) (m'.findMethod? id name) :=
  findMethod?_rel (congrArg (id :: ·) (h.classes id).ancestors)
    fun c => (h.classes c).methods name

/-- No text shows which frames a function has. -/
theorem text_eq (h : m.Reframed A ρ m') (v : Value) : m'.text v = m.text v :=
  text_congr (fun id => by rw [(h.functions id).decl]) (fun id => (h.classes id).name) h.objects v

end Machine.Reframed

/-! ## Actions -/

inductive EndsAbreast {α α' : Type} (A : Addresses) (ρ : Pairing) (Q : Pairing → α → α' → Prop) :
    EStateM.Result Halt Machine α → EStateM.Result Halt Machine α' → Prop where
  | ok {ρ' : Pairing} {a : α} {a' : α'} {m m' : Machine} :
      ρ ≤ ρ' → m.Reframed A ρ' m' → Q ρ' a a' → EndsAbreast A ρ Q (.ok a m) (.ok a' m')
  | error {ρ' : Pairing} {reason : Halt} {m m' : Machine} :
      ρ ≤ ρ' → m.Reframed A ρ' m' → EndsAbreast A ρ Q (.error reason m) (.error reason m')

def Abreast {α α' : Type} (A : Addresses) (ρ : Pairing) (x : Exec α) (x' : Exec α')
    (Q : Pairing → α → α' → Prop) : Prop :=
  ∀ m m' : Machine, m.Reframed A ρ m' → EndsAbreast A ρ Q (x m) (x' m')

abbrev Abreast.Equal {α : Type} : Pairing → α → α → Prop := fun _ => Eq

section Rules

variable {A : Addresses} {ρ ρ' : Pairing} {α α' β β' : Type} {x : Exec α} {x' : Exec α'}
  {f : α → Exec β} {f' : α' → Exec β'} {Q : Pairing → α → α' → Prop}
  {P : Pairing → β → β' → Prop}

/-- What ends with more pairs ends with them also for those who knew fewer. -/
theorem EndsAbreast.before (hle : ρ ≤ ρ') {r : EStateM.Result Halt Machine α}
    {r' : EStateM.Result Halt Machine α'} (h : EndsAbreast A ρ' Q r r') : EndsAbreast A ρ Q r r' := by
  cases h with
  | ok hle' hm hQ => exact .ok (le_trans hle hle') hm hQ
  | error hle' hm => exact .error (le_trans hle hle') hm

/-- One action after the other, where it matters what the first one does. -/
theorem EndsAbreast.bind {m m' : Machine} (hx : EndsAbreast A ρ Q (x m) (x' m'))
    (hf : ∀ ρ' a a' n n', ρ ≤ ρ' → x m = .ok a n → n.Reframed A ρ' n' → Q ρ' a a' →
      EndsAbreast A ρ' P (f a n) (f' a' n')) :
    EndsAbreast A ρ P ((x >>= f) m) ((x' >>= f') m') := by
  cases hrun : x m with
  | ok a n =>
      rw [Halt.bind_ok hrun]
      rw [hrun] at hx
      generalize hrun' : x' m' = result at hx
      cases hx with
      | ok hle hn hQ =>
          rw [Halt.bind_ok hrun']
          exact (hf _ _ _ _ _ hle hrun hn hQ).before hle
  | error reason n =>
      rw [Halt.bind_error hrun]
      rw [hrun] at hx
      generalize hrun' : x' m' = result at hx
      cases hx with
      | error hle hn =>
          rw [Halt.bind_error hrun']
          exact .error hle hn

namespace Abreast

/-- Two runs that go abreast for one step, and from wherever that leads for the next, go abreast for
both. -/
theorem bind (hx : Abreast A ρ x x' Q)
    (hf : ∀ ρ' a a', ρ ≤ ρ' → Q ρ' a a' → Abreast A ρ' (f a) (f' a') P) :
    Abreast A ρ (x >>= f) (x' >>= f') P :=
  fun m m' hm => (hx m m' hm).bind fun ρ' a a' n n' hle _ hn hQ => hf ρ' a a' hle hQ n n' hn

theorem pure {a : α} {a' : α'} (h : Q ρ a a') : Abreast A ρ (Pure.pure a) (Pure.pure a') Q :=
  fun _ _ hm => .ok le_rfl hm h

/-- Actions that look at their machines first. -/
theorem get_bind {f f' : Machine → Exec β} {P : Pairing → β → β → Prop}
    (h : ∀ m m', m.Reframed A ρ m' → Abreast A ρ (f m) (f' m') P) :
    Abreast A ρ (get >>= f) (get >>= f') P :=
  fun m m' hm => h m m' hm m m' hm

theorem halt (reason : Halt) :
    Abreast A ρ (throw reason : Exec α) (throw reason : Exec α') Q :=
  fun _ _ hm => .error le_rfl hm

theorem raise (fault : RuntimeFault) (token : Token) :
    Abreast A ρ (Exec.raise fault token : Exec α) (Exec.raise fault token : Exec α') Q :=
  halt _

theorem orRaise (token : Token) (result : Except RuntimeFault α) :
    Abreast A ρ (Exec.orRaise token result) (Exec.orRaise token result) Equal := by
  cases result with
  | ok a => exact pure rfl
  | error fault => exact raise fault token

theorem orDefect (result : Except Defect α) :
    Abreast A ρ (Exec.orDefect result) (Exec.orDefect result) Equal := by
  cases result with
  | ok a => exact pure rfl
  | error d => exact halt _

end Abreast

end Rules

namespace Exec

variable {A : Addresses} {ρ : Pairing} {ctx : Context} {env env' : Env} {Γ : List Layer}

/-! ## Variables -/

/-- The one step that writes into frames: the frames it writes to have to be paired. -/
theorem abreast_bindIn {f g : FrameId} (hfg : ρ f g) (x : String) (v : Value) :
    Abreast A ρ (bindIn f x v) (bindIn g x v) Abreast.Equal :=
  fun _ _ hm => .ok le_rfl (hm.withStore le_rfl (hm.store.bind hfg x v)) rfl

/-- A scope that is opened on both sides. -/
theorem abreast_enter (henv : Parallel ρ env.chain env'.chain Γ) (frame : Frame) (l : Layer) :
    Abreast A ρ (enter env frame) (enter env' frame) fun ρ' inner inner' =>
      ρ' inner.frame inner'.frame ∧ Parallel ρ' inner.chain inner'.chain (l :: Γ) := by
  intro m m' hm
  have hle := ρ.le_add m.store.frames.size m'.store.frames.size
  have hnew := ρ.add_self m.store.frames.size m'.store.frames.size
  exact .ok hle (hm.withStore hle (hm.store.push frame)) ⟨hnew, .layer hnew (henv.mono hle)⟩

/-- By its name a variable is looked up among the globals alone, which are one frame on both
sides. -/
theorem abreast_getByName (name : Token) :
    Abreast A ρ (getByName Machine.globals name) (getByName Machine.globals name)
      Abreast.Equal := by
  refine .get_bind ?_
  intro m m' hm
  have hget : m'.store.get Machine.globals name.lexeme =
      m.store.get Machine.globals name.lexeme := by
    unfold Store.get
    simp only [Env.chain, Machine.globals, List.findSome?_cons, List.findSome?_nil,
      hm.store.globals_eq]
  rw [hget]
  exact .orRaise name _

theorem abreast_assignByName (name : Token) (v : Value) :
    Abreast A ρ (assignByName Machine.globals name v) (assignByName Machine.globals name v)
      Abreast.Equal := by
  refine .get_bind ?_
  intro m m' hm
  have hlocate : m'.store.locate Machine.globals name.lexeme =
      m.store.locate Machine.globals name.lexeme := by
    unfold Store.locate
    simp only [Env.chain, Machine.globals, List.find?_cons, List.find?_nil, hm.store.globals_eq]
  rw [hlocate]
  cases hfound : m.store.locate Machine.globals name.lexeme with
  | error fault => exact .raise fault name
  | ok f =>
      -- Only the frame of the globals can have been found.
      have hzero : f = 0 := by
        unfold Store.locate at hfound
        split at hfound
        · rename_i hfind
          cases hfound
          exact List.mem_singleton.1 (List.mem_of_find?_eq_some hfind)
        · cases hfound
      subst hzero
      exact abreast_bindIn hm.store.globals name.lexeme v

/-- A layer that declares something has the same variables on both sides. -/
theorem abreast_getAt (henv : Parallel ρ env.chain env'.chain Γ) {d : Nat} {l : Layer}
    (hd : Γ[d]? = some l) {x : String} (hx : l.declares x = true) (y : String) :
    Abreast A ρ (getAt env d y) (getAt env' d y) Abreast.Equal := by
  rcases henv.ancestor hd hx with ⟨a, a', ha, ha', hframe⟩
  refine .get_bind ?_
  intro m m' hm
  have hget : m'.store.getAt env' d y = m.store.getAt env d y := by
    rw [Store.getAt_of_ancestor ha, Store.getAt_of_ancestor ha', hm.store.frame_eq _ _ hframe]
  rw [hget]
  exact .orDefect _

/-- The frames that the distance leads to are written to, so they have to be paired. -/
theorem abreast_assignAt {d : Nat} {a a' : Env} (ha : env.ancestor d = .ok a)
    (ha' : env'.ancestor d = .ok a') (hframe : ρ a.frame a'.frame) (x : String) (v : Value) :
    Abreast A ρ (assignAt env d x v) (assignAt env' d x v) Abreast.Equal := by
  unfold assignAt
  rw [ha, ha']
  exact abreast_bindIn hframe x v

/-- The table gives one distance, and at that distance the chains are parallel. -/
theorem abreast_lookUp (henv : Parallel ρ env.chain env'.chain Γ) {id : NodeId} {name : Token}
    (h : ctx.links[id]? = depth? name.lexeme Γ) :
    Abreast A ρ (lookUp ctx env id name) (lookUp ctx env' id name) Abreast.Equal := by
  unfold lookUp
  rw [h]
  cases hdepth : depth? name.lexeme Γ with
  | none => exact abreast_getByName name
  | some d =>
      rcases getElem?_of_depth? hdepth with ⟨l, hl, hx⟩
      exact abreast_getAt henv hl hx name.lexeme

/-- An assignment, which in the initializer of a variable may be to that variable. -/
theorem abreast_assign (henv : Parallel ρ env.chain env'.chain Γ) {id : NodeId} {name : Token}
    {self : Option String} (hself : self ≠ none → ρ env.frame env'.frame)
    (h : ctx.links[id]? = if self = some name.lexeme then some 0 else depth? name.lexeme Γ)
    (v : Value) : Abreast A ρ (assign ctx env id name v) (assign ctx env' id name v)
      Abreast.Equal := by
  unfold assign
  rw [h]
  split
  · rename_i d hd
    -- The variable of an initializer is in the innermost frame, though no layer declares it yet.
    by_cases hsame : self = some name.lexeme
    · rw [if_pos hsame] at hd
      cases hd
      exact abreast_assignAt rfl rfl (hself (by simp [hsame])) name.lexeme v
    · rw [if_neg hsame] at hd
      rcases henv.ancestor_of_depth hd with ⟨a, a', ha, ha', hframe⟩
      exact abreast_assignAt ha ha' hframe name.lexeme v
  · exact abreast_assignByName name v

/-! ## Functions and objects -/

/-- A function may be made in either environment: its place among the functions is the same. -/
theorem abreast_newFunction {f f' : Closure} (hf : f.Reframed A ρ f') :
    Abreast A ρ (newFunction f) (newFunction f') Abreast.Equal := by
  intro m m' hm
  refine .ok (le_refl ρ) { hm with size_functions := ?_, functions := ?_ } ?_
  · simp [hm.size_functions]
  · intro id
    rw [Machine.function_push, Machine.function_push, hm.size_functions]
    split
    · exact hf
    · exact hm.functions id
  · rw [hm.size_functions]

/-- Attaching an object to a method puts one frame of the same content into each chain, which makes
a new pair. -/
theorem abreast_bindMethod {f f' : Closure} (hf : f.Kept A ρ f') (object : ObjectId) :
    Abreast A ρ (bindMethod f object) (bindMethod f' object) fun ρ' g g' => g.Reframed A ρ' g' := by
  rcases hf.linked with ⟨Γ, henv, hlinked⟩
  refine (abreast_enter henv _ .this).bind ?_
  rintro ρ' inner inner' hle ⟨hframe, hinner⟩
  exact .pure ⟨hf.decl, hf.isInitializer, ⟨_, hinner, hlinked⟩, fun _ => hframe⟩

theorem abreast_checkArity (paren : Token) (expected got : Nat) :
    Abreast A ρ (checkArity paren expected got) (checkArity paren expected got)
      Abreast.Equal := by
  unfold checkArity
  split
  · exact .pure rfl
  · exact .raise _ paren

theorem abreast_newObject (classId : ClassId) :
    Abreast A ρ (newObject classId) (newObject classId) Abreast.Equal := by
  intro m m' hm
  have hnew : newObject classId m' = .ok m.objects.size
      { m' with objects := m.objects.push ⟨classId, .empty⟩ } := by
    rw [← hm.objects]
    rfl
  rw [hnew]
  exact .ok le_rfl (hm.withObjects _) rfl

theorem abreast_setField (object : ObjectId) (x : String) (v : Value) :
    Abreast A ρ (setField object x v) (setField object x v) Abreast.Equal := by
  intro m m' hm
  have hset : setField object x v m' = .ok () { m' with
      objects := m.objects.modify object fun o => { o with fields := o.fields.insert x v } } := by
    rw [← hm.objects]
    rfl
  rw [hset]
  exact .ok le_rfl (hm.withObjects _) rfl

/-- Whether a value is an object does not depend on frames. -/
theorem abreast_asObject (v : Value) (name : Token) :
    Abreast A ρ (asObject v name) (asObject v name) Abreast.Equal := by
  cases v with
  | object id => exact .pure rfl
  | _ => exact .raise _ name

theorem abreast_methodOf (classId : ClassId) (object : ObjectId) (name : Token) :
    Abreast A ρ (methodOf classId object name) (methodOf classId object name) Abreast.Equal := by
  refine .get_bind ?_
  intro m m' hm
  have hfind := hm.findMethod? classId name.lexeme
  generalize m.findMethod? classId name.lexeme = found at hfind
  generalize m'.findMethod? classId name.lexeme = found' at hfind
  cases hfind with
  | none => exact .raise _ name
  | some hf => exact (abreast_bindMethod hf object).bind fun _ _ _ _ => abreast_newFunction

theorem abreast_getProperty (v : Value) (name : Token) :
    Abreast A ρ (getProperty v name) (getProperty v name) Abreast.Equal := by
  cases v with
  | object id =>
      refine .get_bind ?_
      intro m m' hm
      have hobject : m'.object id = m.object id := by
        unfold Machine.object
        rw [hm.objects]
      dsimp only
      rw [hobject]
      cases (m.object id).fields.get? name.lexeme with
      | some field => exact .pure rfl
      | none => exact abreast_methodOf _ id name
  | _ => exact .raise _ name

/-- The frames of `super` and of `this` are found at parallel places, so the same class and the same
receiver are. -/
theorem abreast_superMethod (henv : Parallel ρ env.chain env'.chain Γ) {id : NodeId} {d : Nat}
    (hid : ctx.links[id]? = some (d + 1)) (hthis : ThisAt Γ d) (hsuper : SuperAt Γ (d + 1))
    (method : Token) :
    Abreast A ρ (superMethod ctx env id method) (superMethod ctx env' id method)
      Abreast.Equal := by
  unfold superMethod
  rw [hid]
  refine (abreast_getAt henv hsuper.2 (x := "super") rfl "super").bind ?_
  rintro ρ₁ superclass _ hle₁ rfl
  refine (abreast_getAt (henv.mono hle₁) hthis.2 (x := "this") rfl "this").bind ?_
  rintro ρ₂ this _ hle₂ rfl
  cases superclass with
  | classRef classId =>
      cases this with
      | object object => exact abreast_methodOf classId object method
      | _ => exact .halt _
  | _ => exact .halt _

theorem abreast_print (v : Value) : Abreast A ρ (print v) (print v) Abreast.Equal := by
  intro m m' hm
  have hprint : print v m' = .ok () { m' with output := m.output.push (m.text v) } := by
    rw [← hm.output, ← hm.text_eq]
    rfl
  rw [hprint]
  exact .ok (le_refl ρ) { hm with output := rfl } rfl

theorem abreast_readClock (host : Host) :
    Abreast A ρ (readClock host) (readClock host) Abreast.Equal := by
  intro m m' hm
  have hread : readClock host m' =
      .ok (.number (host.time m.readings)) { m' with readings := m.readings + 1 } := by
    rw [← hm.readings]
    rfl
  rw [hread]
  exact .ok (le_refl ρ) { hm with readings := rfl } rfl

/-! ## Classes -/

theorem abreast_superclassOf (henv : Parallel ρ env.chain env'.chain Γ)
    {superclass : Option Reference}
    (h : ∀ ref, superclass = some ref → ctx.links[ref.id]? = depth? ref.name.lexeme Γ) :
    Abreast A ρ (superclassOf ctx env superclass) (superclassOf ctx env' superclass)
      fun _ c c' => c = c' ∧ c.isSome = superclass.isSome := by
  cases superclass with
  | none => exact .pure ⟨rfl, rfl⟩
  | some ref =>
      refine (abreast_lookUp henv (h ref rfl)).bind ?_
      rintro ρ' v _ hle rfl
      cases v with
      | classRef id => exact .pure ⟨rfl, rfl⟩
      | _ => exact .raise _ ref.name

/-- The frame that holds `super` is put into both chains, and makes a new pair. -/
theorem abreast_methodEnv (henv : Parallel ρ env.chain env'.chain Γ) (superclass : Option ClassId) :
    Abreast A ρ (methodEnv env superclass) (methodEnv env' superclass) fun ρ' inner inner' =>
      Parallel ρ' inner.chain inner'.chain (methodLayers Γ superclass) := by
  cases superclass with
  | none => exact .pure henv
  | some id =>
      intro m m' hm
      cases abreast_enter henv (Bindings.empty.insert "super" (.classRef id)) .super m m' hm with
      | ok hle hn hinner => exact .ok hle hn hinner.2

/-- Two tables of the same methods. -/
theorem methodTable_kept {inner inner' : Env} (henv : Parallel ρ inner.chain inner'.chain Γ)
    {decls : List FunctionDecl} (hdecls : FunctionDecl.AllLinked A (.this :: Γ) decls)
    (x : String) : Option.Rel (Closure.Kept A ρ) ((methodTable inner decls).get? x)
      ((methodTable inner' decls).get? x) := by
  rw [methodTable_get?, methodTable_get?]
  cases hfind : decls.reverse.find? fun decl => decl.name.lexeme == x with
  | none => exact .none
  | some decl =>
      have hmem := List.mem_reverse.1 (List.mem_of_find?_eq_some hfind)
      exact .some ⟨rfl, rfl, Γ, henv, hdecls.mem decl hmem⟩

/-- Methods that differ in their environments only make classes that do. -/
theorem abreast_newClass (name : String) (superclass : Option ClassId)
    {methods methods' : Bindings Closure}
    (hmethods : ∀ x, Option.Rel (Closure.Kept A ρ) (methods.get? x) (methods'.get? x)) :
    Abreast A ρ (newClass name superclass methods) (newClass name superclass methods')
      Abreast.Equal := by
  intro m m' hm
  refine .ok (le_refl ρ) { hm with size_classes := ?_, classes := ?_ } ?_
  · simp [hm.size_classes]
  · intro id
    rw [Machine.classInfo_push, Machine.classInfo_push, hm.size_classes]
    split
    · refine ⟨rfl, ?_, hmethods⟩
      cases superclass with
      | none => rfl
      | some parent => exact congrArg (parent :: ·) (hm.classes parent).ancestors
    · exact hm.classes id
  · rw [hm.size_classes]

/-- A name that is bound in the innermost frame is found there. -/
theorem assignClass_eq {m : Machine} {name : Token}
    (hbound : (m.store.frame env.frame).contains name.lexeme = true) (v : Value) :
    assignClass env name v m = bindIn env.frame name.lexeme v m := by
  have hlocate : m.store.locate env name.lexeme = .ok env.frame := by
    simp [Store.locate, Env.chain, hbound]
  unfold assignClass
  rw [Halt.get_bind, hlocate]

/-- A class declaration needs frames that stand for each other, like any other one. -/
theorem abreast_declareClass (henv : Parallel ρ env.chain env'.chain Γ)
    (hlead : ρ env.frame env'.frame) (name : Token) {superclass : Option Reference}
    {methods : List FunctionDecl}
    (href : ∀ ref, superclass = some ref → ctx.links[ref.id]? = depth? ref.name.lexeme Γ)
    (hmethods : ∀ id : Option ClassId, id.isSome = superclass.isSome →
      FunctionDecl.AllLinked A (.this :: methodLayers (add name.lexeme Γ) id) methods) :
    Abreast A ρ (declareClass ctx env name superclass methods)
      (declareClass ctx env' name superclass methods) Abreast.Equal := by
  refine (abreast_superclassOf henv href).bind ?_
  rintro ρ₁ c _ hle₁ ⟨rfl, hc⟩ m m' hm
  have hlead₁ := hle₁ _ _ hlead
  refine EndsAbreast.bind (abreast_bindIn hlead₁ name.lexeme .nil m m' hm) ?_
  rintro ρ₂ _ _ m₂ m₂' hle₂ hbind hm₂ -
  have hlead₂ := hle₂ _ _ hlead₁
  have henv₂ := (henv.mono (le_trans hle₁ hle₂)).add hlead₂ name.lexeme
  refine EndsAbreast.bind (abreast_methodEnv henv₂ c m₂ m₂' hm₂) ?_
  rintro ρ₃ inner inner' m₃ m₃' hle₃ hinner hm₃ henv₃
  have htable := methodTable_kept henv₃ (hmethods c hc)
  refine EndsAbreast.bind (abreast_newClass name.lexeme c htable m₃ m₃' hm₃) ?_
  rintro ρ₄ v _ m₄ m₄' hle₄ hnew hm₄ rfl
  have hlead₄ := hle₄ _ _ (hle₃ _ _ hlead₂)
  -- The name of the class has been bound above, and is bound still.
  have hbound : (m₄.store.frame env.frame).contains name.lexeme = true := by
    cases hnew
    refine ((outlasts_methodEnv env c).grows_of_ok hinner).names _ _ ?_
    cases hbind
    change ((m.store.bind env.frame name.lexeme .nil).frame env.frame).contains _ = true
    rw [Store.frame_bind _ (hm.store.lt_size _ _ hlead₁).1, if_pos rfl]
    simp [Bindings.contains]
  have hbound' : (m₄'.store.frame env'.frame).contains name.lexeme = true := by
    rwa [hm₄.store.frame_eq _ _ hlead₄]
  rw [assignClass_eq hbound, assignClass_eq hbound']
  exact abreast_bindIn hlead₄ name.lexeme v m₄ m₄' hm₄

end Exec

end LoxLang
