import LoxLang.Eval.Run
import LoxLang.Proofs.Scope.Linked

/-!
# Sound machines

What the frames of a machine have to do with the layers of the program that it runs.

* `FrameOk store f l`: the frame `f` binds what the layer `l` declares. With `FrameApart`, it binds
  `this` and `super` only if the layer does.
* `Matches store chain Γ`: the frames of a chain are those of the layers `Γ`, one by one, and the
  last frame of the chain, and no other one, holds the globals.
* `ClosureOk` and `MethodOk`: a function is linked in layers that match its environment; what a
  class keeps of a method still lacks the layer of its object.
* `Machine.Sound`: every function and every method of a machine is such a one, and only certain
  names are global.

Frames only ever gain names, and `this` and `super` are bound once and for all. So nothing that is
known about a frame is lost (`Store.Keeps`), whoever else writes to it later.
-/

namespace LoxLang

open Layer

/-! ## Actions in sequence -/

/-- An action that comes to a result hands it, and its machine, to the next one. -/
theorem Halt.bind_ok {σ α β : Type} {x : EStateM Halt σ α} {f : α → EStateM Halt σ β} {m m' : σ}
    {a : α} (h : x m = .ok a m') : (x >>= f) m = f a m' := by
  change EStateM.bind x f m = _
  simp [EStateM.bind, h]

/-- An action that stops takes the next one with it. -/
theorem Halt.bind_error {σ α β : Type} {x : EStateM Halt σ α} {f : α → EStateM Halt σ β} {m m' : σ}
    {reason : Halt} (h : x m = .error reason m') : (x >>= f) m = .error reason m' := by
  change EStateM.bind x f m = _
  simp [EStateM.bind, h]

/-- The inversion of `bind`: a sequence comes to a result only if both of its parts do. -/
theorem Halt.bind_eq_ok {σ α β : Type} {x : EStateM Halt σ α} {f : α → EStateM Halt σ β} {m m' : σ}
    {b : β} (h : (x >>= f) m = .ok b m') : ∃ a m₁, x m = .ok a m₁ ∧ f a m₁ = .ok b m' := by
  cases hrun : x m with
  | error reason m₁ =>
      rw [Halt.bind_error hrun] at h
      cases h
  | ok a m₁ =>
      rw [Halt.bind_ok hrun] at h
      exact ⟨a, m₁, rfl, h⟩

theorem Halt.get_bind {σ α : Type} (f : σ → EStateM Halt σ α) (m : σ) :
    ((get : EStateM Halt σ σ) >>= f) m = f m m := rfl

/-! ## Frames and layers -/

/-- A frame binds what a layer declares. -/
def FrameBinds (frame : Frame) : Layer → Prop
  | .names xs => ∀ x ∈ xs, ∃ v, frame.get? x = some v
  | .this => ∃ object, frame.get? "this" = some (.object object)
  | .super => ∃ classId, frame.get? "super" = some (.classRef classId)

/-- An empty frame fits a layer that has no names yet. -/
theorem frameBinds_empty : FrameBinds .empty (.names []) := fun _ hx => by cases hx

structure FrameOk (store : Store) (f : FrameId) (l : Layer) : Prop where
  lt_size : f < store.frames.size
  binds : FrameBinds (store.frame f) l

/-- A frame binds neither `this` nor `super` if a layer does not. -/
def FrameApart (frame : Frame) (l : Layer) : Prop :=
  ∀ x, ¬ IsName x → l.declares x = false → frame.get? x = none

theorem frameApart_empty (l : Layer) : FrameApart .empty l := fun _ _ _ => by simp

/-- Binding a name keeps `this` and `super` out of frames that are not theirs. -/
theorem FrameApart.insert {frame : Frame} {l : Layer} (h : FrameApart frame l) {x : String}
    (hx : IsName x ∨ l.declares x = true) (v : Value) : FrameApart (frame.insert x v) l := by
  intro y hy hdeclares
  have hne : x ≠ y := by
    rintro rfl
    rcases hx with hx | hx
    · exact hy hx
    · exact absurd hdeclares (by simp [hx])
  rw [Bindings.get?_insert_of_ne _ _ hne]
  exact h y hy hdeclares

/-- It does not matter which names a layer declares. -/
theorem FrameApart.names {frame : Frame} {xs ys : List String}
    (h : FrameApart frame (.names xs)) (hxs : ∀ x ∈ xs, x ∈ ys) : FrameApart frame (.names ys) := by
  intro x hx hys
  refine h x hx ?_
  simp only [declares, List.contains_eq_mem, decide_eq_false_iff_not] at hys ⊢
  exact fun hmem => hys (hxs x hmem)

inductive Matches (store : Store) : List FrameId → List Layer → Prop where
  | top : FrameOk store 0 (.names []) → Matches store [0] []
  | layer {f : FrameId} {chain : List FrameId} {l : Layer} {Γ : List Layer} :
      f ≠ 0 → FrameOk store f l → FrameApart (store.frame f) l → Matches store chain Γ →
      Matches store (f :: chain) (l :: Γ)

/-- What one store knows about its frames, the other one knows too. -/
structure Store.Keeps (store store' : Store) : Prop where
  frames : ∀ (f : FrameId) (l : Layer), FrameOk store f l → FrameOk store' f l
  fixed : ∀ (f : FrameId) (x : String), f < store.frames.size → ¬ IsName x →
    (store'.frame f).get? x = (store.frame f).get? x

/-- A store keeps what it has. -/
theorem Store.Keeps.refl (store : Store) : store.Keeps store :=
  ⟨fun _ _ h => h, fun _ _ _ _ => rfl⟩

/-- Nothing is lost in two steps if nothing is lost in either. -/
theorem Store.Keeps.trans {s s' s'' : Store} (h : s.Keeps s') (h' : s'.Keeps s'') :
    s.Keeps s'' where
  frames f l hframe := h'.frames f l (h.frames f l hframe)
  fixed f x hf hx := by
    -- A frame that is there stays there.
    have hf' := (h.frames f (.names []) ⟨hf, fun _ hx => by cases hx⟩).lt_size
    exact (h'.fixed f x hf' hx).trans (h.fixed f x hf hx)

/-- Frames stay apart, whoever writes to them later. -/
theorem FrameApart.mono {s s' : Store} (hkeeps : s.Keeps s') {f : FrameId} {l : Layer}
    (hf : f < s.frames.size) (h : FrameApart (s.frame f) l) : FrameApart (s'.frame f) l := by
  intro x hx hdeclares
  rw [hkeeps.fixed f x hf hx]
  exact h x hx hdeclares

/-- A chain goes on matching its layers when the store changes, as nothing is ever unbound. -/
theorem Matches.mono {s s' : Store} (hkeeps : s.Keeps s') {chain : List FrameId} {Γ : List Layer}
    (h : Matches s chain Γ) : Matches s' chain Γ := by
  induction h with
  | top hframe => exact .top (hkeeps.frames _ _ hframe)
  | layer hne hframe hapart _ ih =>
      exact .layer hne (hkeeps.frames _ _ hframe) (hapart.mono hkeeps hframe.lt_size) ih

/-- The innermost frame of a chain exists. -/
theorem Matches.lt_size {store : Store} {f : FrameId} {chain : List FrameId} {Γ : List Layer}
    (h : Matches store (f :: chain) Γ) : f < store.frames.size := by
  cases h with
  | top hframe => exact hframe.lt_size
  | layer _ hframe _ _ => exact hframe.lt_size

/-- So do all other frames. -/
theorem Matches.lt_size_of_mem {store : Store} {chain : List FrameId} {Γ : List Layer}
    (h : Matches store chain Γ) : ∀ f ∈ chain, f < store.frames.size := by
  induction h with
  | top hframe =>
      intro f hf
      rw [List.mem_singleton.1 hf]
      exact hframe.lt_size
  | layer _ hframe _ _ ih =>
      intro f hf
      rcases List.mem_cons.1 hf with rfl | hf
      · exact hframe.lt_size
      · exact ih f hf

/-- A chain that fits its layers has a frame at least, the one of the globals. -/
theorem Matches.size_ne_zero {store : Store} {chain : List FrameId} {Γ : List Layer}
    (h : Matches store chain Γ) : store.frames.size ≠ 0 := by
  cases h with
  | top hframe => exact Nat.ne_of_gt hframe.lt_size
  | layer _ hframe _ _ => exact Nat.ne_of_gt (Nat.zero_lt_of_lt hframe.lt_size)

/-- Where the innermost frame holds the globals, there are no layers. -/
theorem Matches.eq_nil {store : Store} {f : FrameId} {chain : List FrameId} {Γ : List Layer}
    (h : Matches store (f :: chain) Γ) (hf : f = 0) : Γ = [] := by
  cases h with
  | top _ => rfl
  | layer hne _ _ _ => exact absurd hf hne

/-! ## Binding names -/

/-- A frame in which one more name is bound binds what its layer declares with that name. -/
theorem FrameBinds.insert_names {frame : Frame} {xs : List String} (h : FrameBinds frame (.names xs))
    (x : String) (v : Value) : FrameBinds (frame.insert x v) (.names (xs ++ [x])) := by
  intro y hy
  by_cases hxy : x = y
  · exact ⟨v, by simp [hxy]⟩
  · rw [Bindings.get?_insert_of_ne _ _ hxy]
    refine h y ?_
    simpa [Ne.symm hxy] using hy

/-- An assignment to a name leaves a frame binding what it did. -/
theorem FrameBinds.insert {frame : Frame} {l : Layer} (h : FrameBinds frame l) {x : String}
    (hx : IsName x) (v : Value) : FrameBinds (frame.insert x v) l := by
  cases l with
  | names xs =>
      intro y hy
      exact h.insert_names x v y (List.mem_append_left _ hy)
  | this =>
      change ∃ _, _
      rwa [Bindings.get?_insert_of_ne _ _ hx.1]
  | super =>
      change ∃ _, _
      rwa [Bindings.get?_insert_of_ne _ _ hx.2]

/-! ## Tables of a machine -/

/-- One more entry of a table that is read with a default. -/
theorem getD_push {α : Type} (xs : Array α) (a d : α) (i : Nat) :
    (xs.push a).getD i d = if i = xs.size then a else xs.getD i d := by
  rw [Array.getD_eq_getD_getElem?, Array.getD_eq_getD_getElem?, Array.getElem?_push]
  split <;> rfl

/-- What is not in a table reads as the default. -/
theorem getD_of_le {α : Type} {xs : Array α} {i : Nat} (h : xs.size ≤ i) (d : α) :
    xs.getD i d = d := by
  simp [Array.getD_eq_getD_getElem?, h]

namespace Machine

variable {m : Machine}

/-- The new function is found under the next number, all others where they were. -/
theorem function_push (m : Machine) (f : Closure) (id : FunctionId) :
    function { m with functions := m.functions.push f } id =
      if id = m.functions.size then f else m.function id := getD_push ..

theorem classInfo_push (m : Machine) (info : ClassInfo) (c : ClassId) :
    classInfo { m with classes := m.classes.push info } c =
      if c = m.classes.size then info else m.classInfo c := getD_push ..

theorem object_push (m : Machine) (info : ObjectInfo) (o : ObjectId) :
    object { m with objects := m.objects.push info } o =
      if o = m.objects.size then info else m.object o := getD_push ..

/-- A class that is not there yet reads as one without methods. -/
theorem classInfo_of_le {c : ClassId} (h : m.classes.size ≤ c) : m.classInfo c = default :=
  getD_of_le h _

/-- An object that is not there yet reads as one without fields. -/
theorem object_of_le {o : ObjectId} (h : m.objects.size ≤ o) : m.object o = default :=
  getD_of_le h _

end Machine

namespace Store

/-- Binding a name makes no frame. -/
theorem size_bind (s : Store) (id : FrameId) (x : String) (v : Value) :
    (s.bind id x v).frames.size = s.frames.size := by
  simp [Store.bind]

/-- Binding a name changes the one frame that it is bound in. -/
theorem frame_bind (s : Store) {id : FrameId} (h : id < s.frames.size) (x : String) (v : Value)
    (f : FrameId) :
    (s.bind id x v).frame f = if id = f then (s.frame f).insert x v else s.frame f := by
  unfold Store.frame Store.bind
  rw [Array.getD_eq_getD_getElem?, Array.getD_eq_getD_getElem?, Array.getElem?_modify]
  by_cases hf : id = f
  · subst hf
    simp [h]
  · simp [hf]

/-- Outside of the store there is nothing to bind a name in. -/
theorem bind_of_le {s : Store} {id : FrameId} (h : s.frames.size ≤ id) (x : String) (v : Value) :
    s.bind id x v = s := by
  unfold Store.bind
  congr 1
  apply Array.ext_getElem?
  intro i
  rw [Array.getElem?_modify]
  split
  · rename_i hi
    simp [hi ▸ h]
  · rfl

/-- What a frame binds to `this` and `super` does not depend on other names. -/
theorem get?_bind (s : Store) (id : FrameId) {x : String} (hx : IsName x) (v : Value) (f : FrameId)
    {y : String} (hy : ¬ IsName y) : ((s.bind id x v).frame f).get? y = (s.frame f).get? y := by
  by_cases hid : id < s.frames.size
  · rw [frame_bind s hid]
    split
    · exact Bindings.get?_insert_of_ne _ _ fun hxy : x = y => hy (hxy ▸ hx)
    · rfl
  · rw [bind_of_le (Nat.le_of_not_lt hid)]

/-- Binding a name that is neither `this` nor `super` loses nothing. -/
theorem keeps_bind (s : Store) (id : FrameId) {x : String} (hx : IsName x) (v : Value) :
    s.Keeps (s.bind id x v) := by
  refine ⟨?_, fun f y _ hy => get?_bind s id hx v f hy⟩
  by_cases hid : id < s.frames.size
  · intro f l hframe
    refine ⟨by simpa [size_bind] using hframe.lt_size, ?_⟩
    rw [frame_bind s hid]
    split
    · exact hframe.binds.insert hx v
    · exact hframe.binds
  · rw [bind_of_le (Nat.le_of_not_lt hid)]
    exact fun _ _ hframe => hframe

/-- A value that is replaced at once might as well not have been there. -/
theorem bind_bind (s : Store) (f : FrameId) (x : String) (v w : Value) :
    (s.bind f x v).bind f x w = s.bind f x w := by
  unfold Store.bind
  congr 1
  apply Array.ext_getElem?
  intro i
  simp only [Array.getElem?_modify]
  split
  · simp [Function.comp_def, Bindings.insert_insert]
  · rfl

/-- A name that is bound in the newest frame might as well have been there from the start. -/
theorem bind_push (frames : Array Frame) (frame : Frame) (x : String) (v : Value) :
    Store.bind ⟨frames.push frame⟩ frames.size x v = ⟨frames.push (frame.insert x v)⟩ := by
  unfold Store.bind
  congr 1
  apply Array.ext_getElem?
  intro i
  simp only [Array.getElem?_modify, Array.getElem?_push]
  by_cases h : frames.size = i
  · subst h
    simp
  · simp [h, Ne.symm h]

theorem frame_push (s : Store) (frame : Frame) {f : FrameId} (h : f < s.frames.size) :
    Store.frame ⟨s.frames.push frame⟩ f = s.frame f :=
  (getD_push ..).trans (if_neg (Nat.ne_of_lt h))

theorem frame_push_size (s : Store) (frame : Frame) :
    Store.frame ⟨s.frames.push frame⟩ s.frames.size = frame :=
  (getD_push ..).trans (if_pos rfl)

/-- A frame that is not there yet reads as an empty one. -/
theorem frame_of_le {s : Store} {f : FrameId} (h : s.frames.size ≤ f) : s.frame f = .empty :=
  getD_of_le h _

/-- A new frame leaves the older ones as they are. -/
theorem keeps_push (s : Store) (frame : Frame) : s.Keeps ⟨s.frames.push frame⟩ := by
  refine ⟨fun f l hframe => ⟨by simpa using Nat.lt_succ_of_lt hframe.lt_size, ?_⟩, ?_⟩
  · rw [frame_push s frame hframe.lt_size]
    exact hframe.binds
  · intro f x hf _
    rw [frame_push s frame hf]

/-- A scope that has just been opened has a layer of its own. -/
theorem matches_push {s : Store} {chain : List FrameId} {Γ : List Layer} (h : Matches s chain Γ)
    {frame : Frame} {l : Layer} (hbinds : FrameBinds frame l) (hapart : FrameApart frame l) :
    Matches ⟨s.frames.push frame⟩ (s.frames.size :: chain) (l :: Γ) := by
  refine .layer h.size_ne_zero ⟨by simp, ?_⟩ ?_ (h.mono (keeps_push s frame))
  · rwa [frame_push_size]
  · rwa [frame_push_size]

/-- A declaration is seen in the layer that it stands in. -/
theorem matches_bind {s : Store} {f : FrameId} {chain : List FrameId} {Γ : List Layer}
    (h : Matches s (f :: chain) Γ) {x : String} (hx : IsName x) (v : Value) :
    Matches (s.bind f x v) (f :: chain) (add x Γ) := by
  have hkept := h.mono (keeps_bind s f hx v)
  cases h with
  | top _ => exact hkept
  | @layer _ _ l _ hne hframe hapart hchain =>
      -- Only a layer of names takes another one.
      cases l with
      | this | super => exact hkept
      | names xs =>
          refine .layer hne ⟨by simpa [size_bind] using hframe.lt_size, ?_⟩ ?_
            (hchain.mono (keeps_bind s f hx v))
          · rw [frame_bind s hframe.lt_size, if_pos rfl]
            exact hframe.binds.insert_names x v
          · rw [frame_bind s hframe.lt_size, if_pos rfl]
            exact (hapart.names fun _ => List.mem_append_left [x]).insert (.inl hx) v

end Store

/-! ## Addresses in a chain -/

/-- The frame some steps out is the one at that place in the chain. -/
theorem Env.map_frame_ancestor (env : Env) (d : Nat) :
    (env.ancestor d).map Env.frame = (env.chain[d]?).elim (.error .beyondGlobals) .ok := by
  induction d generalizing env with
  | zero => rfl
  | succ d ih =>
      rcases env with ⟨f, enclosing⟩
      cases enclosing with
      | nil => rfl
      | cons g enclosing => exact ih ⟨g, enclosing⟩

/-- Every member of the chain is an ancestor, at its place in the chain. -/
theorem Env.ancestor_of_chain {env : Env} {d : Nat} {f : FrameId} (h : env.chain[d]? = some f) :
    ∃ ancestor, env.ancestor d = .ok ancestor ∧ ancestor.frame = f := by
  have hframe := env.map_frame_ancestor d
  rw [h, Option.elim_some] at hframe
  cases hancestor : env.ancestor d with
  | error _ =>
      rw [hancestor] at hframe
      cases hframe
  | ok ancestor =>
      rw [hancestor] at hframe
      exact ⟨ancestor, rfl, Except.ok.inj hframe⟩

/-- The innermost layer is that of the frame of an environment. The other ones are those of the
environment around it. -/
theorem Matches.inner {store : Store} {env : Env} {l : Layer} {Γ : List Layer}
    (h : Matches store env.chain (l :: Γ)) :
    ∃ (f : FrameId) (outer : Env), env = ⟨f, outer.chain⟩ ∧ f ≠ 0 ∧ FrameOk store f l ∧
      FrameApart (store.frame f) l ∧ Matches store outer.chain Γ := by
  rcases env with ⟨f, enclosing⟩
  generalize hchain : Env.chain ⟨f, enclosing⟩ = chain at h
  cases h with
  | layer hne hframe hapart hrest =>
      cases hchain
      cases enclosing with
      | nil => cases hrest
      | cons g enclosing => exact ⟨f, ⟨g, enclosing⟩, rfl, hne, hframe, hapart, hrest⟩

/-- The frames some layers out are those of the layers that are left. -/
theorem Matches.ancestor {store : Store} {env : Env} {Γ : List Layer}
    (h : Matches store env.chain Γ) {d : Nat} {l : Layer} (hd : Γ[d]? = some l) :
    ∃ ancestor, env.ancestor d = .ok ancestor ∧ FrameOk store ancestor.frame l ∧
      ancestor.frame ≠ 0 := by
  induction Γ generalizing env d with
  | nil => cases hd
  | cons l' Γ ih =>
      rcases h.inner with ⟨f, outer, rfl, hne, hframe, -, hrest⟩
      cases d with
      | zero =>
          cases hd
          exact ⟨_, rfl, hframe, hne⟩
      | succ d => exact ih hrest hd

/-- Behind all layers, there are the globals. -/
theorem Matches.ancestor_length {store : Store} {env : Env} {Γ : List Layer}
    (h : Matches store env.chain Γ) : env.ancestor Γ.length = .ok Machine.globals := by
  induction Γ generalizing env with
  | nil =>
      rcases env with ⟨f, enclosing⟩
      cases h
      rfl
  | cons l Γ ih =>
      rcases h.inner with ⟨f, outer, rfl, -, -, -, hrest⟩
      exact ih hrest

/-- The layer at the depth of a name declares it. -/
theorem Layer.getElem?_of_depth? {x : String} {Γ : List Layer} {d : Nat}
    (h : depth? x Γ = some d) : ∃ l, Γ[d]? = some l ∧ l.declares x = true := by
  rcases List.findIdx?_eq_some_iff_getElem.1 h with ⟨hlt, hdeclares, -⟩
  exact ⟨_, List.getElem?_eq_getElem hlt, hdeclares⟩

/-- A name that the layer declares is bound in the frame. -/
theorem FrameBinds.get? {frame : Frame} {l : Layer} (h : FrameBinds frame l) {x : String}
    (hx : l.declares x = true) : ∃ v, frame.get? x = some v := by
  cases l with
  | names xs => exact h x (by simpa [declares] using hx)
  | this =>
      rcases h with ⟨object, hobject⟩
      exact ⟨_, by rw [beq_iff_eq.1 hx]; exact hobject⟩
  | super =>
      rcases h with ⟨classId, hclass⟩
      exact ⟨_, by rw [beq_iff_eq.1 hx]; exact hclass⟩

/-- A read at a distance is a read in the frame at that distance. -/
theorem Store.getAt_of_ancestor {s : Store} {env ancestor : Env} {d : Nat}
    (h : env.ancestor d = .ok ancestor) (x : String) : s.getAt env d x =
      ((s.frame ancestor.frame).get? x).elim (.error (.unboundAt x)) .ok := by
  cases hget : (s.frame ancestor.frame).get? x <;>
    simp [Store.getAt, h, hget, Bind.bind, Except.bind]

/-- A name is found at its distance. -/
theorem Matches.getAt {store : Store} {env : Env} {Γ : List Layer}
    (h : Matches store env.chain Γ) {x : String} {d : Nat} (hd : depth? x Γ = some d) :
    ∃ v, store.getAt env d x = .ok v := by
  rcases getElem?_of_depth? hd with ⟨l, hl, hdeclares⟩
  rcases h.ancestor hl with ⟨ancestor, hancestor, hframe, -⟩
  rcases hframe.binds.get? hdeclares with ⟨v, hv⟩
  exact ⟨v, by rw [Store.getAt_of_ancestor hancestor, hv, Option.elim_some]⟩

/-- Where the layers say that `this` is, there is an object. -/
theorem Matches.getAt_this {store : Store} {env : Env} {Γ : List Layer}
    (h : Matches store env.chain Γ) {d : Nat} (hd : Γ[d]? = some .this) :
    ∃ object, store.getAt env d "this" = .ok (.object object) := by
  rcases h.ancestor hd with ⟨ancestor, hancestor, hframe, -⟩
  rcases hframe.binds with ⟨object, hobject⟩
  exact ⟨object, by rw [Store.getAt_of_ancestor hancestor, hobject, Option.elim_some]⟩

/-- Where the layers say that `super` is, there is a class. -/
theorem Matches.getAt_super {store : Store} {env : Env} {Γ : List Layer}
    (h : Matches store env.chain Γ) {d : Nat} (hd : Γ[d]? = some .super) :
    ∃ classId, store.getAt env d "super" = .ok (.classRef classId) := by
  rcases h.ancestor hd with ⟨ancestor, hancestor, hframe, -⟩
  rcases hframe.binds with ⟨classId, hclass⟩
  exact ⟨classId, by rw [Store.getAt_of_ancestor hancestor, hclass, Option.elim_some]⟩

/-! ## Functions and classes -/

/-- The layers of the methods of a class, without those of their objects. -/
def methodLayers (Γ : List Layer) : Option ClassId → List Layer
  | none => Γ
  | some _ => .super :: Γ

/-- What has been found on both sides, or on neither, stays related. -/
theorem rel_mono {α β : Type} {P Q : α → β → Prop} {a : Option α} {b : Option β}
    (hPQ : ∀ x y, P x y → Q x y) (h : Option.Rel P a b) : Option.Rel Q a b := by
  cases h with
  | none => exact .none
  | some hxy => exact .some (hPQ _ _ hxy)

/-- Of two classes that both have initializers or both have none, instances are made of equally many
arguments. -/
theorem arity_eq_of_rel {α : Type} {arity : α → Nat} {P : Closure → α → Prop}
    (hP : ∀ f g, P f g → arity g = f.arity) {f : Option Closure} {g : Option α}
    (h : Option.Rel P f g) : g.elim 0 arity = f.elim 0 Closure.arity := by
  cases h with
  | none => rfl
  | some hfg => exact hP _ _ hfg

/-- The methods of a class are those it declares, the last one of each name. -/
theorem Exec.methodTable_get? (env : Env) (decls : List FunctionDecl) (name : String) :
    (Exec.methodTable env decls).get? name =
      ((decls.reverse.find? fun decl => decl.name.lexeme == name).map fun decl =>
        ⟨decl, env, name == "init"⟩) := by
  rw [Exec.methodTable, Bindings.get?_foldl_insert, Bindings.get?_empty, Option.or_none]
  cases hfind : decls.reverse.find? fun decl => decl.name.lexeme == name with
  | none => rfl
  | some decl =>
      have hname : decl.name.lexeme = name := by simpa using List.find?_some hfind
      simp [hname]

/-- A class is linked alike with and without a superclass: its methods are, in the layers that the
class has once it is known whether there is one. -/
theorem Stmt.linked_classDecl {A : Addresses} {Γ : List Layer} {name : Token}
    {superclass : Option Reference} {methods : List FunctionDecl}
    (h : (Stmt.classDecl name superclass methods).Linked A Γ) :
    IsName name.lexeme ∧ Fresh name.lexeme Γ ∧
      (∀ ref, superclass = some ref → ref.Linked A Γ) ∧
      ∀ id : Option ClassId, id.isSome = superclass.isSome →
        FunctionDecl.AllLinked A (.this :: methodLayers (add name.lexeme Γ) id) methods := by
  cases superclass with
  | none =>
      rcases h with ⟨hname, hfresh, hmethods⟩
      refine ⟨hname, hfresh, fun _ href => (by cases href), fun id hid => ?_⟩
      cases id with
      | none => exact hmethods
      | some _ => cases hid
  | some ref =>
      rcases h with ⟨hname, hfresh, href, hmethods⟩
      refine ⟨hname, hfresh, fun _ heq => Option.some.inj heq ▸ href, fun id hid => ?_⟩
      cases id with
      | none => cases hid
      | some _ => exact hmethods

/-- A function that can be called. An initializer is bound to its object by then. -/
def ClosureOk (A : Addresses) (store : Store) (f : Closure) : Prop :=
  ∃ Γ, Matches store f.env.chain Γ ∧ f.decl.Linked A Γ ∧
    (f.isInitializer = true → ∃ Γ', Γ = .this :: Γ')

/-- A method as its class keeps it, which belongs to no object yet. -/
def MethodOk (A : Addresses) (store : Store) (f : Closure) : Prop :=
  ∃ Γ, Matches store f.env.chain Γ ∧ f.decl.Linked A (.this :: Γ)

/-- A function stays callable while the store and the addresses grow. -/
theorem ClosureOk.mono {A A' : Addresses} (hle : A ≤ A') {s s' : Store} (hkeeps : s.Keeps s')
    {f : Closure} (h : ClosureOk A s f) : ClosureOk A' s' f := by
  rcases h with ⟨Γ, hmatches, hlinked, hinit⟩
  exact ⟨Γ, hmatches.mono hkeeps, FunctionDecl.linked_mono hle _ hlinked, hinit⟩

/-- A method stays good when the table gains entries and the store gains bindings. -/
theorem MethodOk.mono {A A' : Addresses} (hle : A ≤ A') {s s' : Store} (hkeeps : s.Keeps s')
    {f : Closure} (h : MethodOk A s f) : MethodOk A' s' f := by
  rcases h with ⟨Γ, hmatches, hlinked⟩
  exact ⟨Γ, hmatches.mono hkeeps, FunctionDecl.linked_mono hle _ hlinked⟩

/-- A machine that has no globals but those whose names have the property `G`. -/
structure Machine.Sound (A : Addresses) (G : String → Prop) (m : Machine) : Prop where
  globals : FrameOk m.store 0 (.names [])
  named : ∀ x, (m.store.frame 0).contains x = true → G x
  functions : ∀ id, ClosureOk A m.store (m.function id)
  methods : ∀ id name f, (m.classInfo id).methods.get? name = some f → MethodOk A m.store f

/-- A machine stays sound when more addresses become known. -/
theorem Machine.Sound.mono {A A' : Addresses} (hle : A ≤ A') {G : String → Prop} {m : Machine}
    (h : m.Sound A G) : m.Sound A' G where
  globals := h.globals
  named := h.named
  functions id := (h.functions id).mono hle (.refl _)
  methods id name f hf := (h.methods id name f hf).mono hle (.refl _)

/-- The methods that are inherited are methods of some class, too. -/
theorem Machine.Sound.findMethod? {A : Addresses} {G : String → Prop} {m : Machine}
    (h : m.Sound A G) {id : ClassId} {name : String} {f : Closure}
    (hf : m.findMethod? id name = some f) : MethodOk A m.store f := by
  rcases List.exists_of_findSome?_eq_some hf with ⟨c, -, hc⟩
  exact h.methods c name f hc

end LoxLang
