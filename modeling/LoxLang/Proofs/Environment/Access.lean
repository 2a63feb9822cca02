import LoxLang.Proofs.Eval.Heap

/-!
# Access by name and by distance

Collections of environments that are built step by step, and the two ways to a variable in them.

* `Environments.performAll` carries out any number of operations. One that fails leaves everything
  as it is.
* `Environments.Ordered`: an environment stands inside an older one or on its own, so that the chain
  of every environment comes to an end. Operations keep this.
* `Environments.Nearest e i name d j`: going `d` steps out from the environment `i`, one comes to
  the first environment `j` that binds `name`.
* `Environments.access_agrees`: access by name is access at that distance.
-/

namespace LoxLang

/-! ## The first frame that binds a name -/

namespace Store

variable {s : Store} {env : Env} {name : String} {d : Nat} {f : FrameId}

/-- The first frame of a chain that binds a name, with its distance. -/
def FirstAt (s : Store) (env : Env) (name : String) (d : Nat) (f : FrameId) : Prop :=
  ∃ before behind, env.chain = before ++ f :: behind ∧ before.length = d ∧
    (s.frame f).contains name = true ∧ ∀ g ∈ before, (s.frame g).get? name = none

/-- Either a name is bound somewhere in a chain, and then there is a first frame, or nowhere. -/
theorem firstAt_or_unbound (s : Store) (env : Env) (name : String) :
    (∃ d f, s.FirstAt env name d f) ∨ ∀ f ∈ env.chain, (s.frame f).get? name = none := by
  cases hfind : env.chain.find? fun f => (s.frame f).contains name with
  | none =>
      refine .inr fun f hf => ?_
      simpa [Bindings.contains] using List.find?_eq_none.1 hfind f hf
  | some f =>
      rcases List.find?_eq_some_iff_append.1 hfind with ⟨hbound, before, behind, heq, hfirst⟩
      exact .inl ⟨_, f, before, behind, heq, rfl, hbound, by simpa [Bindings.contains] using hfirst⟩

namespace FirstAt

theorem getElem?_chain (h : s.FirstAt env name d f) : env.chain[d]? = some f := by
  rcases h with ⟨before, behind, heq, rfl, -⟩
  simp [heq]

/-- The frame that binds the name first is reached at its distance. -/
theorem ancestor (h : s.FirstAt env name d f) :
    ∃ ancestor, env.ancestor d = .ok ancestor ∧ ancestor.frame = f :=
  Env.ancestor_of_chain h.getElem?_chain

/-- The value in the first frame is found by name, and at the distance of that frame. -/
theorem get (h : s.FirstAt env name d f) :
    ∃ v, (s.frame f).get? name = some v ∧ s.get env name = .ok v ∧ s.getAt env d name = .ok v := by
  rcases h.ancestor with ⟨ancestor, hancestor, rfl⟩
  rcases h with ⟨before, behind, heq, -, hbound, hfirst⟩
  rcases Option.isSome_iff_exists.1 hbound with ⟨v, hv⟩
  refine ⟨v, hv, ?_, ?_⟩
  · rw [Store.get, heq, List.findSome?_append, List.findSome?_eq_none_iff.2 hfirst]
    simp [hv]
  · rw [getAt_of_ancestor hancestor, hv, Option.elim_some]

/-- An assignment by name goes to the first frame, as does one at its distance. -/
theorem assign (h : s.FirstAt env name d f) (v : Value) :
    s.assign env name v = .ok (s.bind f name v) ∧
      s.assignAt env d name v = .ok (s.bind f name v) := by
  rcases h.ancestor with ⟨ancestor, hancestor, rfl⟩
  rcases h with ⟨before, behind, heq, -, hbound, hfirst⟩
  have hlocate : s.locate env name = .ok ancestor.frame := by
    have hfind : env.chain.find? (fun g => (s.frame g).contains name) = some ancestor.frame :=
      List.find?_eq_some_iff_append.2
        ⟨hbound, before, behind, heq, by simpa [Bindings.contains] using hfirst⟩
    rw [locate, hfind]
  constructor
  · rw [Store.assign, hlocate]
    rfl
  · rw [assignAt, hancestor]
    rfl

end FirstAt

/-- A name that is bound nowhere has no value, and cannot be assigned to. -/
theorem access_unbound (h : ∀ f ∈ env.chain, (s.frame f).get? name = none) :
    s.get env name = .error (.undefinedVariable name) ∧
      ∀ v, s.assign env name v = .error (.undefinedVariable name) := by
  refine ⟨by rw [Store.get, List.findSome?_eq_none_iff.2 h], fun v => ?_⟩
  have hfind : env.chain.find? (fun g => (s.frame g).contains name) = none :=
    List.find?_eq_none.2 fun g hg => by simp [Bindings.contains, h g hg]
  rw [Store.assign, locate, hfind]
  rfl

end Store

namespace Environments

/-! ## Operations -/

/-- The operations that make and change environments. -/
inductive Operation where
  | create (enclosing : Option Nat)
  | define (i : Nat) (name : String) (v : Value)
  | assign (i : Nat) (name : String) (v : Value)
  | assignAt (i distance : Nat) (name : String) (v : Value)

/-- The environment that an operation names exists. -/
def Operation.Fits (e : Environments) : Operation → Prop
  | create enclosing => ∀ i ∈ enclosing, i < e.envs.size
  | define i .. | assign i .. | assignAt i .. => i < e.envs.size

/-- Carries out an operation. One that fails changes nothing. -/
def perform (e : Environments) : Operation → Environments
  | .create enclosing => (e.create enclosing).2
  | .define i name v => e.define i name v
  | .assign i name v => (e.assign i name v).toOption.getD e
  | .assignAt i distance name v => (e.assignAt i distance name v).toOption.getD e

def performAll (e : Environments) : List Operation → Environments
  | [] => e
  | op :: ops => (e.perform op).performAll ops

/-- The environments that operations name exist when they are carried out. -/
def AllFit (e : Environments) : List Operation → Prop
  | [] => True
  | op :: ops => op.Fits e ∧ (e.perform op).AllFit ops

/-! ## Chains -/

def enclosing? (e : Environments) (i : Nat) : Option Nat := (e.env i).enclosing.head?

def chain (e : Environments) (i : Nat) : List Nat := (e.env i).chain

def binding? (e : Environments) (i : Nat) (name : String) : Option Value :=
  (e.store.frame (e.env i).frame).get? name

/-- Environments and their frames are numbered alike, and every environment stands inside an older
one or on its own. -/
structure Ordered (e : Environments) : Prop where
  size : e.store.frames.size = e.envs.size
  frame : ∀ i < e.envs.size, (e.env i).frame = i
  enclosing : ∀ i < e.envs.size,
    (e.env i).enclosing = [] ∨ ∃ j < i, (e.env i).enclosing = e.chain j

/-- A new environment leaves the older ones as they are. -/
theorem env_push {e : Environments} {store : Store} {env : Env} {i : Nat} (h : i < e.envs.size) :
    Environments.env ⟨store, e.envs.push env⟩ i = e.env i :=
  (getD_push ..).trans (if_neg (Nat.ne_of_lt h))

theorem env_push_size (e : Environments) (store : Store) (env : Env) :
    Environments.env ⟨store, e.envs.push env⟩ e.envs.size = env :=
  (getD_push ..).trans (if_pos rfl)

namespace Ordered

variable {e : Environments} {i : Nat}

theorem empty : Ordered Environments.empty :=
  ⟨rfl, fun _ h => absurd h (Nat.not_lt_zero _), fun _ h => absurd h (Nat.not_lt_zero _)⟩

/-- A new environment is inside older ones. -/
theorem create (h : e.Ordered) {enclosing : Option Nat} (hfits : ∀ i ∈ enclosing, i < e.envs.size) :
    (e.create enclosing).2.Ordered := by
  refine ⟨by simp [Environments.create, Store.alloc, h.size], fun i hi => ?_, fun i hi => ?_⟩
  · rcases Nat.lt_succ_iff_lt_or_eq.1 (by simpa [Environments.create] using hi) with hold | rfl
    · exact (congrArg Env.frame (env_push hold)).trans (h.frame i hold)
    · exact (congrArg Env.frame (env_push_size e _ _)).trans h.size
  · rcases Nat.lt_succ_iff_lt_or_eq.1 (by simpa [Environments.create] using hi) with hold | rfl
    · rw [show (e.create enclosing).2.env i = e.env i from env_push hold]
      rcases h.enclosing i hold with hnone | ⟨j, hj, heq⟩
      · exact .inl hnone
      · exact .inr ⟨j, hj, heq.trans (congrArg Env.chain (env_push (Nat.lt_trans hj hold)).symm)⟩
    · rw [show (e.create enclosing).2.env e.envs.size = _ from env_push_size e _ _]
      cases enclosing with
      | none => exact .inl rfl
      | some j => exact .inr ⟨j, hfits j rfl, congrArg Env.chain (env_push (hfits j rfl)).symm⟩

/-- Nothing that is bound changes how environments stand inside each other. -/
theorem bind (h : e.Ordered) (f : FrameId) (name : String) (v : Value) :
    Ordered { e with store := e.store.bind f name v } :=
  ⟨(Store.size_bind e.store f name v).trans h.size, h.frame, h.enclosing⟩

/-- One operation, of whichever kind and whether it fails or not, keeps the environments in
order. -/
theorem perform (h : e.Ordered) {op : Operation} (hfits : op.Fits e) : (e.perform op).Ordered := by
  cases op with
  | create enclosing => exact h.create hfits
  | define i name v => exact h.bind _ name v
  | assign i name v =>
      change ((e.assign i name v).toOption.getD e).Ordered
      unfold Environments.assign Store.assign
      cases e.store.locate (e.env i) name with
      | error fault => exact h
      | ok f => exact h.bind f name v
  | assignAt i distance name v =>
      change ((e.assignAt i distance name v).toOption.getD e).Ordered
      unfold Environments.assignAt Store.assignAt
      cases (e.env i).ancestor distance with
      | error d => exact h
      | ok ancestor => exact h.bind ancestor.frame name v

/-- Any number of operations keep them in order, by induction on the operations. -/
theorem performAll {ops : List Operation} (h : e.Ordered) (hfit : e.AllFit ops) :
    (e.performAll ops).Ordered := by
  induction ops generalizing e with
  | nil => exact h
  | cons op ops ih => exact ih (h.perform hfit.1) hfit.2

/-- The chain of an environment goes on with that of the environment around it, which is older. -/
theorem chain_eq (h : e.Ordered) (hi : i < e.envs.size) :
    e.chain i = i :: (e.enclosing? i).elim [] e.chain ∧ ∀ j ∈ e.enclosing? i, j < i := by
  have hframe := h.frame i hi
  unfold chain enclosing? Env.chain
  rw [hframe]
  -- an environment stands alone, or inside of an older one
  rcases h.enclosing i hi with hnone | ⟨j, hj, heq⟩
  · rw [hnone]
    exact ⟨rfl, nofun⟩
  · have hhead : (e.env i).enclosing.head? = some j := by
      rw [heq, chain, Env.chain, h.frame j (Nat.lt_trans hj hi), List.head?_cons]
    rw [hhead]
    refine ⟨?_, ?_⟩
    · rw [heq]
      rfl
    · rintro _ ⟨⟩
      exact hj

/-- All environments of a chain exist. -/
theorem lt_size_of_mem_chain (h : e.Ordered) (hi : i < e.envs.size) {j : Nat} (hj : j ∈ e.chain i) :
    j < e.envs.size := by
  induction i using Nat.strongRecOn with
  | ind i ih =>
      rcases h.chain_eq hi with ⟨heq, holder⟩
      rw [heq] at hj
      rcases List.mem_cons.1 hj with rfl | hj
      · exact hi
      · cases henclosing : e.enclosing? i with
        | none => rw [henclosing] at hj; cases hj
        | some k =>
            rw [henclosing] at hj
            have hk := holder k henclosing
            exact ih k hk (Nat.lt_trans hk hi) hj

/-- In an environment that exists, the entries are those of the frame of the same number. -/
theorem binding?_eq (h : e.Ordered) (hi : i < e.envs.size) (name : String) :
    e.binding? i name = (e.store.frame i).get? name := by
  rw [binding?, h.frame i hi]

/-- Binding a name makes one entry. -/
theorem binding?_bind (h : e.Ordered) {j : Nat} (hj : j < e.envs.size) (name : String) (v : Value)
    (k : Nat) (x : String) :
    Environments.binding? { e with store := e.store.bind j name v } k x =
      if k = j ∧ x = name then some v else e.binding? k x := by
  have hsize : j < e.store.frames.size := h.size ▸ hj
  have hframe : (e.env k).frame = k := by
    by_cases hk : k < e.envs.size
    · exact h.frame k hk
    · rw [Environments.env, getD_of_le (Nat.le_of_not_lt hk)]
  change ((e.store.bind j name v).frame (e.env k).frame).get? x = _
  rw [binding?, hframe, Store.frame_bind e.store hsize]
  by_cases hk : j = k
  · subst hk
    simp [Bindings.get?_insert, eq_comm]
  · simp [hk, Ne.symm hk]

end Ordered

/-! ## The two ways -/

/-- The first environment that binds a name, with its distance. -/
structure Nearest (e : Environments) (i : Nat) (name : String) (d j : Nat) : Prop where
  reached : e.ancestor i d = .ok j
  bound : (e.binding? j name).isSome = true
  first : ∀ d' < d, ∀ j', e.ancestor i d' = .ok j' → e.binding? j' name = none

/-- The ancestor at a distance is the member of the chain with that number, if the chain is long
enough. -/
theorem ancestor_eq (e : Environments) (i d : Nat) :
    e.ancestor i d = ((e.chain i)[d]?).elim (.error .beyondGlobals) .ok :=
  Env.map_frame_ancestor (e.env i) d

theorem ancestor_eq_ok_iff {e : Environments} {i d j : Nat} :
    e.ancestor i d = .ok j ↔ (e.chain i)[d]? = some j := by
  rw [ancestor_eq]
  cases (e.chain i)[d]? with
  | none => simp
  | some _ => simp

/-- One can go outwards as often as there are links, and no further. -/
theorem ancestor_eq_error_iff (e : Environments) (i d : Nat) :
    e.ancestor i d = .error .beyondGlobals ↔ (e.env i).enclosing.length < d := by
  have hlength : (e.chain i).length = (e.env i).enclosing.length + 1 := rfl
  rw [ancestor_eq]
  cases hget : (e.chain i)[d]? with
  | none =>
      have := List.getElem?_eq_none_iff.1 hget
      simp
      omega
  | some j =>
      have := (List.getElem?_eq_some_iff.1 hget).1
      simp
      omega

/-- There is one first environment that binds a name. -/
theorem Nearest.unique {e : Environments} {i d d' j j' : Nat} {name : String}
    (h : e.Nearest i name d j) (h' : e.Nearest i name d' j') : d' = d ∧ j' = j := by
  rcases Nat.lt_trichotomy d' d with hlt | rfl | hlt
  · have hnone := h.first d' hlt j' h'.reached
    rw [Option.eq_none_iff_forall_ne_some] at hnone
    rcases Option.isSome_iff_exists.1 h'.bound with ⟨v, hv⟩
    exact absurd hv (hnone v)
  · exact ⟨rfl, Except.ok.inj (h'.reached.symm.trans h.reached)⟩
  · have hnone := h'.first d hlt j h.reached
    rw [Option.eq_none_iff_forall_ne_some] at hnone
    rcases Option.isSome_iff_exists.1 h.bound with ⟨v, hv⟩
    exact absurd hv (hnone v)

namespace Ordered

variable {e : Environments} {i : Nat} {name : String}

/-- Along a chain, the entries are those of the frames. -/
theorem binding?_of_mem_chain (h : e.Ordered) (hi : i < e.envs.size) {k : Nat} (hk : k ∈ e.chain i)
    (x : String) : e.binding? k x = (e.store.frame k).get? x :=
  h.binding?_eq (h.lt_size_of_mem_chain hi hk) x

/-- The first frame that binds a name belongs to the nearest environment that does. -/
theorem nearest (h : e.Ordered) (hi : i < e.envs.size) {d j : Nat}
    (hfirst : e.store.FirstAt (e.env i) name d j) : e.Nearest i name d j := by
  have hj : (e.chain i)[d]? = some j := hfirst.getElem?_chain
  refine ⟨ancestor_eq_ok_iff.2 hj, ?_, fun d' hd' j' hj' => ?_⟩
  · rcases hfirst.get with ⟨v, hv, -⟩
    rw [h.binding?_of_mem_chain hi (List.mem_of_getElem? hj), hv]
    rfl
  · have hget := ancestor_eq_ok_iff.1 hj'
    rw [h.binding?_of_mem_chain hi (List.mem_of_getElem? hget)]
    rcases hfirst with ⟨before, behind, heq, rfl, -, hnone⟩
    rw [chain, heq, List.getElem?_append_left hd'] at hget
    exact hnone j' (List.mem_of_getElem? hget)

/-- Either the chain binds a name, and then there is a nearest environment that does, or it does
not. -/
theorem firstAt_or_unbound (h : e.Ordered) (hi : i < e.envs.size) (name : String) :
    (∃ d j, e.store.FirstAt (e.env i) name d j ∧ e.Nearest i name d j) ∨
      ∀ k ∈ e.chain i, e.binding? k name = none := by
  rcases e.store.firstAt_or_unbound (e.env i) name with ⟨d, j, hfirst⟩ | hnone
  · exact .inl ⟨d, j, hfirst, h.nearest hi hfirst⟩
  · exact .inr fun k hk => (h.binding?_of_mem_chain hi hk name).trans (hnone k hk)

/-- The nearest environment decides what access by name does: the same as access at its distance. -/
theorem access_nearest (h : e.Ordered) (hi : i < e.envs.size) {d j : Nat}
    (hnearest : e.Nearest i name d j) :
    (∃ v, e.binding? j name = some v ∧ e.get i name = .ok v ∧ e.getAt i d name = .ok v) ∧
      ∀ v, ∃ e', e.assign i name v = .ok e' ∧ e.assignAt i d name v = .ok e' ∧
        e'.envs = e.envs ∧
        ∀ k x, e'.binding? k x = if k = j ∧ x = name then some v else e.binding? k x := by
  have hj := List.mem_of_getElem? (ancestor_eq_ok_iff.1 hnearest.reached)
  -- The nearest environment that binds the name is the one at which access by name stops.
  rcases h.firstAt_or_unbound hi name with ⟨d', j', hfirst, hnearest'⟩ | hnone
  · rcases hnearest.unique hnearest' with ⟨rfl, rfl⟩
    constructor
    · rcases hfirst.get with ⟨v, hv, hget, hgetAt⟩
      exact ⟨v, (h.binding?_of_mem_chain hi hj name).trans hv, hget, hgetAt⟩
    · intro v
      rcases hfirst.assign v with ⟨hassign, hassignAt⟩
      refine ⟨{ e with store := e.store.bind j' name v }, ?_, ?_, rfl,
        h.binding?_bind (h.lt_size_of_mem_chain hi hj) name v⟩
      · rw [Environments.assign, hassign]
        rfl
      · rw [Environments.assignAt, hassignAt]
        rfl
  · have hbound := hnearest.bound
    rw [hnone j hj] at hbound
    cases hbound

/-- Where no environment of the chain binds a name, access by name fails. -/
theorem access_unbound (h : e.Ordered) (hi : i < e.envs.size)
    (hnone : ∀ k ∈ e.chain i, e.binding? k name = none) :
    e.get i name = .error (.undefinedVariable name) ∧
      ∀ v, e.assign i name v = .error (.undefinedVariable name) := by
  have hunbound : ∀ f ∈ (e.env i).chain, (e.store.frame f).get? name = none := fun f hf =>
    (h.binding?_of_mem_chain hi hf name).symm.trans (hnone f hf)
  rcases Store.access_unbound hunbound with ⟨hget, hassign⟩
  refine ⟨hget, fun v => ?_⟩
  rw [Environments.assign, hassign]
  rfl

end Ordered

/-- In a collection that has been built by any operations, access by name and access by distance
agree. The chain of an environment comes to an end, and one can go outwards as far as it reaches. A
name has a value, and can be assigned to, just if some environment of the chain binds it. Then there
is a nearest one that does, and access by name is access at its distance: it gives the same value,
and an assignment makes one entry there and leaves all others as they are. Otherwise the name is not
defined, and nothing changes. -/
theorem access_agrees {ops : List Operation} (hops : empty.AllFit ops) {i : Nat}
    (hi : i < (empty.performAll ops).envs.size) (name : String) :
    let e := empty.performAll ops
    let bound := ∃ j ∈ e.chain i, (e.binding? j name).isSome = true
    (e.chain i = i :: (e.enclosing? i).elim [] e.chain ∧ ∀ j ∈ e.enclosing? i, j < i) ∧
    (∀ d, (e.ancestor i d = .error .beyondGlobals ↔ (e.env i).enclosing.length < d) ∧
      ∀ j, e.ancestor i d = .ok j ↔ (e.chain i)[d]? = some j) ∧
    ((∃ v, e.get i name = .ok v) ↔ bound) ∧
    (∀ v, (∃ e', e.assign i name v = .ok e') ↔ bound) ∧
    (bound → ∃ d j, e.Nearest i name d j) ∧
    (∀ d j, e.Nearest i name d j →
      (∃ v, e.binding? j name = some v ∧ e.get i name = .ok v ∧ e.getAt i d name = .ok v) ∧
      ∀ v, ∃ e', e.assign i name v = .ok e' ∧ e.assignAt i d name v = .ok e' ∧
        e'.envs = e.envs ∧
        ∀ k x, e'.binding? k x = if k = j ∧ x = name then some v else e.binding? k x) ∧
    (¬ bound → ∃ fault : RuntimeFault, fault.message = "Undefined variable '" ++ name ++ "'." ∧
      e.get i name = .error fault ∧
      ∀ v, e.assign i name v = .error fault ∧ e.perform (.assign i name v) = e) := by
  intro e bound
  have hordered : e.Ordered := Ordered.empty.performAll hops
  have hbound : ∀ {d j}, e.Nearest i name d j → bound := fun {d j} hj =>
    ⟨j, List.mem_of_getElem? (ancestor_eq_ok_iff.1 hj.reached), hj.bound⟩
  have hnone : ¬ bound → ∀ k ∈ e.chain i, e.binding? k name = none := fun hunbound k hk =>
    Option.not_isSome_iff_eq_none.1 fun hsome => hunbound ⟨k, hk, hsome⟩
  -- If any environment of the chain binds the name, one of them is the nearest that does.
  have hnearest : bound → ∃ d j, e.Nearest i name d j := by
    rintro ⟨k, hk, hsome⟩
    rcases hordered.firstAt_or_unbound hi name with ⟨d, j, -, hnearest⟩ | hunbound
    · exact ⟨d, j, hnearest⟩
    · rw [hunbound k hk] at hsome
      cases hsome
  refine ⟨hordered.chain_eq hi, fun d => ⟨ancestor_eq_error_iff e i d, fun j =>
    ancestor_eq_ok_iff⟩, ⟨?_, ?_⟩, fun v => ⟨?_, ?_⟩, hnearest,
    fun d j => hordered.access_nearest hi, ?_⟩
  -- a value is read only where some environment binds the name
  · rintro ⟨v, hv⟩
    rcases hordered.firstAt_or_unbound hi name with ⟨d, j, -, hj⟩ | hunbound
    · exact hbound hj
    · rw [(hordered.access_unbound hi hunbound).1] at hv
      cases hv
  · intro hsome
    rcases hnearest hsome with ⟨d, j, hj⟩
    rcases (hordered.access_nearest hi hj).1 with ⟨v, -, hv, -⟩
    exact ⟨v, hv⟩
  -- nor does an assignment succeed anywhere else
  · rintro ⟨e', he'⟩
    rcases hordered.firstAt_or_unbound hi name with ⟨d, j, -, hj⟩ | hunbound
    · exact hbound hj
    · rw [(hordered.access_unbound hi hunbound).2 v] at he'
      cases he'
  · intro hsome
    rcases hnearest hsome with ⟨d, j, hj⟩
    rcases (hordered.access_nearest hi hj).2 v with ⟨e', he', -⟩
    exact ⟨e', he'⟩
  -- where none binds it, both fail, and the environments stay as they are
  · intro hunbound
    rcases hordered.access_unbound hi (hnone hunbound) with ⟨hget, hassign⟩
    refine ⟨.undefinedVariable name, rfl, hget, fun v => ⟨hassign v, ?_⟩⟩
    rw [perform, hassign v]
    rfl

/-- In the innermost of three environments, a name of the outermost one is hidden by the one
between, but not for a neighbour that stands in the outermost one. -/
theorem access_agrees_shadowed :
    let ops : List Operation := [.create none, .create (some 0), .create (some 1), .create (some 0),
      .define 0 "x" .nil, .assignAt 2 1 "x" (.bool true)]
    let e := empty.performAll ops
    empty.AllFit ops ∧ 2 < e.envs.size ∧ e.Nearest 2 "x" 1 1 ∧ e.get 2 "x" = .ok (.bool true) ∧
      ∃ e', e.assign 2 "x" (.bool false) = .ok e' ∧ e'.binding? 1 "x" = some (.bool false) ∧
        e'.binding? 0 "x" = some .nil ∧ e'.chain 3 = [3, 0] := by
  intro ops e
  have hops : empty.AllFit ops := by
    simp only [ops, AllFit, Operation.Fits, Option.mem_def, Option.some.injEq, forall_eq']
    decide
  have hsize : 2 < e.envs.size := by decide
  have hnearest : e.Nearest 2 "x" 1 1 := by
    -- the only environment before it is the innermost one, which does not bind `x`
    refine ⟨rfl, rfl, fun d' hd' j' hj' => ?_⟩
    obtain rfl : d' = 0 := Nat.lt_one_iff.1 hd'
    obtain rfl : 2 = j' := Except.ok.inj hj'
    rfl
  rcases access_agrees hops hsize "x" with ⟨-, -, -, -, -, hnearby, -⟩
  rcases hnearby 1 1 hnearest with ⟨⟨v, hv, hget, -⟩, hassign⟩
  obtain rfl : .bool true = v := Option.some.inj hv
  rcases hassign (.bool false) with ⟨e', he', -, henvs, hentries⟩
  refine ⟨hops, hsize, hnearest, hget, e', he', hentries 1 "x", (hentries 0 "x").trans rfl, ?_⟩
  unfold chain Environments.env
  rw [henvs]
  rfl

end Environments

end LoxLang
