import LoxLang.Proofs.Eval.Heap

/-!
# Steps that do not fail

The single steps of a linked program, on a sound machine.

* `Halt.Allowed` are the reasons for which a linked program may halt: no step fails that was ruled
  out before, and no class declaration misses the name that it has just made.
* `Behaves A G m x Q`: from the machine `m`, the action `x` ends in a sound machine that has kept
  what was known of its frames, and either has the result `Q`, or halts for such a reason.
-/

namespace LoxLang

open Layer

/-- A fault other than that of a class declaration that misses its own name. -/
def RuntimeFault.Allowed : RuntimeFault → Prop
  | .undefinedClass _ => False
  | _ => True

def Halt.Allowed : Halt → Prop
  | .error e => e.fault.Allowed
  | .defect _ => False
  | .unfinished => True

def Behaves {α : Type} (A : Addresses) (G : String → Prop) (m : Machine) (x : Exec α)
    (Q : α → Machine → Prop) : Prop :=
  match x m with
  | .ok a m' => m'.Sound A G ∧ m.store.Keeps m'.store ∧ Q a m'
  | .error reason m' => m'.Sound A G ∧ reason.Allowed

/-! ## Rules -/

namespace Behaves

variable {α β : Type} {A : Addresses} {G : String → Prop} {m : Machine} {x : Exec α}
  {f : α → Exec β} {Q Q' : α → Machine → Prop} {R : β → Machine → Prop}

/-- The machine is sound again between two actions, and nothing that was bound before has been
lost. -/
theorem bind (hx : Behaves A G m x Q)
    (hf : ∀ a m', m'.Sound A G → m.store.Keeps m'.store → Q a m' → Behaves A G m' (f a) R) :
    Behaves A G m (x >>= f) R := by
  unfold Behaves at hx ⊢
  cases hrun : x m with
  | error reason m' =>
      rw [hrun] at hx
      rw [Halt.bind_error hrun]
      exact hx
  | ok a m' =>
      rw [hrun] at hx
      rw [Halt.bind_ok hrun]
      rcases hx with ⟨hsound, hkeeps, hQ⟩
      -- The machine that the first action leaves is sound, so the second one behaves on it.
      have hrest := hf a m' hsound hkeeps hQ
      unfold Behaves at hrest
      cases hrun' : f a m' with
      | error reason m'' =>
          rw [hrun'] at hrest
          exact hrest
      | ok b m'' =>
          rw [hrun'] at hrest
          exact ⟨hrest.1, hkeeps.trans hrest.2.1, hrest.2.2⟩

/-- What is known of the results may be weakened by what the frames keep. -/
theorem mono (hx : Behaves A G m x Q) (hQ : ∀ a m', m.store.Keeps m'.store → Q a m' → Q' a m') :
    Behaves A G m x Q' := by
  unfold Behaves at hx ⊢
  cases hrun : x m with
  | error reason m' =>
      rw [hrun] at hx
      exact hx
  | ok a m' =>
      rw [hrun] at hx
      exact ⟨hx.1, hx.2.1, hQ a m' hx.2.1 hx.2.2⟩

/-- An action that looks at the machine first. -/
theorem of_get {f : Machine → Exec β} (h : Behaves A G m (f m) R) : Behaves A G m (get >>= f) R := h

theorem pure (hm : m.Sound A G) {a : α} (ha : Q a m) : Behaves A G m (Pure.pure a) Q :=
  ⟨hm, .refl _, ha⟩

/-- An error that the language allows is no misbehaviour. -/
theorem raise (hm : m.Sound A G) {fault : RuntimeFault} (hfault : fault.Allowed) (token : Token) :
    Behaves A G m (Exec.raise fault token) Q :=
  ⟨hm, hfault⟩

theorem orRaise (hm : m.Sound A G) {result : Except RuntimeFault α}
    (hfault : ∀ fault, result = .error fault → fault.Allowed) (token : Token) :
    Behaves A G m (Exec.orRaise token result) fun a m' => result = .ok a ∧ m' = m := by
  cases result with
  | ok a => exact pure hm ⟨rfl, rfl⟩
  | error fault => exact raise hm (hfault fault rfl) token

/-- An address that leads somewhere. -/
theorem orDefect (hm : m.Sound A G) {result : Except Defect α} {a : α} (h : result = .ok a) :
    Behaves A G m (Exec.orDefect result) fun a' m' => a' = a ∧ m' = m := by
  subst h
  exact pure hm ⟨rfl, rfl⟩

end Behaves

/-! ## Variables -/

namespace Exec

variable {A : Addresses} {G : String → Prop} {m : Machine} {ctx : Context} {env : Env}
  {Γ : List Layer}

/-- A frame in which a name may be bound: the globals take only certain names. -/
def Takes (G : String → Prop) (f : FrameId) (x : String) : Prop := f = 0 → G x

/-- A name may be bound in a frame unless it is a global that may not be. -/
theorem behaves_bindIn (hm : m.Sound A G) {f : FrameId} {x : String} (hx : IsName x)
    (htakes : Takes G f x) (v : Value) :
    Behaves A G m (bindIn f x v) fun _ m' => m'.store = m.store.bind f x v := by
  have hkeeps := Store.keeps_bind m.store f hx v
  -- Only a binding in the outermost frame can make a new name global.
  have hnamed : ∀ y, ((m.store.bind f x v).frame 0).contains y = true → G y := by
    intro y hy
    by_cases hf : f = 0
    · subst hf
      rw [Store.frame_bind _ hm.globals.lt_size, if_pos rfl, Bindings.contains_insert] at hy
      rcases Bool.or_eq_true_iff.1 hy with heq | hold
      · exact of_decide_eq_true heq ▸ htakes rfl
      · exact hm.named y hold
    · refine hm.named y ?_
      by_cases hlt : f < m.store.frames.size
      · rwa [Store.frame_bind _ hlt, if_neg hf] at hy
      · rwa [Store.bind_of_le (Nat.le_of_not_lt hlt)] at hy
  refine ⟨⟨hkeeps.frames _ _ hm.globals, hnamed, ?_, ?_⟩, hkeeps, rfl⟩
  · intro id
    exact (hm.functions id).mono A.le_refl hkeeps
  · intro id name g hg
    exact (hm.methods id name g hg).mono A.le_refl hkeeps

/-- A name that is made in the innermost frame is bound there afterwards, and its layer declares
it. -/
theorem behaves_define (hm : m.Sound A G) (henv : Matches m.store env.chain Γ) {x : String}
    (hx : IsName x) (hG : Γ = [] → G x) (v : Value) :
    Behaves A G m (define env x v) fun _ m' =>
      Matches m'.store env.chain (add x Γ) ∧ FrameOk m'.store env.frame (.names [x]) := by
  refine (behaves_bindIn hm hx (fun hf => hG (henv.eq_nil hf)) v).mono ?_
  intro _ m' _ hstore
  rw [hstore]
  refine ⟨Store.matches_bind henv hx v, by simpa [Store.size_bind] using henv.lt_size, ?_⟩
  intro y hy
  rw [List.mem_singleton.1 hy, Store.frame_bind _ henv.lt_size]
  exact ⟨v, by simp⟩

/-- A scope is opened with a frame that binds what its layer declares at first. -/
theorem behaves_enter (hm : m.Sound A G) (henv : Matches m.store env.chain Γ) {frame : Frame}
    {l : Layer} (hframe : FrameBinds frame l) (hapart : FrameApart frame l) :
    Behaves A G m (enter env frame) fun inner m' => Matches m'.store inner.chain (l :: Γ) := by
  have hkeeps := Store.keeps_push m.store frame
  have hnamed : ∀ x, (Store.frame ⟨m.store.frames.push frame⟩ 0).contains x = true → G x := by
    intro x hx
    rw [Store.frame_push _ _ hm.globals.lt_size] at hx
    exact hm.named x hx
  refine ⟨⟨hkeeps.frames _ _ hm.globals, hnamed, ?_, ?_⟩, hkeeps,
    Store.matches_push henv hframe hapart⟩
  · intro id
    exact (hm.functions id).mono A.le_refl hkeeps
  · intro id name g hg
    exact (hm.methods id name g hg).mono A.le_refl hkeeps

/-- A read by name fails with an undefined variable only. -/
theorem allowed_of_get {store : Store} {x : String} {fault : RuntimeFault}
    (h : store.get env x = .error fault) : fault.Allowed := by
  unfold Store.get at h
  split at h
  · cases h
  · cases h
    trivial

theorem allowed_of_locate {store : Store} {x : String} {fault : RuntimeFault}
    (h : store.locate env x = .error fault) : fault.Allowed := by
  unfold Store.locate at h
  split at h
  · cases h
  · cases h
    trivial

theorem contains_of_locate {store : Store} {x : String} {f : FrameId}
    (h : store.locate env x = .ok f) : (store.frame f).contains x = true := by
  unfold Store.locate at h
  split at h
  · rename_i hfind
    cases h
    have hcontains := List.find?_some hfind
    exact hcontains
  · cases h

/-- Among the globals a look-up cannot go wrong but by an undefined variable. -/
theorem behaves_getByName (hm : m.Sound A G) (name : Token) :
    Behaves A G m (getByName env name) fun _ _ => True := by
  have hfault := fun fault => @allowed_of_get env m.store name.lexeme fault
  exact (Behaves.orRaise hm hfault name).mono fun _ _ _ _ => trivial

theorem behaves_assignByName (hm : m.Sound A G) {name : Token} (hname : IsName name.lexeme)
    (v : Value) : Behaves A G m (assignByName env name v) fun _ _ => True := by
  have hfault := fun fault => @allowed_of_locate env m.store name.lexeme fault
  refine (Behaves.orRaise hm hfault name).bind ?_
  rintro f _ _ - ⟨hlocate, rfl⟩
  have htakes : Takes G f name.lexeme := by
    rintro rfl
    exact hm.named _ (contains_of_locate hlocate)
  exact (behaves_bindIn hm hname htakes v).mono fun _ _ _ _ => trivial

/-- A name that is bound at its distance is read without a failure. -/
theorem behaves_getAt (hm : m.Sound A G) {d : Nat} {x : String} {v : Value}
    (h : m.store.getAt env d x = .ok v) :
    Behaves A G m (getAt env d x) fun v' m' => v' = v ∧ m' = m :=
  Behaves.orDefect hm h

/-- An assignment at a distance reaches a frame that exists, which is not the one of the globals. -/
theorem behaves_assignAt (hm : m.Sound A G) {d : Nat} {x : String} (hx : IsName x) {ancestor : Env}
    (h : env.ancestor d = .ok ancestor) (hne : ancestor.frame ≠ 0) (v : Value) :
    Behaves A G m (assignAt env d x v) fun _ _ => True := by
  refine (Behaves.orDefect hm h).bind ?_
  rintro a m' hm' _ ⟨rfl, rfl⟩
  exact (behaves_bindIn hm' hx (fun hf => absurd hf hne) v).mono fun _ _ _ _ => trivial

/-- A use of a name that is linked to its layer has a value, or is a global without one. -/
theorem behaves_lookUp (hm : m.Sound A G) (henv : Matches m.store env.chain Γ) {id : NodeId}
    {name : Token} (h : ctx.links[id]? = depth? name.lexeme Γ) :
    Behaves A G m (lookUp ctx env id name) fun _ _ => True := by
  unfold lookUp
  rw [h]
  cases hdepth : depth? name.lexeme Γ with
  | none => exact behaves_getByName hm name
  | some d =>
      rcases henv.getAt hdepth with ⟨v, hv⟩
      exact (behaves_getAt hm hv).mono fun _ _ _ _ => trivial

/-- An assignment to a name, which in the initializer of a variable may be that variable. -/
theorem behaves_assign (hm : m.Sound A G) (henv : Matches m.store env.chain Γ) {id : NodeId}
    {name : Token} (hname : IsName name.lexeme) {self : Option String}
    (hself : self ≠ none → Γ ≠ [])
    (h : ctx.links[id]? = if self = some name.lexeme then some 0 else depth? name.lexeme Γ)
    (v : Value) : Behaves A G m (assign ctx env id name v) fun _ _ => True := by
  unfold assign
  rw [h]
  split
  · -- The variable is not bound yet: the assignment makes it, in the innermost frame.
    rename_i d hd
    by_cases hsame : self = some name.lexeme
    · rw [if_pos hsame] at hd
      cases hd
      have hne : env.frame ≠ 0 := fun hf => hself (by simp [hsame]) (henv.eq_nil hf)
      exact behaves_assignAt hm hname rfl hne v
    · rw [if_neg hsame] at hd
      rcases getElem?_of_depth? hd with ⟨l, hl, -⟩
      rcases henv.ancestor hl with ⟨ancestor, hancestor, -, hne⟩
      exact behaves_assignAt hm hname hancestor hne v
  · exact behaves_assignByName hm hname v

/-! ## Functions and objects -/

/-- A function may be kept whose environment matches the layers that it is linked in. -/
theorem behaves_newFunction (hm : m.Sound A G) {f : Closure} (hf : ClosureOk A m.store f) :
    Behaves A G m (newFunction f) fun _ m' => m'.store = m.store := by
  refine ⟨⟨hm.globals, hm.named, ?_, hm.methods⟩, .refl _, rfl⟩
  intro id
  rw [Machine.function_push]
  split
  · exact hf
  · exact hm.functions id

/-- A method that is bound to an object can be called. -/
theorem behaves_bindMethod (hm : m.Sound A G) {f : Closure} (hf : MethodOk A m.store f)
    (object : ObjectId) :
    Behaves A G m (bindMethod f object) fun g m' => ClosureOk A m'.store g ∧ g.decl = f.decl := by
  rcases hf with ⟨Γ, henv, hlinked⟩
  have hbinds : FrameBinds (Bindings.empty.insert "this" (.object object)) .this :=
    ⟨object, by simp⟩
  have hapart : FrameApart (Bindings.empty.insert "this" (.object object)) .this :=
    (frameApart_empty .this).insert (.inr rfl) _
  refine (behaves_enter hm henv hbinds hapart).bind ?_
  intro inner m' hm' _ hinner
  exact .pure hm' ⟨⟨.this :: Γ, hinner, hlinked, fun _ => ⟨Γ, rfl⟩⟩, rfl⟩

theorem behaves_newObject (hm : m.Sound A G) (classId : ClassId) :
    Behaves A G m (newObject classId) fun _ _ => True :=
  ⟨⟨hm.globals, hm.named, hm.functions, hm.methods⟩, .refl _, trivial⟩

/-- The fields of objects play no part in the soundness of a machine. -/
theorem behaves_setField (hm : m.Sound A G) (object : ObjectId) (x : String) (v : Value) :
    Behaves A G m (setField object x v) fun _ _ => True :=
  ⟨⟨hm.globals, hm.named, hm.functions, hm.methods⟩, .refl _, trivial⟩

theorem behaves_print (hm : m.Sound A G) (v : Value) : Behaves A G m (print v) fun _ _ => True :=
  ⟨⟨hm.globals, hm.named, hm.functions, hm.methods⟩, .refl _, trivial⟩

theorem behaves_readClock (hm : m.Sound A G) (host : Host) :
    Behaves A G m (readClock host) fun _ _ => True :=
  ⟨⟨hm.globals, hm.named, hm.functions, hm.methods⟩, .refl _, trivial⟩

theorem behaves_methodOf (hm : m.Sound A G) (classId : ClassId) (object : ObjectId) (name : Token) :
    Behaves A G m (methodOf classId object name) fun _ _ => True := by
  refine .of_get ?_
  cases hfind : m.findMethod? classId name.lexeme with
  | none => exact .raise hm (by trivial) name
  | some method =>
      refine (behaves_bindMethod hm (hm.findMethod? hfind) object).bind ?_
      intro g m' hm' _ hg
      exact (behaves_newFunction hm' hg.1).mono fun _ _ _ _ => trivial

theorem behaves_getProperty (hm : m.Sound A G) (v : Value) (name : Token) :
    Behaves A G m (getProperty v name) fun _ _ => True := by
  cases v with
  | object id =>
      refine .of_get ?_
      dsimp only
      cases (m.object id).fields.get? name.lexeme with
      | some field => exact .pure hm trivial
      | none => exact behaves_methodOf hm _ id name
  | _ => exact .raise hm (by trivial) name

theorem behaves_asObject (hm : m.Sound A G) (v : Value) (name : Token) :
    Behaves A G m (asObject v name) fun _ _ => True := by
  cases v with
  | object id => exact .pure hm trivial
  | _ => exact .raise hm (by trivial) name

/-- `super` names a class, and in the layer just inside of it `this` names an object. -/
theorem behaves_superMethod (hm : m.Sound A G) (henv : Matches m.store env.chain Γ) {id : NodeId}
    {d : Nat} (hid : ctx.links[id]? = some (d + 1)) (hthis : ThisAt Γ d)
    (hsuper : SuperAt Γ (d + 1)) (method : Token) :
    Behaves A G m (superMethod ctx env id method) fun _ _ => True := by
  unfold superMethod
  rw [hid]
  rcases henv.getAt_super hsuper.2 with ⟨classId, hclass⟩
  rcases henv.getAt_this hthis.2 with ⟨object, hobject⟩
  refine (behaves_getAt hm hclass).bind ?_
  rintro _ _ _ _ ⟨rfl, rfl⟩
  refine (behaves_getAt hm hobject).bind ?_
  rintro _ _ _ _ ⟨rfl, rfl⟩
  exact behaves_methodOf hm classId object method

/-! ## Classes -/

/-- A superclass is looked up like any variable, and what is no class is an error of the
language. -/
theorem behaves_superclassOf (hm : m.Sound A G) (henv : Matches m.store env.chain Γ)
    {superclass : Option Reference}
    (h : ∀ ref, superclass = some ref → ctx.links[ref.id]? = depth? ref.name.lexeme Γ) :
    Behaves A G m (superclassOf ctx env superclass) fun id _ => id.isSome = superclass.isSome := by
  cases superclass with
  | none => exact .pure hm rfl
  | some ref =>
      refine (behaves_lookUp hm henv (h ref rfl)).bind ?_
      intro v m' hm' _ _
      cases v with
      | classRef id => exact .pure hm' rfl
      | _ => exact .raise hm' (by trivial) ref.name

/-- The environment of the methods has one more layer if there is a superclass. -/
theorem behaves_methodEnv (hm : m.Sound A G) (henv : Matches m.store env.chain Γ)
    (superclass : Option ClassId) :
    Behaves A G m (methodEnv env superclass) fun inner m' =>
      Matches m'.store inner.chain (methodLayers Γ superclass) := by
  cases superclass with
  | none => exact .pure hm henv
  | some id =>
      exact behaves_enter hm henv ⟨id, by simp⟩ ((frameApart_empty .super).insert (.inr rfl) _)

/-- What a class keeps of its methods is linked in the layers of the class body. -/
theorem methodOk_methodTable {store : Store} {inner : Env} (henv : Matches store inner.chain Γ)
    {decls : List FunctionDecl} (hdecls : FunctionDecl.AllLinked A (.this :: Γ) decls)
    {name : String} {f : Closure} (hf : (methodTable inner decls).get? name = some f) :
    MethodOk A store f := by
  rw [methodTable_get?] at hf
  rcases Option.map_eq_some_iff.1 hf with ⟨decl, hdecl, rfl⟩
  have hmem := List.mem_reverse.1 (List.mem_of_find?_eq_some hdecl)
  exact ⟨Γ, henv, hdecls.mem decl hmem⟩

/-- A class may be kept whose methods are all linked. -/
theorem behaves_newClass (hm : m.Sound A G) (name : String) (superclass : Option ClassId)
    {methods : Bindings Closure}
    (hmethods : ∀ x f, methods.get? x = some f → MethodOk A m.store f) :
    Behaves A G m (newClass name superclass methods) fun _ m' => m'.store = m.store := by
  refine ⟨⟨hm.globals, hm.named, hm.functions, ?_⟩, .refl _, rfl⟩
  intro id x f hf
  rw [Machine.classInfo_push] at hf
  split at hf
  · exact hmethods x f hf
  · exact hm.methods id x f hf

/-- The name of a class is there at the end of its declaration, since nothing is ever unbound. -/
theorem behaves_assignClass (hm : m.Sound A G) {name : Token} (hname : IsName name.lexeme)
    (hbound : FrameOk m.store env.frame (.names [name.lexeme]))
    (htakes : Takes G env.frame name.lexeme) (v : Value) :
    Behaves A G m (assignClass env name v) fun _ _ => True := by
  have hlocate : m.store.locate env name.lexeme = .ok env.frame := by
    rcases hbound.binds name.lexeme (by simp) with ⟨w, hw⟩
    simp [Store.locate, Env.chain, Bindings.contains, hw]
  refine .of_get ?_
  rw [hlocate]
  exact (behaves_bindIn hm hname htakes v).mono fun _ _ _ _ => trivial

/-- A class declaration leaves its name bound, in the layer in which it stands. -/
theorem behaves_declareClass (hm : m.Sound A G) (henv : Matches m.store env.chain Γ) {name : Token}
    {superclass : Option Reference} {methods : List FunctionDecl} (hname : IsName name.lexeme)
    (hG : Γ = [] → G name.lexeme)
    (href : ∀ ref, superclass = some ref → ctx.links[ref.id]? = depth? ref.name.lexeme Γ)
    (hmethods : ∀ id : Option ClassId, id.isSome = superclass.isSome →
      FunctionDecl.AllLinked A (.this :: methodLayers (add name.lexeme Γ) id) methods) :
    Behaves A G m (declareClass ctx env name superclass methods) fun _ m' =>
      Matches m'.store env.chain (add name.lexeme Γ) ∧
        FrameOk m'.store env.frame (.names [name.lexeme]) := by
  -- The name is bound before the methods are made, so that they see it. In the end the class takes
  -- the place of what it was bound to.
  refine (behaves_superclassOf hm henv href).bind ?_
  intro id m₁ hm₁ hkeeps₁ hid
  have henv₁ := henv.mono hkeeps₁
  refine (behaves_define hm₁ henv₁ hname hG .nil).bind ?_
  rintro _ m₂ hm₂ - ⟨henv₂, hbound⟩
  refine (behaves_methodEnv hm₂ henv₂ id).bind ?_
  intro inner m₃ hm₃ hkeeps₃ hinner
  have htable : ∀ x f, (methodTable inner methods).get? x = some f → MethodOk A m₃.store f :=
    fun x f hf => methodOk_methodTable hinner (hmethods id hid) hf
  refine (behaves_newClass hm₃ name.lexeme id htable).bind ?_
  intro v m₄ hm₄ hkeeps₄ _
  have hkeeps := hkeeps₃.trans hkeeps₄
  have htakes : Takes G env.frame name.lexeme := fun hf => hG (henv.eq_nil hf)
  refine (behaves_assignClass hm₄ hname (hkeeps.frames _ _ hbound) htakes v).mono ?_
  intro _ m₅ hkeeps₅ _
  exact ⟨henv₂.mono (hkeeps.trans hkeeps₅), hkeeps₅.frames _ _ (hkeeps.frames _ _ hbound)⟩

/-! ## Parameters -/

theorem bindParameters_ok : ∀ (params : List Token) (arguments : List Value) (frame : Frame)
    (xs : List String), FrameBinds frame (.names xs) → arguments.length = params.length →
    ∃ frame', bindParameters frame params arguments = .ok frame' ∧
      FrameBinds frame' (.names (xs ++ params.map Token.lexeme))
  | [], _, frame, xs, hframe, _ => ⟨frame, rfl, by simpa using hframe⟩
  | _ :: _, [], _, _, _, hlength => by cases hlength
  | param :: params, v :: arguments, frame, xs, hframe, hlength => by
      have hinsert := hframe.insert_names param.lexeme v
      rcases bindParameters_ok params arguments _ _ hinsert (by simpa using hlength) with
        ⟨frame', hrun, hframe'⟩
      rw [List.append_assoc] at hframe'
      exact ⟨frame', hrun, hframe'⟩

/-- No parameter is called `this` or `super`. -/
theorem bindParameters_apart {params : List Token} {arguments : List Value} {frame frame' : Frame}
    {l : Layer} (hparams : ∀ param ∈ params, IsName param.lexeme) (hframe : FrameApart frame l)
    (hrun : bindParameters frame params arguments = .ok frame') : FrameApart frame' l := by
  induction params generalizing arguments frame with
  | nil =>
      cases hrun
      exact hframe
  | cons param params ih =>
      cases arguments with
      | nil => cases hrun
      | cons v arguments =>
          exact ih (fun p hp => hparams p (List.mem_cons_of_mem _ hp))
            (hframe.insert (.inl (hparams param List.mem_cons_self)) v) hrun

end Exec

end LoxLang
