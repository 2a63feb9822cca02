import LoxLang.Proofs.Lexical.Agree

/-!
# Declarations and calls that agree

The steps of the two interpreters that are not taken in the same order.

* A function or a class is made before its name is bound on the one side, and after it on the
  other. The methods of a class have a frame for `super` around them on the one side only.
* A call binds the parameters in a frame that it then adds to the store. On the other side they get
  their cells one by one, behind those of `super` and `this`.
-/

namespace LoxLang

open Layer

namespace Exec

variable {A : Addresses} {own : Option FrameId} {β : Book} {m : Machine} {r : Lexical.Machine}
  {ctx : Context} {env : Env} {scope : Lexical.Scope} {place : Lexical.Place} {Γ : List Layer}

/-! ## Functions -/

/-- The name of a function might as well be bound before the function is made. -/
theorem newFunction_define {α : Type} (f : Closure) (env : Env) (x : String) (k : Exec α)
    (m : Machine) :
    (newFunction f >>= fun v => define env x v >>= fun _ => k) m =
      ((define env x .nil >>= fun _ => newFunction f >>= fun v => bindIn env.frame x v) >>=
        fun _ => k) m := by
  change k _ = k _
  simp only [Store.bind_bind]

/-- A function sees its own name: in the frame it closes over, and in the scope it closes over. -/
theorem agree_declareFunction (hrel : Related A β m r) (hstands : Stands β m.store env place Γ)
    {decl : FunctionDecl} (hname : IsName decl.name.lexeme) (hfresh : Fresh decl.name.lexeme Γ)
    (hdecl : decl.Linked A (add decl.name.lexeme Γ)) (hself : decl.selfFree = true) :
    Agree A (some env.frame) β m r
      (define env decl.name.lexeme .nil >>= fun _ => newFunction ⟨decl, env, false⟩ >>= fun v =>
        bindIn env.frame decl.name.lexeme v)
      (Lexical.Act.declareFunction place decl)
      fun β' s' _ place' => Stands β' s' env place' (add decl.name.lexeme Γ) := by
  -- The name is bound before the function is made, so that the function sees itself.
  refine (agree_define hrel hstands hname hfresh .nil).bind ?_
  rintro β₁ m₁ r₁ _ place₁ hrel₁ - ⟨hstands₁, -⟩
  have hf : FunctionRelated A β₁ m₁.store ⟨decl, env, false⟩
      ⟨decl, place₁.scope, none, none, false⟩ :=
    ⟨rfl, rfl, hself, (fun h => by cases h), _, .plain hstands₁.sees, hdecl⟩
  refine (agree_newFunction hrel₁ hf).bindQuiet ?_
  rintro β₂ m₂ r₂ v _ hrel₂ hlater₂ rfl
  exact (agree_fill hrel₂ (hstands₁.mono hlater₂) hname v).map fun _ _ _ _ _ h => h

/-! ## Classes -/

/-- The superclass is read as a variable on both sides, and is a class on both or on neither. -/
theorem agree_superclassOf (hrel : Related A β m r) (hsees : Sees β scope env.chain Γ)
    {superclass : Option Reference}
    (hlink : ∀ ref, superclass = some ref → ctx.links[ref.id]? = depth? ref.name.lexeme Γ) :
    Agree A own β m r (superclassOf ctx env superclass) (Lexical.Act.superclassOf scope superclass)
      fun _ _ id id' => id = id' ∧ id.isSome = superclass.isSome := by
  cases superclass with
  | none => exact .pure hrel ⟨rfl, rfl⟩
  | some ref =>
      refine (agree_lookUp hrel hsees (hlink ref rfl)).bind ?_
      rintro β₁ m₁ r₁ v _ hrel₁ - rfl
      cases v with
      | classRef id => exact .pure hrel₁ ⟨rfl, rfl⟩
      | _ => exact .raise hrel₁ _ ref.name

/-- The frame of `super` is there on the one side only. -/
theorem methodEnv_run (hrel : Related A β m r) (hsees : Sees β scope env.chain Γ)
    (superclass : Option ClassId) :
    ∃ inner store, methodEnv env superclass m = .ok inner { m with store } ∧
      Related A β { m with store } r ∧ Later none β m.store β store ∧
      (∀ f x v, (m.store.frame f).get? x = some v → (store.frame f).get? x = some v) ∧
      Captures β store scope superclass none inner.chain (methodLayers Γ superclass) := by
  cases superclass with
  | none => exact ⟨env, m.store, rfl, hrel, .refl _ _ _, fun _ _ _ h => h, .plain hsees⟩
  | some id =>
      have hvars := hrel.vars.pushFrame (Bindings.empty.insert "super" (.classRef id))
      refine ⟨_, _, rfl, hrel.withVars hvars, hvars.2,
        fun _ _ _ => VarsRelated.frame_get?_push m.store _, ?_⟩
      refine .super (Nat.ne_of_gt hrel.vars.size_pos) (by simp) ?_ (hsees.mono hvars.2)
      rw [Store.frame_push_size]
      simp

/-- Of two methods with one name the last one counts. -/
theorem Lexical.Act.methodTable_get? (scope : Lexical.Scope) (superclass : Option ClassId)
    (decls : List FunctionDecl) (name : String) :
    (Lexical.Act.methodTable scope superclass decls).get? name =
      ((decls.reverse.find? fun decl => decl.name.lexeme == name).map fun decl =>
        ⟨decl, scope, superclass, none, name == "init"⟩) := by
  rw [Lexical.Act.methodTable, Bindings.get?_foldl_insert, Bindings.get?_empty, Option.or_none]
  cases hfind : decls.reverse.find? fun decl => decl.name.lexeme == name with
  | none => rfl
  | some decl =>
      have hname : decl.name.lexeme = name := by simpa using List.find?_some hfind
      simp [hname]

/-- Both interpreters make the same methods of the declarations, each with its own way to find
`super`. -/
theorem methodTable_related {store : Store} {inner : Env} {superclass : Option ClassId}
    (hcaptures : Captures β store scope superclass none inner.chain Γ) {decls : List FunctionDecl}
    (hdecls : FunctionDecl.AllLinked A (.this :: Γ) decls)
    (hself : FunctionDecl.allSelfFree decls = true) (x : String) :
    Option.Rel (MethodRelated A β store) ((methodTable inner decls).get? x)
      ((Lexical.Act.methodTable scope superclass decls).get? x) := by
  rw [methodTable_get?, Lexical.Act.methodTable_get?]
  cases hfind : decls.reverse.find? fun decl => decl.name.lexeme == x with
  | none => exact .none
  | some decl =>
      have hmem := List.mem_reverse.1 (List.mem_of_find?_eq_some hfind)
      exact .some ⟨rfl, rfl, FunctionDecl.selfFree_of_mem hself decl hmem, Γ, hcaptures,
        hdecls.mem decl hmem⟩

/-- Classes are numbered alike on both sides. -/
theorem agree_newClass (hrel : Related A β m r) (name : String) (superclass : Option ClassId)
    {methods : Bindings Closure} {methods' : Bindings Lexical.Closure}
    (hmethods : ∀ x, Option.Rel (MethodRelated A β m.store) (methods.get? x) (methods'.get? x)) :
    Agree A own β m r (newClass name superclass methods)
      (Lexical.Act.newClass name superclass methods')
      fun _ s' v v' => v = v' ∧ s' = m.store := by
  refine Agree.of_ok rfl rfl (hrel.pushClass ⟨rfl, ?_, hmethods⟩) (.refl _ _ _)
    ⟨congrArg Value.classRef hrel.classes_size, rfl⟩
  cases superclass with
  | none => rfl
  | some id => exact congrArg (id :: ·) (hrel.classes id).ancestors_eq

/-- A name that the innermost frame binds is found there. -/
theorem assignClass_run {name : Token} {w : Value}
    (h : (m.store.frame env.frame).get? name.lexeme = some w) (v : Value) :
    assignClass env name v m = bindIn env.frame name.lexeme v m := by
  have hlocate : m.store.locate env name.lexeme = .ok env.frame := by
    simp [Store.locate, Env.chain, Bindings.contains, h]
  unfold assignClass
  rw [Halt.get_bind, hlocate]

/-- A class is declared in the same steps: the superclass, the name without a value, the methods,
the value. -/
theorem agree_declareClass (hrel : Related A β m r) (hstands : Stands β m.store env place Γ)
    {name : Token} {superclass : Option Reference} {methods : List FunctionDecl}
    (hname : IsName name.lexeme) (hfresh : Fresh name.lexeme Γ)
    (hlink : ∀ ref, superclass = some ref → ctx.links[ref.id]? = depth? ref.name.lexeme Γ)
    (hmethods : ∀ id : Option ClassId, id.isSome = superclass.isSome →
      FunctionDecl.AllLinked A (.this :: methodLayers (add name.lexeme Γ) id) methods)
    (hself : FunctionDecl.allSelfFree methods = true) :
    Agree A (some env.frame) β m r (declareClass ctx env name superclass methods)
      (Lexical.Act.declareClass place name superclass methods)
      fun β' s' _ place' => Stands β' s' env place' (add name.lexeme Γ) := by
  refine (agree_superclassOf hrel hstands.sees hlink).bindQuiet ?_
  rintro β₁ m₁ r₁ id _ hrel₁ hlater₁ ⟨rfl, hid⟩
  refine (agree_define hrel₁ (hstands.mono hlater₁) hname hfresh .nil).bind ?_
  rintro β₂ m₂ r₂ _ place₂ hrel₂ - ⟨hstands₂, hbound₂⟩
  rcases methodEnv_run hrel₂ hstands₂.sees id with
    ⟨inner, store, hrun, hrel₃, hlater₃, hkept, hcaptures⟩
  refine Agree.left hrun (hlater₃.quiet _) ?_
  have htables := methodTable_related hcaptures (hmethods id hid) hself
  refine (agree_newClass hrel₃ name.lexeme id htables).bindQuiet ?_
  rintro β₄ m₄ r₄ v _ hrel₄ hlater₄ ⟨rfl, hstore₄⟩
  -- the class's name is still bound to nil when the class is made
  have hbound₄ : (m₄.store.frame env.frame).get? name.lexeme = some .nil := by
    rw [hstore₄]
    exact hkept _ _ _ hbound₂
  refine Agree.map ?_ fun _ _ _ _ _ h => h
  refine Agree.resume (assignClass_run hbound₄ v) rfl (fun _ _ h => h) ?_
  exact agree_fill hrel₄ ((hstands₂.mono hlater₃).mono hlater₄) hname v

/-! ## Calls -/

/-- A function that has no object sees `super` where its frames have it. -/
theorem captures_super_run (hrel : Related A β m r) {superclass : Option ClassId}
    {chain : List FrameId} (h : Captures β m.store scope superclass none chain Γ) :
    ∃ β₁ scope₁ r₁, Lexical.Act.bind? scope "super" (superclass.map .classRef) r = .ok scope₁ r₁ ∧
      Related A β₁ m r₁ ∧ Later none β m.store β₁ m.store ∧ Sees β₁ scope₁ chain Γ := by
  cases h with
  | plain hsees => exact ⟨β, scope, r, rfl, hrel, .refl _ _ _, hsees⟩
  | super hne hlt hget hsees =>
      have hvars := hrel.vars.share not_isName_super hne hlt hget
      refine ⟨_, _, _, rfl, hrel.withVars hvars, hvars.2, hsees.class hvars.2.book ?_ fun _ => rfl⟩
      simp [← hrel.vars.size_eq]

/-- A call sees `super` and `this` where the frames of the function have them. -/
theorem captures_run (hrel : Related A β m r) {superclass : Option ClassId}
    {this : Option ObjectId} {chain : List FrameId}
    (h : Captures β m.store scope superclass this chain Γ) :
    ∃ scope₁ r₁ β' scope' r',
      Lexical.Act.bind? scope "super" (superclass.map .classRef) r = .ok scope₁ r₁ ∧
      Lexical.Act.bind? scope₁ "this" (this.map .object) r₁ = .ok scope' r' ∧
      Related A β' m r' ∧ Later none β m.store β' m.store ∧ Sees β' scope' chain Γ := by
  cases h with
  | plain hsees =>
      rcases captures_super_run hrel (.plain hsees) with
        ⟨β₁, scope₁, r₁, hrun, hrel₁, hlater₁, hsees₁⟩
      exact ⟨scope₁, r₁, β₁, scope₁, r₁, hrun, rfl, hrel₁, hlater₁, hsees₁⟩
  | super hne hlt hget hsees =>
      rcases captures_super_run hrel (.super hne hlt hget hsees) with
        ⟨β₁, scope₁, r₁, hrun, hrel₁, hlater₁, hsees₁⟩
      exact ⟨scope₁, r₁, β₁, scope₁, r₁, hrun, rfl, hrel₁, hlater₁, hsees₁⟩
  | this hne hlt hget hrest =>
      -- The frame of the object lies inside that of the superclass, if there is one.
      rcases captures_super_run hrel hrest with ⟨β₁, scope₁, r₁, hrun, hrel₁, hlater₁, hsees₁⟩
      have hvars := hrel₁.vars.share not_isName_this hne hlt hget
      refine ⟨scope₁, r₁, _, _, _, hrun, rfl, hrel₁.withVars hvars, hlater₁.trans hvars.2,
        hsees₁.class hvars.2.book ?_ fun _ => rfl⟩
      simp [← hrel₁.vars.size_eq]

/-- Parameters get their values in a new frame, or in new cells. -/
theorem bindParameters_run {store : Store} {chain : List FrameId} : ∀ (params : List Token)
    (arguments : List Value) (frame : Frame) {β : Book} {r : Lexical.Machine}
    {scope : Lexical.Scope} {xs : List String},
    Related A β { m with store := ⟨store.frames.push frame⟩ } r →
    Stands β ⟨store.frames.push frame⟩ ⟨store.frames.size, chain⟩ (.inner scope)
      (.names xs :: Γ) →
    (∀ param ∈ params, IsName param.lexeme) → (xs ++ params.map Token.lexeme).Nodup →
    arguments.length = params.length →
    ∃ frame' β' scope' r', bindParameters frame params arguments = .ok frame' ∧
      Lexical.Act.bindParameters scope params arguments r = .ok scope' r' ∧
      Related A β' { m with store := ⟨store.frames.push frame'⟩ } r' ∧
      Later (some store.frames.size) β ⟨store.frames.push frame⟩ β'
        ⟨store.frames.push frame'⟩ ∧
      Stands β' ⟨store.frames.push frame'⟩ ⟨store.frames.size, chain⟩ (.inner scope')
        (.names (xs ++ params.map Token.lexeme) :: Γ)
  | [], _, frame, β, r, scope, xs, hrel, hstands, _, _, _ => by
      refine ⟨frame, β, scope, r, rfl, rfl, hrel, .refl _ _ _, ?_⟩
      rwa [List.map_nil, List.append_nil]
  | _ :: _, [], _, _, _, _, _, _, _, _, _, hlength => by cases hlength
  | param :: params, v :: arguments, frame, β, r, scope, xs, hrel, hstands, hparams, hnodup,
      hlength => by
      rcases List.forall_mem_cons.1 hparams with ⟨hparam, hparams⟩
      rw [List.map_cons, List.append_cons] at hnodup
      have hfresh : param.lexeme ∉ xs := by
        intro hmem
        have happend := (List.nodup_append.1 hnodup).1
        exact (List.nodup_append.1 happend).2.2 _ hmem _ (by simp) rfl
      -- The frame of the machine and the scope take the parameters one by one, each a new name.
      rcases declare_inner hrel hstands hparam hfresh v with ⟨hrel₁, hlater₁, hstands₁⟩
      simp only [Store.bind_push] at hrel₁ hlater₁ hstands₁
      rcases bindParameters_run params arguments (frame.insert param.lexeme v) hrel₁ hstands₁ hparams
        hnodup (by simpa using hlength) with
        ⟨frame', β', scope', r', hrun, hrun', hrel', hlater', hstands'⟩
      refine ⟨frame', β', scope', r', hrun, hrun', hrel', hlater₁.trans hlater', ?_⟩
      rwa [List.map_cons, List.append_cons]

end Exec

end LoxLang
