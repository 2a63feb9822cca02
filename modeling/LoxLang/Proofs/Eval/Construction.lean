import LoxLang.Proofs.Eval.Receiver

/-!
# Construction of objects

What a call of a class gives, and what a call of an initializer gives.

* `Machine.Initializes`: from some machine on, a function gives back a certain object.
* `Machine.Constructs`: a call of a class gives an object that has not been there before and remains
  one of that class, and whatever is an initializer gives back its object. This holds of every valid
  machine (`Machine.Valid.constructs`).
* `Task.Constructs` are the consequences for calls and for uses of `init` in a program
  (`Task.Tracked.constructs_objects`).
-/

namespace LoxLang

open Exec

variable {ctx : Context} {n : Nat} {m m' : Machine} {paren : Token} {vs : List Value} {v : Value}

/-- From some machine on, every call of a function that comes to its end gives a certain object. -/
def Machine.Initializes (m : Machine) (id : FunctionId) (o : ObjectId) : Prop :=
  ∀ m', m.Evolves m' → ∀ ctx n paren vs v m'', (∀ a ∈ vs, m'.Knows a) →
    call ctx (runBody ctx n) paren (.function id) vs m' = .ok v m'' → v = .object o

/-- What is asked of the calls of classes and of initializers. -/
structure Machine.Constructs (m : Machine) : Prop where
  /-- A call of a class gives a new object of that class, which stays one. -/
  fresh : ∀ ctx n paren c vs v m', m.Knows (.classRef c) → (∀ a ∈ vs, m.Knows a) →
    call ctx (runBody ctx n) paren (.classRef c) vs m = .ok v m' →
    ∃ o, v = .object o ∧ (∀ o', m.Knows (.object o') → o' ≠ o) ∧
      ∀ m'', m'.Evolves m'' → m''.Knows v ∧ (m''.object o).classId = c
  /-- An initializer that has been taken from an object gives back the object. -/
  taken : ∀ c o (name : Token) v m', name.lexeme = "init" → m.Knows (.object o) →
    methodOf c o name m = .ok v m' → ∃ id, v = .function id ∧ m'.Initializes id o
  /-- Every initializer there is has been taken from some object. -/
  bound : ∀ id, m.Knows (.function id) → (m.function id).isInitializer = true →
    ∃ o, m.Binds (m.function id) o ∧ m.Initializes id o

/-- The body of an initializer can end as it likes: the result is what `this` has been bound to. -/
theorem runBody_initializer (hm : m.Valid) {f : Closure} (hf : f.decl.Shaped Resolver.Named)
    (hinit : f.isInitializer = true) {o : ObjectId} (hbinds : m.Binds f o)
    (hvs : ∀ a ∈ vs, m.Knows a) (hrun : runBody ctx n paren f vs m = .ok v m') :
    v = .object o := by
  cases n with
  | zero => cases hrun
  | succ n =>
      rcases Halt.bind_eq_ok hrun with ⟨frame, m₁, hframe, hrest⟩
      rcases orDefect_ok hframe with ⟨hparams, rfl⟩
      rcases Halt.bind_eq_ok hrest with ⟨inner, m₂, henter, hrest⟩
      rcases Halt.bind_eq_ok hrest with ⟨flow, m₃, hbody, hresult⟩
      have hknown := bindParameters_values hparams hvs nofun
      have h₂ := (proceeds_enter f.env hknown).evolves henter
      have h₃ := (proceeds_execAll ctx (runBody_proceeds ctx n) f.decl.body (hm.evolves h₂)
        hf.body).evolves hbody
      unfold callResult at hresult
      rw [if_pos hinit] at hresult
      -- Nothing that the body has done can have touched the frame of `this`.
      have hthis : m₃.store.getAt f.env 0 "this" = .ok (.object o) := by
        have hget := (h₂.trans h₃).extends.binds hbinds
        unfold Machine.Binds at hget
        simp [Store.getAt, Env.ancestor, Env.ancestor?, hget, bind, Except.bind]
      exact Except.ok.inj ((orDefect_ok hresult).1.symm.trans hthis)

/-- A function that is an initializer of an object remains one. -/
theorem Machine.Valid.initializes (hm : m.Valid) {id : FunctionId} (hid : m.Knows (.function id))
    (hinit : (m.function id).isInitializer = true) {o : ObjectId}
    (hbinds : m.Binds (m.function id) o) : m.Initializes id o := by
  intro m' hm' ctx n paren vs v m'' hvs hrun
  have hsame := hm'.extends.functions id hid
  rcases Halt.bind_eq_ok hrun with ⟨_, _, ⟨⟩, hrest⟩
  rcases Halt.bind_eq_ok hrest with ⟨_, m₁, harity, hbody⟩
  obtain rfl : m₁ = m' := ((proceeds_checkArity paren _ _).2 _ _ harity).2
  rw [hsame] at hbody
  exact runBody_initializer (hm.evolves hm') (hm.functions id hid).1 hinit
    (hm'.extends.binds hbinds) hvs hbody

/-- A call of a class makes an object first, and gives that object in the end. -/
theorem call_classRef_ok (hm : m.Valid) {c : ClassId} (hc : m.Knows (.classRef c))
    (hvs : ∀ a ∈ vs, m.Knows a)
    (hrun : call ctx (runBody ctx n) paren (.classRef c) vs m = .ok v m') :
    v = .object m.objects.size ∧
      Machine.Evolves { m with objects := m.objects.push ⟨c, .empty⟩ } m' := by
  rcases Halt.bind_eq_ok hrun with ⟨_, _, ⟨⟩, hrest⟩
  rcases Halt.bind_eq_ok hrest with ⟨_, m₁, harity, hconstruct⟩
  obtain rfl : m₁ = m := ((proceeds_checkArity paren _ _).2 _ _ harity).2
  rcases Halt.bind_eq_ok hconstruct with ⟨object, m₂, hobject, hrest⟩
  rcases (proceeds_newObject hc).ok hobject with ⟨hnew, hknown⟩
  have hm₂ := hm.evolves hnew
  cases hobject
  -- An initializer is run once the object is there, so it cannot change which one is given.
  cases hinit : m₁.initializer? c with
  | none =>
      rw [hinit] at hrest
      cases hrest
      exact ⟨rfl, .refl _⟩
  | some method =>
      rw [hinit] at hrest
      rcases Halt.bind_eq_ok hrest with ⟨f, m₃, hbind, hrest⟩
      rcases Halt.bind_eq_ok hrest with ⟨_, m₄, hbody, ⟨⟩⟩
      rcases (proceeds_bindMethod method hknown).ok hbind with ⟨hbinds, hdecl, -⟩
      have hshaped : f.decl.Shaped Resolver.Named := hdecl ▸ (findMethod?_shaped hm hinit).1
      have hvs₃ : ∀ a ∈ vs, m₃.Knows a := fun a ha => (hnew.trans hbinds).extends.knows (hvs a ha)
      exact ⟨rfl, hbinds.trans
        ((runBody_proceeds ctx n m₃ paren f vs (hm₂.evolves hbinds) hshaped hvs₃).evolves hbody)⟩

/-- Whatever a valid machine constructs is new, and whatever it initializes is given back. -/
theorem Machine.Valid.constructs (hm : m.Valid) : m.Constructs where
  -- the new object is the one with the next number
  fresh := by
    intro ctx n paren c vs v m' hc hvs hrun
    rcases call_classRef_ok hm hc hvs hrun with ⟨rfl, hevolves⟩
    refine ⟨_, rfl, fun o' ho' => Nat.ne_of_lt ho', fun m'' hm'' => ?_⟩
    have hextends := (hevolves.trans hm'').extends
    have hnew : m.objects.size < (m.objects.push ⟨c, .empty⟩).size := by simp
    refine ⟨Nat.lt_of_lt_of_le hnew hextends.size_objects, ?_⟩
    rw [hextends.classId _ hnew, object_push, if_pos rfl]
  -- an `init` that is read from an object is bound to it
  taken := by
    intro c o name v m' hname ho hrun
    cases hfind : m.findMethod? c name.lexeme with
    | none =>
        rw [methodOf_of_none hfind] at hrun
        cases hrun
    | some method =>
        have hproceeds := (proceeds_methodOf hm c ho name).ok hrun
        rw [methodOf_of_some hfind] at hrun
        cases hrun
        have hattaches := attaches_attach m method o
        have hinit : method.isInitializer = true := by
          rw [(findMethod?_shaped hm hfind).2, hname]
          rfl
        refine ⟨_, rfl, (hm.evolves hproceeds.1).initializes hproceeds.2
          (hattaches.isInitializer.trans hinit) ?_⟩
        unfold Binds
        rw [hattaches.frame]
        simp
  -- every initializer there is has been bound to some object
  bound := by
    intro id hid hinit
    rcases (hm.functions id hid).2 hinit with ⟨o, ho⟩
    exact ⟨o, ho, hm.initializes hid hinit ho⟩

/-! ## Tasks -/

/-- What the calls and the uses of `init` that a run comes to give. -/
structure Task.Constructs (ctx : Context) (t : Task) : Prop where
  /-- A call of a class that ends gives a new object of that class, which stays one. -/
  fresh : ∀ id callee paren arguments, t.node = .expr (.call id callee paren arguments) →
    ∀ c m₁ vs m₂ v m₃,
      eval ctx (runBody ctx t.calls) t.env callee t.machine = .ok (.classRef c) m₁ →
      evalAll ctx (runBody ctx t.calls) t.env arguments m₁ = .ok vs m₂ →
      eval ctx (runBody ctx t.calls) t.env (.call id callee paren arguments) t.machine = .ok v m₃ →
      ∃ o, v = .object o ∧ (∀ o', m₂.Knows (.object o') → o' ≠ o) ∧
        ∀ m', m₃.Evolves m' → m'.Knows v ∧ (m'.object o).classId = c
  /-- A call of an initializer that ends gives the object that the initializer is bound to. -/
  again : ∀ id callee paren arguments, t.node = .expr (.call id callee paren arguments) →
    ∀ f m₁ vs m₂ v m₃,
      eval ctx (runBody ctx t.calls) t.env callee t.machine = .ok (.function f) m₁ →
      evalAll ctx (runBody ctx t.calls) t.env arguments m₁ = .ok vs m₂ →
      (m₂.function f).isInitializer = true →
      eval ctx (runBody ctx t.calls) t.env (.call id callee paren arguments) t.machine = .ok v m₃ →
      ∃ o, v = .object o ∧ m₂.Binds (m₂.function f) o
  /-- An initializer that is taken from an object by its name is bound to that object. -/
  taken : ∀ id object (name : Token), t.node = .expr (.get id object name) →
    name.lexeme = "init" → ∀ o m₁ v m₂,
      eval ctx (runBody ctx t.calls) t.env object t.machine = .ok (.object o) m₁ →
      (m₁.object o).fields.get? name.lexeme = none →
      eval ctx (runBody ctx t.calls) t.env (.get id object name) t.machine = .ok v m₂ →
      ∃ f, v = .function f ∧ m₂.Initializes f o
  /-- An initializer that is taken from the superclass is bound to the object at hand. -/
  inherited : ∀ id keyword (name : Token), t.node = .expr (.super id keyword name) →
    name.lexeme = "init" → ∀ v m',
      eval ctx (runBody ctx t.calls) t.env (.super id keyword name) t.machine = .ok v m' →
      ∃ f o, v = .function f ∧ t.machine.store.get t.env "this" = .ok (.object o) ∧
        m'.Initializes f o

/-- When callee and arguments have been evaluated, a call expression is a call. -/
theorem Task.Proper.call_ok {env : Env} {id : NodeId} {callee : Expr} {arguments : List Expr}
    {f : Value} {m₁ m₂ m₃ : Machine}
    (h : Task.Proper ⟨n, env, .expr (.call id callee paren arguments), m⟩)
    (hcallee : eval ctx (runBody ctx n) env callee m = .ok f m₁)
    (harguments : evalAll ctx (runBody ctx n) env arguments m₁ = .ok vs m₂)
    (hrun : eval ctx (runBody ctx n) env (.call id callee paren arguments) m = .ok v m₃) :
    m₂.Valid ∧ m₂.Knows f ∧ (∀ a ∈ vs, m₂.Knows a) ∧
      call ctx (runBody ctx n) paren f vs m₂ = .ok v m₃ := by
  have hbodies := runBody_proceeds ctx n
  have hm : m.Valid := h.valid
  rcases (proceeds_eval ctx hbodies env callee hm h.shaped.1).ok hcallee with ⟨h₁, hf⟩
  have hm₁ := hm.evolves h₁
  rcases (proceeds_evalAll ctx hbodies env arguments hm₁ h.shaped.2).ok harguments with ⟨h₂, hvs⟩
  refine ⟨hm₁.evolves h₂, h₂.extends.knows hf, hvs, ?_⟩
  exact ((Halt.bind_ok hcallee).trans (Halt.bind_ok harguments)).symm.trans hrun

theorem Task.Tracked.constructs_objects {V : Resolver.Visit → Prop} {A : Addresses} {t : Task}
    {self : Option String} {Γ : List Layer} (hF : Follow ctx V A) (hproper : t.Proper)
    (h : t.Tracked V A self Γ) : t.Constructs ctx := by
  rcases t with ⟨n, env, node, m⟩
  have hrun := runBody_proceeds ctx n
  have hm : m.Valid := hproper.valid
  refine ⟨?_, ?_, ?_, ?_⟩
  -- a call of a class
  · rintro id callee paren arguments ⟨⟩ c m₁ vs m₂ v m₃ hcallee harguments hcall
    rcases hproper.call_ok hcallee harguments hcall with ⟨hm₂, hc, hvs, hcall⟩
    exact hm₂.constructs.fresh ctx n paren c vs v m₃ hc hvs hcall
  -- a call of an initializer
  · rintro id callee paren arguments ⟨⟩ f m₁ vs m₂ v m₃ hcallee harguments hinit hcall
    rcases hproper.call_ok hcallee harguments hcall with ⟨hm₂, hf, hvs, hcall⟩
    rcases hm₂.constructs.bound f hf hinit with ⟨o, hbinds, hinitializes⟩
    exact ⟨o, hinitializes m₂ (.refl m₂) ctx n paren vs v m₃ hvs hcall, hbinds⟩
  -- an initializer read as a property
  · rintro id object name ⟨⟩ hname o m₁ v m₂ hobject hfield hget
    rcases (proceeds_eval ctx hrun env object hm hproper.shaped).ok hobject with ⟨h₁, ho⟩
    have hmethod : methodOf (m₁.object o).classId o name m₁ = .ok v m₂ := by
      have hproperty : getProperty (.object o) name m₁ = .ok v m₂ :=
        (Halt.bind_ok hobject).symm.trans hget
      rwa [getProperty_object, hfield] at hproperty
    exact (hm.evolves h₁).constructs.taken _ o name v m₂ hname ho hmethod
  -- an initializer read from the superclass
  · rintro id keyword name ⟨⟩ hname v m' hsuper
    rcases h.eval_super hF with ⟨c, o, -, ho, heval⟩
    rw [heval] at hsuper
    rcases hm.constructs.taken c o name v m' hname (knows_of_get hm ho) hsuper with
      ⟨f, hf, hinitializes⟩
    exact ⟨f, o, hf, ho, hinitializes⟩

end LoxLang
