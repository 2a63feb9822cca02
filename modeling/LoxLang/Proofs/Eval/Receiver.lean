import LoxLang.Proofs.Eval.Course
import LoxLang.Proofs.Eval.Methods

/-!
# What `this` and `super` mean

An environment is asked by name for `this` and for `super`: what the nearest frame binds that binds
one at all.

* `Machine.Stands`: the frames of an environment exist. What the environment says of `this` and
  `super` stays the same for ever (`Machine.Extends.get_eq`).
* `Matches.getAt_eq_get`: the address of `this` or `super` leads to the nearest frame that binds it.
* `Task.Receives` collects what a task has to do with `this` and `super`, and
  `Task.Tracked.receives` says it of every task that a run comes to.
-/

namespace LoxLang

open Exec Layer Resolver

/-! ## Environments -/

/-- The frames of an environment exist. -/
def Machine.Stands (m : Machine) (env : Env) : Prop := ∀ f ∈ env.chain, f < m.store.frames.size

/-- What a name stands for depends only on what the frames of the chain hold under it. -/
theorem Store.get_congr {s s' : Store} {env : Env} {x : String}
    (h : ∀ f ∈ env.chain, (s'.frame f).get? x = (s.frame f).get? x) : s'.get env x = s.get env x := by
  have hfind : (env.chain.findSome? fun f => (s'.frame f).get? x) =
      env.chain.findSome? fun f => (s.frame f).get? x := by
    generalize env.chain = chain at h
    induction chain with
    | nil => rfl
    | cons f chain ih =>
        rw [List.findSome?_cons, List.findSome?_cons, h f List.mem_cons_self,
          ih fun g hg => h g (List.mem_cons_of_mem _ hg)]
  unfold Store.get
  rw [hfind]

/-- A name that the innermost frame binds stands for what is bound there, whatever is further
out. -/
theorem Store.get_of_frame {s : Store} {env : Env} {x : String} {v : Value}
    (h : (s.frame env.frame).get? x = some v) : s.get env x = .ok v := by
  simp [Store.get, Env.chain, h]

/-- A frame that binds a name hides what is further out. -/
theorem Store.get_cons (s : Store) (f : FrameId) (env : Env) (x : String) :
    s.get ⟨f, env.chain⟩ x = match (s.frame f).get? x with
      | some v => .ok v
      | none => s.get env x := by
  unfold Store.get
  change (match (f :: env.chain).findSome? fun f => (s.frame f).get? x with
    | some v => Except.ok v
    | none => Except.error (RuntimeFault.undefinedVariable x)) = _
  rw [List.findSome?_cons]
  cases (s.frame f).get? x <;> rfl

namespace Machine

variable {m m' : Machine} {env : Env} {x : String}

/-- What an environment says of `this` and `super` stays the same. -/
theorem Extends.get_eq (hm : m.Extends m') (h : m.Stands env) (hx : ¬ IsName x) :
    m'.store.get env x = m.store.get env x :=
  Store.get_congr fun f hf => hm.fixed f x (h f hf) hx

/-- A scope that binds neither `this` nor `super` leaves their meaning alone. -/
theorem get_enter {frame : Frame} {inner : Env} (h : m.Stands env)
    (hrun : enter env frame m = .ok inner m') (hframe : frame.get? x = none) :
    m'.store.get inner x = m.store.get env x := by
  cases hrun
  change Store.get ⟨m.store.frames.push frame⟩ ⟨m.store.frames.size, env.chain⟩ x = _
  rw [Store.get_cons, Store.frame_push_size, hframe]
  exact Store.get_congr fun f hf => by rw [Store.frame_push m.store frame (h f hf)]

end Machine

/-- The address of `this` or `super` leads to the nearest frame that binds it. -/
theorem Matches.getAt_eq_get {store : Store} {env : Env} {Γ : List Layer}
    (h : Matches store env.chain Γ) {x : String} (hx : ¬ IsName x) {d : Nat}
    (hd : depth? x Γ = some d) : ∃ v, store.getAt env d x = .ok v ∧ store.get env x = .ok v := by
  induction Γ generalizing env d with
  | nil => cases hd
  | cons l Γ ih =>
      rcases h.inner with ⟨f, outer, rfl, -, hframe, hapart, hrest⟩
      -- Either the frame binds the name, or both go on to the environment around it.
      cases hdeclares : l.declares x with
      | true =>
          rw [depth?_cons_of_declares Γ hdeclares] at hd
          cases hd
          rcases hframe.binds.get? hdeclares with ⟨v, hv⟩
          refine ⟨v, ?_, ?_⟩
          · simp [Store.getAt, Env.ancestor, Env.ancestor?, hv, bind, Except.bind]
          · simp [Store.get, Env.chain, hv]
      | false =>
          rw [depth?_cons_of_not_declares Γ hdeclares] at hd
          rcases Option.map_eq_some_iff.1 hd with ⟨e, he, rfl⟩
          rcases ih hrest he with ⟨v, hgetAt, hget⟩
          refine ⟨v, hgetAt, ?_⟩
          have hcons := Store.get_cons store f outer x
          rw [hapart x hx hdeclares] at hcons
          exact hcons.trans hget

/-! ## Methods of an object -/

/-- From some machine on, a function is a method of an object: its `this` is the object, and its
`super` is that of the method. -/
def Machine.Carries (m : Machine) (id : FunctionId) (method : Closure) (o : ObjectId) : Prop :=
  ∀ m', m.Evolves m' → (m'.function id).decl = method.decl ∧
    (m'.function id).isInitializer = method.isInitializer ∧
    m'.store.get (m'.function id).env "this" = .ok (.object o) ∧
    m'.store.get (m'.function id).env "super" = m.store.get method.env "super"

/-- A function that has just become a method of an object remains one. -/
theorem Machine.Attaches.carries {m : Machine} {id : FunctionId} {method : Closure} {o : ObjectId}
    (h : m.Attaches id method o) (hid : id < m.functions.size) (hmethod : m.Stands method.env)
    (hframe : (m.function id).env.frame < m.store.frames.size) : m.Carries id method o := by
  intro m' hm'
  have hextends := hm'.extends
  have henv : (m.function id).env = ⟨(m.function id).env.frame, method.env.chain⟩ := by
    rw [← h.enclosing]
  have hstands : m.Stands (m.function id).env := by
    intro f hf
    rw [henv] at hf
    rcases List.mem_cons.1 hf with rfl | hf
    · exact hframe
    · exact hmethod f hf
  -- The frame that has been added binds `this`, and leaves `super` to the environment of the
  -- method.
  have hget : ∀ x, m.store.get (m.function id).env x =
      match (Bindings.empty.insert "this" (.object o) : Frame).get? x with
      | some v => .ok v
      | none => m.store.get method.env x := by
    intro x
    rw [henv, Store.get_cons, h.frame]
  rw [hextends.functions id hid]
  refine ⟨h.decl, h.isInitializer, ?_, ?_⟩
  · rw [hextends.get_eq hstands fun hx => hx.1 rfl, hget]
    simp
  · rw [hextends.get_eq hstands fun hx => hx.2 rfl, hget]
    rfl

/-- A method that is attached to an object carries that object as its receiver. -/
theorem carries_attach {m : Machine} {method : Closure} (h : m.Stands method.env) (o : ObjectId) :
    (m.attach method o).Carries m.functions.size method o := by
  have hattaches := m.attaches_attach method o
  have hframe : ((m.attach method o).function m.functions.size).env.frame =
      m.store.frames.size := by
    unfold Machine.attach Machine.function
    simp [Array.getD_eq_getD_getElem?]
  refine hattaches.carries ?_ ?_ ?_
  · simp [Machine.attach]
  · exact fun f hf => Nat.lt_of_lt_of_le (h f hf) (by simp [Machine.attach])
  · rw [hframe]
    simp [Machine.attach]

/-! ## Tasks -/

/-- What a task has to do with `this` and `super`. -/
structure Task.Receives (ctx : LoxLang.Context) (t : Task) : Prop where
  /-- `this` is the object that the nearest method is bound to. -/
  this : ∀ id keyword, t.node = .expr (.this id keyword) →
    ∃ o, t.machine.store.get t.env "this" = .ok (.object o) ∧
      eval ctx (runBody ctx t.calls) t.env (.this id keyword) t.machine =
        .ok (.object o) t.machine
  /-- `super` looks a method up in the superclass that the nearest class declaration has come upon,
  and binds it to the same object. -/
  super : ∀ id keyword (name : Token), t.node = .expr (.super id keyword name) →
    ∃ c o, t.machine.store.get t.env "super" = .ok (.classRef c) ∧
      t.machine.store.get t.env "this" = .ok (.object o) ∧
      let result := eval ctx (runBody ctx t.calls) t.env (.super id keyword name) t.machine
      ((∀ d ∈ t.machine.lineage c, (t.machine.classInfo d).methods.get? name.lexeme = none) ↔
        result = .error (.error ⟨.undefinedProperty name.lexeme, name⟩) t.machine) ∧
      ∀ method, t.machine.findMethod? c name.lexeme = some method →
        ∃ f m', result = .ok (.function f) m' ∧ m'.Carries f method o
  /-- Up to the next call, `this` and `super` mean the same, in whatever block. -/
  inside : ∀ u, t.SameCall ctx u → ∀ x, ¬ IsName x →
    u.machine.store.get u.env x = t.machine.store.get t.env x
  /-- In the body of a function they mean what they mean to the function. -/
  called : ∀ id callee paren arguments, t.node = .expr (.call id callee paren arguments) →
    ∀ f m₁ vs m₂ closure m₃ frame inner m₄,
      eval ctx (runBody ctx t.calls) t.env callee t.machine = .ok f m₁ →
      evalAll ctx (runBody ctx t.calls) t.env arguments m₁ = .ok vs m₂ →
      Invokes f vs m₂ closure m₃ →
      bindParameters .empty closure.decl.params vs = .ok frame →
      enter closure.env frame m₃ = .ok inner m₄ →
      ∀ x, ¬ IsName x → m₄.store.get inner x = m₃.store.get closure.env x
  /-- A function that is declared takes them along, whenever it is called. -/
  declared : ∀ decl flow m', t.node = .stmt (.function decl) →
    exec ctx (runBody ctx t.calls) t.env (.function decl) t.machine = .ok flow m' →
    ∀ m'', m'.Evolves m'' → m''.function t.machine.functions.size = ⟨decl, t.env, false⟩ ∧
      ∀ x, ¬ IsName x → m''.store.get t.env x = t.machine.store.get t.env x
  /-- A method that is taken from an object is bound to that object. -/
  accessed : ∀ id object name o m₁ method, t.node = .expr (.get id object name) →
    eval ctx (runBody ctx t.calls) t.env object t.machine = .ok (.object o) m₁ →
    (m₁.object o).fields.get? name.lexeme = none →
    m₁.findMethod? (m₁.object o).classId name.lexeme = some method →
    ∃ f m', eval ctx (runBody ctx t.calls) t.env (.get id object name) t.machine =
      .ok (.function f) m' ∧ m'.Carries f method o
  /-- An initializer is bound to the object that has just been made. -/
  constructed : ∀ id callee paren arguments, t.node = .expr (.call id callee paren arguments) →
    ∀ c m₁ vs m₂ closure m₃,
      eval ctx (runBody ctx t.calls) t.env callee t.machine = .ok (.classRef c) m₁ →
      evalAll ctx (runBody ctx t.calls) t.env arguments m₁ = .ok vs m₂ →
      Invokes (.classRef c) vs m₂ closure m₃ →
      ∃ method, m₂.initializer? c = some method ∧ closure.decl = method.decl ∧
        m₃.store.get closure.env "this" = .ok (.object m₂.objects.size) ∧
        m₃.store.get closure.env "super" = m₂.store.get method.env "super"
  /-- To the methods of a class that is declared, `super` is the class that the superclass
  expression has just given. -/
  derived : ∀ name superclass decls flow m', t.node = .stmt (.classDecl name superclass decls) →
    exec ctx (runBody ctx t.calls) t.env (.classDecl name superclass decls) t.machine =
      .ok flow m' →
    ∃ c, superclassOf ctx t.env superclass t.machine = .ok c t.machine ∧
      ∀ m'', m'.Evolves m'' → m''.superclass? t.machine.classes.size = c ∧
        ∀ x f, (m''.classInfo t.machine.classes.size).methods.get? x = some f →
          m''.store.get f.env "super" =
            c.elim (t.machine.store.get t.env "super") fun d => .ok (.classRef d)
  /-- What a frame binds to `this` and `super` it binds for ever. -/
  fixed : t.machine.Evolves (t.behind ctx) ∧ ∀ m', t.machine.Evolves m' →
    ∀ f x, f < t.machine.store.frames.size → ¬ IsName x →
      (m'.store.frame f).get? x = (t.machine.store.frame f).get? x

namespace Task.Tracked

variable {ctx : LoxLang.Context} {V : Visit → Prop} {A : Addresses} {t : Task}
  {self : Option String} {Γ : List Layer}

theorem stands (h : t.Tracked V A self Γ) : t.machine.Stands t.env := h.chain.lt_size_of_mem

end Task.Tracked

/-- The environment a method was made in is one of the machine's, so a receiver can be put inside
it. -/
theorem Machine.Sound.stands_method {A : Addresses} {G : String → Prop} {m : Machine}
    (hm : m.Sound A G) {c : ClassId} {name : String} {f : Closure}
    (hf : m.findMethod? c name = some f) : m.Stands f.env := by
  rcases hm.findMethod? hf with ⟨Γ, hchain, -⟩
  exact hchain.lt_size_of_mem

namespace Task.Tracked

variable {ctx : LoxLang.Context} {V : Visit → Prop} {A : Addresses} {n : Nat} {env : Env}
  {m m₁ m₂ m₃ m₄ m' : Machine} {self : Option String} {Γ : List Layer}

/-- Where `this` is used it is bound to an object, and evaluating it gives that object by the
distance in the table. -/
theorem eval_this (hF : Follow ctx V A) {id : NodeId} {keyword : Token}
    (h : Tracked V A ⟨n, env, .expr (.this id keyword), m⟩ self Γ) :
    ∃ o, m.store.get env "this" = .ok (.object o) ∧
      eval ctx (runBody ctx n) env (.this id keyword) m = .ok (.object o) m := by
  rcases h.linked with ⟨hkeyword, d, hid, hthis⟩
  rcases h.chain.getAt_this hthis.2 with ⟨o, ho⟩
  rcases h.chain.getAt_eq_get (fun hx => hx.1 rfl) hthis.1 with ⟨v, hgetAt, hget⟩
  obtain rfl : v = .object o := Except.ok.inj (hgetAt.symm.trans ho)
  refine ⟨o, hget, ?_⟩
  change lookUp ctx env id keyword m = _
  unfold lookUp
  rw [(hF.links id).symm.trans hid.find_eq, hkeyword]
  change orDefect (m.store.getAt env d "this") m = _
  rw [ho]
  rfl

/-- Where `super` is used, both it and `this` are bound, and the method found above is bound to that
same receiver. -/
theorem eval_super (hF : Follow ctx V A) {id : NodeId} {keyword name : Token}
    (h : Tracked V A ⟨n, env, .expr (.super id keyword name), m⟩ self Γ) :
    ∃ c o, m.store.get env "super" = .ok (.classRef c) ∧ m.store.get env "this" = .ok (.object o) ∧
      eval ctx (runBody ctx n) env (.super id keyword name) m = methodOf c o name m := by
  -- The layer of the object is the one in front of the layer of the superclass.
  rcases h.linked with ⟨d, hid, hthis, hsuper⟩
  rcases h.chain.getAt_super hsuper.2 with ⟨c, hc⟩
  rcases h.chain.getAt_this hthis.2 with ⟨o, ho⟩
  rcases h.chain.getAt_eq_get (fun hx => hx.2 rfl) hsuper.1 with ⟨v, hgetAt, hget⟩
  obtain rfl : v = .classRef c := Except.ok.inj (hgetAt.symm.trans hc)
  rcases h.chain.getAt_eq_get (fun hx => hx.1 rfl) hthis.1 with ⟨w, hgetAt', hget'⟩
  obtain rfl : w = .object o := Except.ok.inj (hgetAt'.symm.trans ho)
  refine ⟨c, o, hget, hget', ?_⟩
  change superMethod ctx env id name m = _
  unfold superMethod
  rw [(hF.links id).symm.trans hid.find_eq]
  have hclass : getAt env (d + 1) "super" m = .ok (.classRef c) m := by
    unfold getAt
    rw [Halt.get_bind, hc]
    rfl
  have hobject : getAt env (d + 1 - 1) "this" m = .ok (.object o) m := by
    unfold getAt
    rw [Halt.get_bind, Nat.add_sub_cancel, ho]
    rfl
  dsimp only
  rw [Halt.bind_ok hclass, Halt.bind_ok hobject]

/-- A use of `this` or `super` means the same in all parts of a task that belong to the same
call. -/
theorem get_next {t u : Task} (hproper : t.Proper) (h : t.Tracked V A self Γ) (hnext : t.Next ctx u)
    (hcalls : u.calls = t.calls) {x : String} (hx : ¬ IsName x) :
    u.machine.store.get u.env x = t.machine.store.get t.env x := by
  have hstands := h.stands
  have hextends := (hproper.next_evolves hnext).2.extends
  have hsame : u.env = t.env → u.machine.store.get u.env x = t.machine.store.get t.env x := by
    intro henv
    rw [henv]
    exact hextends.get_eq hstands hx
  cases hnext with
  | body _ _ _ _ _ _ => exact absurd hcalls (Nat.ne_of_lt (Nat.lt_succ_self _))
  -- The scope of a block is empty.
  | block henter => exact Machine.get_enter hstands henter (Bindings.get?_empty x)
  | _ => exact hsame rfl

/-- Evaluating a part of what is being done leaves the machine sound and the environment as it was
described. -/
theorem sound_eval (hF : Follow ctx V A) {node : Node}
    (h : Tracked V A ⟨n, env, node, m⟩ self Γ) {e : Expr} (he : e.Linked A Γ self) {v : Value}
    (hrun : eval ctx (runBody ctx n) env e m = .ok v m₁) :
    m₁.Sound A (fun _ => True) ∧ Matches m₁.store env.chain Γ := by
  rcases h.seen with ⟨_, _, _, hclear⟩
  have hbehaves := behaves_eval (runBody_safe hF.links n) hF.links hclear.ne_nil e h.sound h.chain he
  rcases hbehaves.ok hrun with ⟨hsound, hkeeps, -⟩
  exact ⟨hsound, h.chain.mono hkeeps⟩

/-- Callee and arguments leave a sound machine behind. -/
theorem sound_call (hF : Follow ctx V A) {id : NodeId} {callee : Expr} {paren : Token}
    {arguments : List Expr} (h : Tracked V A ⟨n, env, .expr (.call id callee paren arguments), m⟩
      self Γ) {f : Value} {vs : List Value}
    (hcallee : eval ctx (runBody ctx n) env callee m = .ok f m₁)
    (harguments : evalAll ctx (runBody ctx n) env arguments m₁ = .ok vs m₂) :
    m₂.Sound A fun _ => True := by
  rcases h.seen with ⟨_, _, _, hclear⟩
  rcases h.sound_eval hF h.linked.1 hcallee with ⟨hsound, hchain⟩
  have hbehaves := behaves_evalAll (runBody_safe hF.links n) hF.links hclear.ne_nil arguments hsound
    hchain h.linked.2
  exact (hbehaves.ok harguments).1

/-- The parameters of a call hide neither `this` nor `super`, which are no names. -/
theorem get_called (hF : Follow ctx V A) {id : NodeId} {callee : Expr} {paren : Token}
    {arguments : List Expr} (h : Tracked V A ⟨n, env, .expr (.call id callee paren arguments), m⟩
      self Γ) {f : Value} {vs : List Value} {closure : Closure} {frame : Frame} {inner : Env}
    (hcallee : eval ctx (runBody ctx n) env callee m = .ok f m₁)
    (harguments : evalAll ctx (runBody ctx n) env arguments m₁ = .ok vs m₂)
    (hinvokes : Invokes f vs m₂ closure m₃)
    (hparams : bindParameters .empty closure.decl.params vs = .ok frame)
    (henter : enter closure.env frame m₃ = .ok inner m₄) {x : String} (hx : ¬ IsName x) :
    m₄.store.get inner x = m₃.store.get closure.env x := by
  rcases invoked (h.sound_call hF hcallee harguments) hinvokes with ⟨-, ⟨Γ', hchain, hdecl, -⟩, -⟩
  rcases FunctionDecl.linked_iff.1 hdecl with ⟨hnames, -⟩
  have hapart : FrameApart frame (.names []) :=
    bindParameters_apart hnames (frameApart_empty _) hparams
  exact Machine.get_enter hchain.lt_size_of_mem henter (hapart x hx rfl)

/-- Calling a class makes an object, and the initializer is run with that object as its receiver. -/
theorem constructs (hF : Follow ctx V A) {id : NodeId} {callee : Expr} {paren : Token}
    {arguments : List Expr} (h : Tracked V A ⟨n, env, .expr (.call id callee paren arguments), m⟩
      self Γ) {c : ClassId} {vs : List Value} {closure : Closure}
    (hcallee : eval ctx (runBody ctx n) env callee m = .ok (.classRef c) m₁)
    (harguments : evalAll ctx (runBody ctx n) env arguments m₁ = .ok vs m₂)
    (hinvokes : Invokes (.classRef c) vs m₂ closure m₃) :
    ∃ method, m₂.initializer? c = some method ∧ closure.decl = method.decl ∧
      m₃.store.get closure.env "this" = .ok (.object m₂.objects.size) ∧
      m₃.store.get closure.env "super" = m₂.store.get method.env "super" := by
  have hsound := h.sound_call hF hcallee harguments
  cases hinvokes with
  | @initializer _ _ _ m' _ method _ object hmethod _ hobject hbind =>
      cases hobject
      cases hbind
      refine ⟨method, hmethod, rfl, ?_, ?_⟩
      · change Store.get ⟨m₂.store.frames.push _⟩ ⟨m₂.store.frames.size, method.env.chain⟩ _ = _
        rw [Store.get_cons, Store.frame_push_size]
        simp
      · have henter : enter method.env (Bindings.empty.insert "this" (.object m₂.objects.size))
          { m₂ with objects := m₂.objects.push ⟨c, .empty⟩ } = .ok _ _ := rfl
        refine (Machine.get_enter ?_ henter rfl).trans rfl
        exact hsound.stands_method hmethod

/-- The methods of a class that is declared see the superclass that the declaration has come
upon. -/
theorem derives {t : Task} (hproper : t.Proper) (h : t.Tracked V A self Γ) {name : Token}
    {superclass : Option Reference} {decls : List FunctionDecl} {flow : Flow}
    (hnode : t.node = .stmt (.classDecl name superclass decls))
    (hrun : exec ctx (runBody ctx t.calls) t.env (.classDecl name superclass decls) t.machine =
      .ok flow m') :
    ∃ c, superclassOf ctx t.env superclass t.machine = .ok c t.machine ∧
      ∀ m'', m'.Evolves m'' → m''.superclass? t.machine.classes.size = c ∧
        ∀ x f, (m''.classInfo t.machine.classes.size).methods.get? x = some f →
          m''.store.get f.env "super" =
            c.elim (t.machine.store.get t.env "super") fun d => .ok (.classRef d) := by
  have hshaped := hproper.shaped
  rw [hnode] at hshaped
  have hevolves : t.machine.Evolves m' :=
    (proceeds_exec ctx (runBody_proceeds ctx t.calls) _ hproper.valid hshaped).evolves hrun
  rcases Halt.bind_eq_ok hrun with ⟨_, m₁, hdeclare, ⟨⟩⟩
  rcases declareClass_ok hdeclare with ⟨c, inner, hsuperclass, hclasses, hnone, hsome⟩
  refine ⟨c, hsuperclass, fun m'' h'' => ?_⟩
  rcases Machine.classInfo_declared hclasses h''.extends with ⟨hsuper, hmethods⟩
  refine ⟨hsuper, fun x f hf => ?_⟩
  rw [hmethods] at hf
  rw [(methodTable_shaped hshaped.2.2 hf).2.1]
  cases c with
  | none =>
      rw [hnone rfl]
      exact (hevolves.trans h'').extends.get_eq h.stands fun hx => hx.2 rfl
  | some d =>
      -- The declaration has bound it in a frame of its own.
      have hsuper := (hsome d rfl).2 hshaped.1
      exact Store.get_of_frame (h''.extends.get?_fixed (fun hx => hx.2 rfl) hsuper)

/-- A function that is declared keeps its environment, and what `this` and `super` mean there. -/
theorem declares {decl : FunctionDecl} (hproper : Proper ⟨n, env, .stmt (.function decl), m⟩)
    (h : Tracked V A ⟨n, env, .stmt (.function decl), m⟩ self Γ) {flow : Flow} {m'' : Machine}
    (hrun : exec ctx (runBody ctx n) env (.function decl) m = .ok flow m')
    (hm'' : m'.Evolves m'') :
    m''.function m.functions.size = ⟨decl, env, false⟩ ∧
      ∀ x, ¬ IsName x → m''.store.get env x = m.store.get env x := by
  have hevolves : m.Evolves m' :=
    (proceeds_exec ctx (runBody_proceeds ctx n) _ hproper.valid hproper.shaped).evolves hrun
  have hsize : m.functions.size < m'.functions.size := by
    simp [Machine.functions_declared hrun]
  refine ⟨?_, fun x hx => (hevolves.trans hm'').extends.get_eq h.stands hx⟩
  rw [hm''.extends.functions _ hsize, Machine.function_declared hrun]

/-- What `this` and `super` mean stays the same up to the next call. -/
theorem get_sameCall (hF : Follow ctx V A) {t u : Task} (hproper : t.Proper)
    (h : t.Tracked V A self Γ) (hu : t.SameCall ctx u) :
    (u.Proper ∧ ∃ own Γ', u.Tracked V A own Γ') ∧ ∀ x, ¬ IsName x →
      u.machine.store.get u.env x = t.machine.store.get t.env x := by
  induction hu with
  | refl => exact ⟨⟨hproper, _, _, h⟩, fun _ _ => rfl⟩
  | tail _ hnext ih =>
      rcases ih with ⟨⟨hproper', _, _, htracked⟩, hget⟩
      exact ⟨⟨(hproper'.next_evolves hnext.1).1, htracked.next hF hnext.1⟩, fun x hx =>
        (htracked.get_next hproper' hnext.1 hnext.2 hx).trans (hget x hx)⟩

/-- Every task that a run comes to does with `this` and `super` what it should. -/
theorem receives (hF : Follow ctx V A) {t : Task} (hproper : t.Proper)
    (h : t.Tracked V A self Γ) : t.Receives ctx := by
  rcases t with ⟨n, env, node, m⟩
  refine ⟨?_, ?_, ?_, ?_, ?_, ?_, ?_, ?_, ?_⟩
  -- `this`
  · rintro id keyword ⟨⟩
    exact h.eval_this hF
  -- `super`: a method is found, or there is none above
  · rintro id keyword name ⟨⟩
    rcases h.eval_super hF with ⟨c, o, hclass, hobject, heval⟩
    refine ⟨c, o, hclass, hobject, ?_, ?_⟩
    · dsimp only
      rw [heval, ← Machine.findMethod?_eq_none_iff]
      refine ⟨methodOf_of_none, fun herror => ?_⟩
      cases hfind : m.findMethod? c name.lexeme with
      | none => rfl
      | some method =>
          rw [methodOf_of_some hfind] at herror
          cases herror
    · intro method hmethod
      dsimp only
      rw [heval]
      exact ⟨_, _, methodOf_of_some hmethod, carries_attach (h.sound.stands_method hmethod) o⟩
  -- no task of the same call has another receiver
  · intro u hu
    exact (h.get_sameCall hF hproper hu).2
  -- a call hides neither of the two
  · rintro id callee paren arguments ⟨⟩ f m₁ vs m₂ closure m₃ frame inner m₄ hcallee harguments
      hinvokes hparams henter x hx
    exact h.get_called hF hcallee harguments hinvokes hparams henter hx
  -- a function declared here keeps them
  · rintro decl flow m' ⟨⟩ hrun m'' hm''
    exact h.declares hproper hrun hm''
  -- a method read as a property gets its object
  · rintro id object name o m₁ method ⟨⟩ hobject hfield hmethod
    rcases h.sound_eval (e := object) hF h.linked hobject with ⟨hsound, -⟩
    refine ⟨_, _, ?_, carries_attach (hsound.stands_method hmethod) o⟩
    refine (Halt.bind_ok hobject).trans ?_
    rw [getProperty_object, hfield]
    exact methodOf_of_some hmethod
  -- an initializer gets the new object
  · rintro id callee paren arguments ⟨⟩ c m₁ vs m₂ closure m₃ hcallee harguments hinvokes
    exact h.constructs hF hcallee harguments hinvokes
  -- a class gets its superclass
  · intro name superclass decls flow m' hnode hrun
    exact h.derives hproper hnode hrun
  -- what a frame holds under them is never written to again
  · exact ⟨hproper.evolves_behind, fun m' hm' f x hf hx => hm'.extends.fixed f x hf hx⟩

end Task.Tracked

end LoxLang
