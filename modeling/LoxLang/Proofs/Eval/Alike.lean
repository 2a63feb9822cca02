import LoxLang.Proofs.Eval.Heap
import LoxLang.Proofs.Grammar.Alike

/-!
# Machines that are alike

Two machines that run trees which differ in their tokens and numbers, in step.

* `Machine.Alike T R before`: the same frames and objects, with functions whose declarations are
  alike. The second machine has printed `before`, and then what the first one has printed.
* `Twin x x' Q`: from machines that are alike, the actions `x` and `x'` lead to machines that are
  alike again. They give results related by `Q`, or halt for the same reason, at tokens that are
  related by `T`.
* Every single step is its own twin.
-/

namespace LoxLang

variable {T : Token → Token → Prop} {R : NodeId → NodeId → Prop}

/-! ## Functions and classes -/

structure Closure.Alike (T : Token → Token → Prop) (R : NodeId → NodeId → Prop) (f f' : Closure) :
    Prop where
  decl : f.decl.Alike T R f'.decl
  env : f'.env = f.env
  isInitializer : f'.isInitializer = f.isInitializer

structure ClassInfo.Alike (T : Token → Token → Prop) (R : NodeId → NodeId → Prop)
    (c c' : ClassInfo) : Prop where
  name : c'.name = c.name
  ancestors : c'.ancestors = c.ancestors
  methods : ∀ x, Option.Rel (Closure.Alike T R) (c.methods.get? x) (c'.methods.get? x)

/-- Declarations that are alike declare the same name. -/
theorem FunctionDecl.Alike.lexeme {decl decl' : FunctionDecl} (h : decl.Alike T R decl') :
    decl'.name.lexeme = decl.name.lexeme := by
  rcases h with ⟨hname, -, -⟩
  exact hname

theorem FunctionDecl.Alike.params {decl decl' : FunctionDecl} (h : decl.Alike T R decl') :
    decl'.params.map Token.lexeme = decl.params.map Token.lexeme := by
  rcases h with ⟨-, hparams, -⟩
  exact hparams

theorem FunctionDecl.Alike.body {decl decl' : FunctionDecl} (h : decl.Alike T R decl') :
    Stmt.AllAlike T R decl.body decl'.body := by
  rcases h with ⟨-, -, hbody⟩
  exact hbody

theorem Closure.Alike.arity {f f' : Closure} (h : f.Alike T R f') : f'.arity = f.arity := by
  simpa [Closure.arity] using congrArg List.length h.decl.params

/-! ## Machines -/

structure Machine.Alike (T : Token → Token → Prop) (R : NodeId → NodeId → Prop)
    (before : List String) (m m' : Machine) : Prop where
  store : m'.store = m.store
  size_functions : m'.functions.size = m.functions.size
  functions : ∀ id, (m.function id).Alike T R (m'.function id)
  size_classes : m'.classes.size = m.classes.size
  classes : ∀ id, (m.classInfo id).Alike T R (m'.classInfo id)
  objects : m'.objects = m.objects
  output : m'.output.toList = before ++ m.output.toList
  readings : m'.readings = m.readings

/-- Machines with the same chains of classes find related methods if their classes have such. -/
theorem Machine.findMethod?_rel {P : Closure → Closure → Prop} {m m' : Machine} {id : ClassId}
    {name : String} (hlineage : m'.lineage id = m.lineage id) (hmethods : ∀ c,
      Option.Rel P ((m.classInfo c).methods.get? name) ((m'.classInfo c).methods.get? name)) :
    Option.Rel P (m.findMethod? id name) (m'.findMethod? id name) := by
  unfold Machine.findMethod?
  rw [hlineage]
  induction m.lineage id with
  | nil => exact .none
  | cons c cs ih =>
      rw [List.findSome?_cons, List.findSome?_cons]
      have hmethod := hmethods c
      generalize (m.classInfo c).methods.get? name = found at hmethod
      generalize (m'.classInfo c).methods.get? name = found' at hmethod
      cases hmethod with
      | none => exact ih
      | some hf => exact .some hf

/-- A text depends on names only. -/
theorem Machine.text_congr {m m' : Machine}
    (hfunctions : ∀ id, (m'.function id).decl.name.lexeme = (m.function id).decl.name.lexeme)
    (hclasses : ∀ id, (m'.classInfo id).name = (m.classInfo id).name)
    (hobjects : m'.objects = m.objects) (v : Value) : m'.text v = m.text v := by
  cases v with
  | function id =>
      unfold Machine.text
      dsimp only
      rw [hfunctions id]
  | classRef id => exact hclasses id
  | object id =>
      unfold Machine.text Machine.object
      dsimp only
      rw [hobjects, hclasses]
  | _ => rfl

namespace Machine.Alike

variable {before : List String} {m m' : Machine}

/-- Machines that are alike stay so if their frames become the same ones. -/
theorem withStore (h : m.Alike T R before m') (store : Store) :
    Machine.Alike T R before { m with store } { m' with store } :=
  ⟨rfl, h.size_functions, h.functions, h.size_classes, h.classes, h.objects, h.output, h.readings⟩

theorem withObjects (h : m.Alike T R before m') (objects : Array ObjectInfo) :
    Machine.Alike T R before { m with objects } { m' with objects } :=
  ⟨h.store, h.size_functions, h.functions, h.size_classes, h.classes, rfl, h.output, h.readings⟩

/-- Machines that are alike for two relations are so for weaker ones. -/
theorem mono {T' : Token → Token → Prop} {R' : NodeId → NodeId → Prop}
    (hT : ∀ t t', T t t' → T' t t') (hR : ∀ id id', R id id' → R' id id')
    (h : m.Alike T R before m') : m.Alike T' R' before m' := by
  have hclosure : ∀ {f f' : Closure}, f.Alike T R f' → f.Alike T' R' f' :=
    fun hf => ⟨hf.decl.mono hT hR, hf.env, hf.isInitializer⟩
  refine ⟨h.store, h.size_functions, fun id => hclosure (h.functions id), h.size_classes, ?_,
    h.objects, h.output, h.readings⟩
  intro id
  exact ⟨(h.classes id).name, (h.classes id).ancestors,
    fun x => rel_mono (fun _ _ hf => hclosure hf) ((h.classes id).methods x)⟩

/-- On a sound machine, only numbers that have been linked are looked up. -/
theorem restrict {R' : NodeId → NodeId → Prop} {A : Addresses} {G : String → Prop}
    (hm : m.Sound A G) (hA : A.Refines R R') (h : m.Alike T R before m') :
    m.Alike T R' before m' := by
  refine ⟨h.store, h.size_functions, ?_, h.size_classes, ?_, h.objects, h.output, h.readings⟩
  · intro id
    -- A function is linked, so its numbers are related as the tables say.
    rcases hm.functions id with ⟨Γ, -, hlinked, -⟩
    have hf := h.functions id
    exact ⟨hf.decl.restrict hA hlinked, hf.env, hf.isInitializer⟩
  · intro id
    refine ⟨(h.classes id).name, (h.classes id).ancestors, ?_⟩
    intro x
    have hmethod := (h.classes id).methods x
    cases hget : (m.classInfo id).methods.get? x with
    | none =>
        rw [hget] at hmethod
        generalize (m'.classInfo id).methods.get? x = found' at hmethod
        cases hmethod
        exact .none
    | some f =>
        -- So is a method.
        rcases hm.methods id x f hget with ⟨Γ, -, hlinked⟩
        rw [hget] at hmethod
        generalize (m'.classInfo id).methods.get? x = found' at hmethod
        cases hmethod with
        | some hf => exact .some ⟨hf.decl.restrict hA hlinked, hf.env, hf.isInitializer⟩

theorem lineage (h : m.Alike T R before m') (id : ClassId) : m'.lineage id = m.lineage id :=
  congrArg (id :: ·) (h.classes id).ancestors

/-- Both machines find the same method. -/
theorem findMethod? (h : m.Alike T R before m') (id : ClassId) (name : String) :
    Option.Rel (Closure.Alike T R) (m.findMethod? id name) (m'.findMethod? id name) :=
  findMethod?_rel (h.lineage id) fun c => (h.classes c).methods name

/-- A value prints the same on machines that are alike. -/
theorem text_eq (h : m.Alike T R before m') (v : Value) : m'.text v = m.text v :=
  text_congr (fun id => (h.functions id).decl.lexeme) (fun id => (h.classes id).name) h.objects v

end Machine.Alike

/-! ## Actions -/

inductive Halt.Alike (T : Token → Token → Prop) : Halt → Halt → Prop where
  | error {fault : RuntimeFault} {t t' : Token} :
      T t t' → Halt.Alike T (.error ⟨fault, t⟩) (.error ⟨fault, t'⟩)
  /-- A failure may name the number of a node, so only that there is one is the same. -/
  | defect {d d' : Defect} : Halt.Alike T (.defect d) (.defect d')
  | unfinished : Halt.Alike T .unfinished .unfinished

inductive EndsAlike {α α' : Type} (T : Token → Token → Prop) (R : NodeId → NodeId → Prop)
    (before : List String) (Q : α → α' → Prop) :
    EStateM.Result Halt Machine α → EStateM.Result Halt Machine α' → Prop where
  | ok {a : α} {a' : α'} {m m' : Machine} :
      m.Alike T R before m' → Q a a' → EndsAlike T R before Q (.ok a m) (.ok a' m')
  | error {reason reason' : Halt} {m m' : Machine} :
      m.Alike T R before m' → reason.Alike T reason' →
      EndsAlike T R before Q (.error reason m) (.error reason' m')

def Twin {α α' : Type} (T : Token → Token → Prop) (R : NodeId → NodeId → Prop)
    (before : List String) (x : Exec α) (x' : Exec α') (Q : α → α' → Prop) : Prop :=
  ∀ m m' : Machine, m.Alike T R before m' → EndsAlike T R before Q (x m) (x' m')

variable {before : List String}

namespace Twin

variable {α α' β β' : Type} {x : Exec α} {x' : Exec α'} {f : α → Exec β} {f' : α' → Exec β'}
  {Q : α → α' → Prop} {P : β → β' → Prop}

/-- Twin actions one after the other are twins, if what follows is for all results that are
related. -/
theorem bind (hx : Twin T R before x x' Q)
    (hf : ∀ a a', Q a a' → Twin T R before (f a) (f' a') P) :
    Twin T R before (x >>= f) (x' >>= f') P := by
  intro m m' h
  have hend := hx m m' h
  cases hrun : x m with
  | ok a n =>
      rw [Halt.bind_ok hrun]
      rw [hrun] at hend
      generalize hrun' : x' m' = result at hend
      cases hend with
      | ok hn hQ =>
          rw [Halt.bind_ok hrun']
          exact hf _ _ hQ _ _ hn
  | error reason n =>
      rw [Halt.bind_error hrun]
      rw [hrun] at hend
      generalize hrun' : x' m' = result at hend
      cases hend with
      | error hn hreason =>
          rw [Halt.bind_error hrun']
          exact .error hn hreason

theorem pure {a : α} {a' : α'} (h : Q a a') : Twin T R before (Pure.pure a) (Pure.pure a') Q :=
  fun _ _ hm => .ok hm h

/-- Actions that look at their machines first. -/
theorem get_bind {f f' : Machine → Exec β} {P : β → β → Prop}
    (h : ∀ m m', m.Alike T R before m' → Twin T R before (f m) (f' m') P) :
    Twin T R before (get >>= f) (get >>= f') P :=
  fun m m' hm => h m m' hm m m' hm

/-- Two actions that stop at once for reasons that are alike. -/
theorem halt {reason reason' : Halt} (h : reason.Alike T reason') :
    Twin T R before (throw reason : Exec α) (throw reason' : Exec α') Q :=
  fun _ _ hm => .error hm h

theorem raise (fault : RuntimeFault) {t t' : Token} (h : T t t') :
    Twin T R before (Exec.raise fault t : Exec α) (Exec.raise fault t' : Exec α') Q :=
  halt (.error h)

theorem orRaise {t t' : Token} (h : T t t') (result : Except RuntimeFault α) :
    Twin T R before (Exec.orRaise t result) (Exec.orRaise t' result) Eq := by
  cases result with
  | ok a => exact pure rfl
  | error fault => exact raise fault h

theorem orDefect (result : Except Defect α) :
    Twin T R before (Exec.orDefect result) (Exec.orDefect result) Eq := by
  cases result with
  | ok a => exact pure rfl
  | error d => exact halt .defect

/-- Two changes that keep machines alike. -/
theorem modify {f f' : Machine → Machine}
    (h : ∀ m m', m.Alike T R before m' → (f m).Alike T R before (f' m')) :
    Twin T R before (modify f : Exec Unit) (modify f' : Exec Unit) Eq :=
  fun m m' hm => .ok (h m m' hm) rfl

end Twin

/-! ## Variables -/

namespace Exec

variable {ctx ctx' : Context} {env : Env}

theorem twin_bindIn (f : FrameId) (x : String) (v : Value) :
    Twin T R before (bindIn f x v) (bindIn f x v) Eq := by
  refine .modify ?_
  intro m m' h
  rw [h.store]
  exact h.withStore _

/-- Both machines make their new frame at the same place. -/
theorem twin_enter (env : Env) (frame : Frame) :
    Twin T R before (enter env frame) (enter env frame) Eq := by
  intro m m' h
  have henter : enter env frame m' = .ok (m.store.extend env frame).1
      { m' with store := (m.store.extend env frame).2 } := by
    rw [← h.store]
    rfl
  rw [henter]
  exact .ok (h.withStore _) rfl

/-- A name is looked up by its letters, so that the place of its token makes no difference. -/
theorem twin_getByName {name name' : Token} (hT : ∀ t t', T t t' → t.SameWord t')
    (hname : T name name') : Twin T R before (getByName env name) (getByName env name') Eq := by
  refine .get_bind ?_
  intro m m' h
  rw [h.store, (hT _ _ hname).lexeme]
  exact .orRaise hname _

theorem twin_assignByName {name name' : Token} (hT : ∀ t t', T t t' → t.SameWord t')
    (hname : T name name') (v : Value) :
    Twin T R before (assignByName env name v) (assignByName env name' v) Eq := by
  refine .get_bind ?_
  intro m m' h
  rw [h.store, (hT _ _ hname).lexeme]
  refine (Twin.orRaise hname _).bind ?_
  rintro f _ rfl
  exact twin_bindIn f _ v

theorem twin_getAt (env : Env) (d : Nat) (x : String) :
    Twin T R before (getAt env d x) (getAt env d x) Eq := by
  refine .get_bind ?_
  intro m m' h
  rw [h.store]
  exact .orDefect _

theorem twin_assignAt (env : Env) (d : Nat) (x : String) (v : Value) :
    Twin T R before (assignAt env d x v) (assignAt env d x v) Eq := by
  refine (Twin.orDefect _).bind ?_
  rintro ancestor _ rfl
  exact twin_bindIn _ x v

/-- A name that has the same distance on both sides, or none, is looked up with the same outcome. -/
theorem twin_lookUp (hT : ∀ t t', T t t' → t.SameWord t') {id id' : NodeId}
    (hid : ctx'.links[id']? = ctx.links[id]?) {name name' : Token} (hname : T name name') :
    Twin T R before (lookUp ctx env id name) (lookUp ctx' env id' name') Eq := by
  unfold lookUp
  rw [hid, (hT _ _ hname).lexeme]
  cases ctx.links[id]? with
  | some d => exact twin_getAt env d _
  | none => exact twin_getByName hT hname

theorem twin_assign (hT : ∀ t t', T t t' → t.SameWord t') {id id' : NodeId}
    (hid : ctx'.links[id']? = ctx.links[id]?) {name name' : Token} (hname : T name name')
    (v : Value) : Twin T R before (assign ctx env id name v) (assign ctx' env id' name' v) Eq := by
  unfold assign
  rw [hid, (hT _ _ hname).lexeme]
  cases ctx.links[id]? with
  | some d => exact twin_assignAt env d _ v
  | none => exact twin_assignByName hT hname v

/-! ## Functions and objects -/

theorem twin_newFunction {f f' : Closure} (hf : f.Alike T R f') :
    Twin T R before (newFunction f) (newFunction f') Eq := by
  intro m m' h
  refine .ok ⟨h.store, ?_, ?_, h.size_classes, h.classes, h.objects, h.output, h.readings⟩ ?_
  · simp [h.size_functions]
  · intro id
    rw [Machine.function_push, Machine.function_push, h.size_functions]
    split
    · exact hf
    · exact h.functions id
  · rw [h.size_functions]

theorem twin_bindMethod {f f' : Closure} (hf : f.Alike T R f') (object : ObjectId) :
    Twin T R before (bindMethod f object) (bindMethod f' object) (Closure.Alike T R) := by
  unfold bindMethod
  rw [hf.env]
  refine (twin_enter _ _).bind ?_
  rintro inner _ rfl
  exact .pure ⟨hf.decl, rfl, hf.isInitializer⟩

/-- Parameters bind by their letters only. -/
theorem bindParameters_eq : ∀ {params params' : List Token} (arguments : List Value)
    (frame : Frame), params'.map Token.lexeme = params.map Token.lexeme →
    bindParameters frame params' arguments = bindParameters frame params arguments
  | [], [], _, _, _ => rfl
  | [], _ :: _, _, _, h => by cases h
  | _ :: _, [], _, _, h => by cases h
  | param :: params, param' :: params', arguments, frame, h => by
      rcases List.cons.inj h with ⟨hparam, hparams⟩
      cases arguments with
      | nil => exact congrArg (Except.error ∘ Defect.missingArgument) hparam
      | cons v arguments =>
          unfold bindParameters
          rw [hparam]
          exact bindParameters_eq arguments _ hparams

theorem twin_checkArity {paren paren' : Token} (hparen : T paren paren') (expected got : Nat) :
    Twin T R before (checkArity paren expected got) (checkArity paren' expected got) Eq := by
  unfold checkArity
  split
  · exact .pure rfl
  · exact .raise _ hparen

theorem twin_newObject (classId : ClassId) :
    Twin T R before (newObject classId) (newObject classId) Eq := by
  intro m m' h
  have hnew : newObject classId m' = .ok m.objects.size
      { m' with objects := m.objects.push ⟨classId, .empty⟩ } := by
    rw [← h.objects]
    rfl
  rw [hnew]
  exact .ok (h.withObjects _) rfl

theorem twin_setField (object : ObjectId) (x : String) (v : Value) :
    Twin T R before (setField object x v) (setField object x v) Eq := by
  refine .modify ?_
  intro m m' h
  rw [h.objects]
  exact h.withObjects _

theorem twin_asObject {name name' : Token} (hname : T name name') (v : Value) :
    Twin T R before (asObject v name) (asObject v name') Eq := by
  cases v with
  | object id => exact .pure rfl
  | _ => exact .raise _ hname

/-- The methods of a class are alike, so a method is found on both sides or on neither. -/
theorem twin_methodOf (hT : ∀ t t', T t t' → t.SameWord t') (classId : ClassId) (object : ObjectId)
    {name name' : Token} (hname : T name name') :
    Twin T R before (methodOf classId object name) (methodOf classId object name') Eq := by
  refine .get_bind ?_
  intro m m' h
  rw [(hT _ _ hname).lexeme]
  have hfind := h.findMethod? classId name.lexeme
  generalize m.findMethod? classId name.lexeme = found at hfind
  generalize m'.findMethod? classId name.lexeme = found' at hfind
  cases hfind with
  | none => exact .raise _ hname
  | some hf => exact (twin_bindMethod hf object).bind fun _ _ => twin_newFunction

theorem twin_getProperty (hT : ∀ t t', T t t' → t.SameWord t') (v : Value) {name name' : Token}
    (hname : T name name') :
    Twin T R before (getProperty v name) (getProperty v name') Eq := by
  cases v with
  | object id =>
      refine .get_bind ?_
      intro m m' h
      have hobject : m'.object id = m.object id := by
        unfold Machine.object
        rw [h.objects]
      dsimp only
      rw [hobject, (hT _ _ hname).lexeme]
      cases (m.object id).fields.get? name.lexeme with
      | some field => exact .pure rfl
      | none => exact twin_methodOf hT _ id hname
  | _ => exact .raise _ hname

/-- The class and the object are found at the same distances on both sides. -/
theorem twin_superMethod (hT : ∀ t t', T t t' → t.SameWord t') {id id' : NodeId}
    (hid : ctx'.links[id']? = ctx.links[id]?) {method method' : Token}
    (hmethod : T method method') :
    Twin T R before (superMethod ctx env id method) (superMethod ctx' env id' method') Eq := by
  unfold superMethod
  rw [hid]
  cases ctx.links[id]? with
  | none => exact .halt .defect
  | some d =>
      refine (twin_getAt env d "super").bind ?_
      rintro superclass _ rfl
      refine (twin_getAt env (d - 1) "this").bind ?_
      rintro this _ rfl
      cases superclass with
      | classRef classId =>
          cases this with
          | object object => exact twin_methodOf hT classId object hmethod
          | _ => exact .halt .defect
      | _ => exact .halt .defect

/-! ## Classes -/

theorem twin_newClass (name : String) (superclass : Option ClassId)
    {methods methods' : Bindings Closure}
    (hmethods : ∀ x, Option.Rel (Closure.Alike T R) (methods.get? x) (methods'.get? x)) :
    Twin T R before (newClass name superclass methods) (newClass name superclass methods') Eq := by
  intro m m' h
  refine .ok ⟨h.store, h.size_functions, h.functions, ?_, ?_, h.objects, h.output, h.readings⟩ ?_
  · simp [h.size_classes]
  · intro id
    rw [Machine.classInfo_push, Machine.classInfo_push, h.size_classes]
    split
    · refine ⟨rfl, ?_, hmethods⟩
      cases superclass with
      | none => rfl
      | some parent => exact h.lineage parent
    · exact h.classes id
  · rw [h.size_classes]

/-- Tables that are related entry by entry stay so if related things are bound to one name. -/
theorem get?_insert_rel {α : Type} {P : α → α → Prop} {b b' : Bindings α}
    (h : ∀ x, Option.Rel P (b.get? x) (b'.get? x)) (name : String) {a a' : α} (ha : P a a')
    (x : String) : Option.Rel P ((b.insert name a).get? x) ((b'.insert name a').get? x) := by
  rw [Bindings.get?_insert, Bindings.get?_insert]
  split
  · exact .some ha
  · exact h x

/-- Declarations that are alike make tables of methods that are alike. -/
theorem methodTable_rel (env : Env) {decls decls' : List FunctionDecl}
    (hdecls : FunctionDecl.AllAlike T R decls decls') (x : String) :
    Option.Rel (Closure.Alike T R) ((methodTable env decls).get? x)
      ((methodTable env decls').get? x) := by
  -- Both tables are built in step, and every step keeps them related.
  have hfold : ∀ (decls decls' : List FunctionDecl) (table table' : Bindings Closure),
      FunctionDecl.AllAlike T R decls decls' →
      (∀ x, Option.Rel (Closure.Alike T R) (table.get? x) (table'.get? x)) → ∀ x,
      Option.Rel (Closure.Alike T R)
        ((decls.foldl (fun table decl => table.insert decl.name.lexeme
          ⟨decl, env, decl.name.lexeme == "init"⟩) table).get? x)
        ((decls'.foldl (fun table decl => table.insert decl.name.lexeme
          ⟨decl, env, decl.name.lexeme == "init"⟩) table').get? x) := by
    intro decls
    induction decls with
    | nil =>
        intro decls' table table' hdecls htable
        cases hdecls
        exact htable
    | cons decl decls ih =>
        intro decls' table table' hdecls htable
        cases hdecls with
        | @cons _ decl' _ rest' hdecl hrest =>
            refine ih rest' _ _ hrest ?_
            dsimp only
            rw [hdecl.lexeme]
            exact get?_insert_rel htable _ ⟨hdecl, rfl, rfl⟩
  exact hfold decls decls' .empty .empty hdecls (fun _ => .none) x

theorem twin_superclassOf (hT : ∀ t t', T t t' → t.SameWord t') {id id' : NodeId}
    (hid : ctx'.links[id']? = ctx.links[id]?) {parent parent' : Token}
    (hparent : T parent parent') :
    Twin T R before (superclassOf ctx env (some ⟨id, parent⟩))
      (superclassOf ctx' env (some ⟨id', parent'⟩)) Eq := by
  refine (twin_lookUp hT hid hparent).bind ?_
  rintro v _ rfl
  cases v with
  | classRef classId => exact .pure rfl
  | _ => exact .raise _ hparent

theorem twin_methodEnv (env : Env) (superclass : Option ClassId) :
    Twin T R before (methodEnv env superclass) (methodEnv env superclass) Eq := by
  cases superclass with
  | none => exact .pure rfl
  | some id => exact twin_enter env _

theorem twin_assignClass (hT : ∀ t t', T t t' → t.SameWord t') (env : Env) {name name' : Token}
    (hname : T name name') (v : Value) :
    Twin T R before (assignClass env name v) (assignClass env name' v) Eq := by
  refine .get_bind ?_
  intro m m' h
  rw [h.store, (hT _ _ hname).lexeme]
  cases m.store.locate env name.lexeme with
  | ok f => exact twin_bindIn f _ v
  | error _ => exact .raise _ hname

/-- A class declaration does the same on both sides if looking up its superclass does. -/
theorem twin_declareClass (hT : ∀ t t', T t t' → t.SameWord t') {name name' : Token}
    (hname : T name name') {superclass superclass' : Option Reference}
    (hsuper : Twin T R before (superclassOf ctx env superclass) (superclassOf ctx' env superclass')
      Eq)
    {methods methods' : List FunctionDecl} (hmethods : FunctionDecl.AllAlike T R methods methods') :
    Twin T R before (declareClass ctx env name superclass methods)
      (declareClass ctx' env name' superclass' methods') Eq := by
  unfold declareClass
  rw [(hT _ _ hname).lexeme]
  refine hsuper.bind ?_
  rintro id _ rfl
  refine (twin_bindIn env.frame name.lexeme .nil).bind ?_
  rintro _ _ -
  refine (twin_methodEnv env id).bind ?_
  rintro inner _ rfl
  refine (twin_newClass name.lexeme id (methodTable_rel inner hmethods)).bind ?_
  rintro v _ rfl
  exact twin_assignClass hT env hname v

/-! ## Output, the clock and loops -/

theorem twin_print (v : Value) : Twin T R before (print v) (print v) Eq := by
  refine .modify ?_
  intro m m' h
  refine ⟨h.store, h.size_functions, h.functions, h.size_classes, h.classes, h.objects, ?_,
    h.readings⟩
  simp [h.output, h.text_eq]

/-- The clock shows the same if it has been read as often. -/
theorem twin_readClock (host : Host) : Twin T R before (readClock host) (readClock host) Eq := by
  intro m m' h
  refine .ok ⟨h.store, h.size_functions, h.functions, h.size_classes, h.classes, h.objects,
    h.output, ?_⟩ ?_
  · exact congrArg (· + 1) h.readings
  · rw [h.readings]

/-- By induction on the turns: a loop does the same on both sides if its condition and its body
do. -/
theorem twin_loop {condition condition' : Exec Bool} {body body' : Exec Flow}
    (hcondition : Twin T R before condition condition' Eq)
    (hbody : Twin T R before body body' Eq) (turns : Nat) :
    Twin T R before (loop condition body turns) (loop condition' body' turns) Eq := by
  induction turns with
  | zero => exact .halt .unfinished
  | succ turns ih =>
      refine hcondition.bind ?_
      rintro holds _ rfl
      cases holds with
      | false => exact .pure rfl
      | true =>
          refine hbody.bind ?_
          rintro flow _ rfl
          cases flow with
          | next => exact ih
          | returned v => exact .pure rfl

end Exec

end LoxLang
