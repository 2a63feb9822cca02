import LoxLang.Proofs.Eval.Proceed

/-!
# How methods are found

Classes by their superclasses, and what a use of a property gives.

* `Machine.superclass?` is the superclass of a class. On a valid machine it is an older class
  (`Machine.Valid.superclass?_lt`), so nothing goes on for ever that follows the superclasses.
* `Machine.Finds` is the search for a method, class by class. It always ends, with the result of
  `Machine.findMethod?` (`Machine.Valid.finds_iff`).
* `Machine.Attaches`: a function is a method that has just been bound to an object.
  `methodOf_of_some` and `methodOf_of_none` say what the use of a method gives.
* `Machine.put` sets a field of an object. Nothing else changes the fields of an object
  (`Machine.Update.fields_eq`), so one that is there has been set (`Machine.Evolves.exists_put`).
-/

namespace LoxLang

open Exec

namespace Machine

/-! ## Superclasses -/

def superclass? (m : Machine) (c : ClassId) : Option ClassId := (m.classInfo c).ancestors.head?

/-- The search for a method: the class itself comes first, then its superclass, and so on. -/
inductive Finds (m : Machine) (name : String) : ClassId → Option Closure → Prop where
  | here {c : ClassId} {f : Closure} : (m.classInfo c).methods.get? name = some f →
      Finds m name c (some f)
  | up {c d : ClassId} {r : Option Closure} : (m.classInfo c).methods.get? name = none →
      m.superclass? c = some d → Finds m name d r → Finds m name c r
  | top {c : ClassId} : (m.classInfo c).methods.get? name = none → m.superclass? c = none →
      Finds m name c none

variable {m m' : Machine} {c d : ClassId} {name : String}

/-- The superclass of a class is the one that it was declared with. -/
theorem Declares.superclass?_eq {superclass : Option ClassId} {env : Env}
    {decls : List FunctionDecl} (h : m.Declares (m.classInfo c) superclass env decls) :
    m.superclass? c = superclass := by
  unfold superclass?
  rw [h.ancestors]
  cases superclass <;> rfl

/-- The superclass of a class has been there before it. -/
theorem Valid.superclass?_lt (hm : m.Valid) (h : m.superclass? c = some d) : d < c := by
  by_cases hc : c < m.classes.size
  · rcases hm.classes c hc with ⟨superclass, env, decls, hdeclares, holder⟩
    rw [hdeclares.superclass?_eq] at h
    exact holder d h
  · rw [superclass?, classInfo_of_le (Nat.le_of_not_lt hc)] at h
    cases h

/-- Nothing inherits from itself, over however many classes. -/
theorem Valid.wellFounded (hm : m.Valid) : WellFounded fun d c => m.superclass? c = some d :=
  Subrelation.wf (fun h => hm.superclass?_lt h) Nat.lt_wfRel.wf

/-- A class comes before its superclass and what is behind that one. -/
theorem Valid.lineage_eq (hm : m.Valid) (c : ClassId) :
    m.lineage c = c :: (m.superclass? c).elim [] m.lineage := by
  by_cases hc : c < m.classes.size
  · rcases hm.classes c hc with ⟨superclass, env, decls, hdeclares, -⟩
    rw [hdeclares.superclass?_eq]
    exact congrArg (c :: ·) hdeclares.ancestors
  · rw [lineage, superclass?, classInfo_of_le (Nat.le_of_not_lt hc)]
    rfl

/-- A class stays what it is, and so does its superclass. -/
theorem Extends.superclass?_eq (h : m.Extends m') (hc : c < m.classes.size) :
    m'.superclass? c = m.superclass? c :=
  congrArg (ClassInfo.ancestors · |>.head?) (h.classes c hc)

/-! ## The search -/

/-- A method is searched for in the class itself, and otherwise from its superclass on. -/
theorem Valid.findMethod?_eq (hm : m.Valid) (c : ClassId) (name : String) :
    m.findMethod? c name = ((m.classInfo c).methods.get? name).or
      ((m.superclass? c).bind fun d => m.findMethod? d name) := by
  unfold findMethod?
  rw [hm.lineage_eq c, List.findSome?_cons]
  cases (m.classInfo c).methods.get? name with
  | some f => rfl
  | none => cases m.superclass? c <;> rfl

/-- The search ends, and finds the method of the nearest class that has one. -/
theorem Valid.finds_iff (hm : m.Valid) {r : Option Closure} :
    m.Finds name c r ↔ m.findMethod? c name = r := by
  constructor
  · intro h
    induction h with
    | here hget => rw [hm.findMethod?_eq, hget, Option.some_or]
    | up hget hsuper _ ih =>
        rw [hm.findMethod?_eq, hget, hsuper, Option.none_or, Option.bind_some, ih]
    | top hget hsuper => rw [hm.findMethod?_eq, hget, hsuper, Option.none_or, Option.bind_none]
  · rintro rfl
    -- By induction on the classes, the oldest ones first.
    induction c using hm.wellFounded.induction with
    | _ c ih =>
        rw [hm.findMethod?_eq]
        cases hget : (m.classInfo c).methods.get? name with
        | some f => exact .here hget
        | none =>
            cases hsuper : m.superclass? c with
            | none => exact .top hget hsuper
            | some d => exact .up hget hsuper (ih d hsuper)

/-- The method that is found is that of the nearest class that has one of the name. -/
theorem findMethod?_eq_some_iff {f : Closure} :
    m.findMethod? c name = some f ↔ ∃ nearer d further, m.lineage c = nearer ++ d :: further ∧
      (m.classInfo d).methods.get? name = some f ∧
      ∀ e ∈ nearer, (m.classInfo e).methods.get? name = none := by
  simp [findMethod?, List.findSome?_eq_some_iff]

theorem findMethod?_eq_none_iff :
    m.findMethod? c name = none ↔
      ∀ d ∈ m.lineage c, (m.classInfo d).methods.get? name = none := by
  simp [findMethod?, List.findSome?_eq_none_iff]

/-! ## Methods of an object -/

/-- A function is a method of an object: it stands in a frame of its own, which binds `this` to the
object, inside the environment of the method. -/
structure Attaches (m : Machine) (id : FunctionId) (method : Closure) (object : ObjectId) :
    Prop where
  decl : (m.function id).decl = method.decl
  isInitializer : (m.function id).isInitializer = method.isInitializer
  enclosing : (m.function id).env.enclosing = method.env.chain
  frame : m.store.frame (m.function id).env.frame = Bindings.empty.insert "this" (.object object)

/-- The machine on which a method has been bound to an object. -/
def attach (m : Machine) (method : Closure) (object : ObjectId) : Machine :=
  { m with
    store := ⟨m.store.frames.push (Bindings.empty.insert "this" (.object object))⟩
    functions := m.functions.push { method with env := ⟨m.store.frames.size, method.env.chain⟩ } }

/-- The machine on which a method has been bound to an object has a function that says so. -/
theorem attaches_attach (m : Machine) (method : Closure) (object : ObjectId) :
    (m.attach method object).Attaches m.functions.size method object := by
  have hfunction : (m.attach method object).function m.functions.size =
      { method with env := ⟨m.store.frames.size, method.env.chain⟩ } :=
    (getD_push ..).trans (if_pos rfl)
  refine ⟨?_, ?_, ?_, ?_⟩
  · rw [hfunction]
  · rw [hfunction]
  · rw [hfunction]
  · rw [hfunction]
    exact Store.frame_push_size m.store _

end Machine

namespace Exec

variable {m : Machine} {c : ClassId} {object : ObjectId} {name : Token}

/-- A method that is found is bound to the object, and nothing else changes. -/
theorem methodOf_of_some {method : Closure} (h : m.findMethod? c name.lexeme = some method) :
    methodOf c object name m = .ok (.function m.functions.size) (m.attach method object) := by
  unfold methodOf
  rw [Halt.get_bind, h]
  rfl

theorem methodOf_of_none (h : m.findMethod? c name.lexeme = none) :
    methodOf c object name m =
      .error (.error ⟨.undefinedProperty name.lexeme, name⟩) m := by
  unfold methodOf
  rw [Halt.get_bind, h]
  rfl

/-- A field hides a method of the same name. -/
theorem getProperty_object (object : ObjectId) (name : Token) (m : Machine) :
    getProperty (.object object) name m =
      match (m.object object).fields.get? name.lexeme with
      | some v => .ok v m
      | none => methodOf (m.object object).classId object name m := by
  unfold getProperty
  dsimp only
  rw [Halt.get_bind]
  cases (m.object object).fields.get? name.lexeme <;> rfl

end Exec

/-! ## Class declarations -/

namespace Exec

variable {m m' : Machine} {ctx : Context} {env : Env}

theorem orDefect_ok {α : Type} {result : Except Defect α} {a : α}
    (h : orDefect result m = .ok a m') : result = .ok a ∧ m' = m := by
  cases result with
  | ok _ =>
      cases h
      exact ⟨rfl, rfl⟩
  | error _ => cases h

theorem orRaise_ok {α : Type} {result : Except RuntimeFault α} {token : Token} {a : α}
    (h : orRaise token result m = .ok a m') : result = .ok a ∧ m' = m := by
  cases result with
  | ok _ =>
      cases h
      exact ⟨rfl, rfl⟩
  | error _ => cases h

/-- Looking up a name changes nothing. -/
theorem lookUp_ok {id : NodeId} {name : Token} {v : Value} (h : lookUp ctx env id name m = .ok v m') :
    m' = m := by
  unfold lookUp at h
  cases hlink : ctx.links[id]? with
  | some distance =>
      rw [hlink] at h
      exact (orDefect_ok h).2
  | none =>
      rw [hlink] at h
      exact (orRaise_ok h).2

/-- The superclass of a declaration is looked up, which changes nothing. -/
theorem superclassOf_ok {superclass : Option Reference} {c : Option ClassId}
    (h : superclassOf ctx env superclass m = .ok c m') : m' = m := by
  cases superclass with
  | none =>
      cases h
      rfl
  | some ref =>
      rcases Halt.bind_eq_ok h with ⟨v, m₁, hlookUp, hclass⟩
      obtain rfl := lookUp_ok hlookUp
      cases v <;> cases hclass
      rfl

/-- The environment of the methods: the one around the class, or a new frame inside of it that binds
`super`. -/
theorem methodEnv_ok {c : Option ClassId} {inner : Env} (h : methodEnv env c m = .ok inner m') :
    m'.classes = m.classes ∧ (c = none → inner = env) ∧ ∀ d, c = some d →
      inner.enclosing = env.chain ∧
        (m'.store.frame inner.frame).get? "super" = some (.classRef d) := by
  cases c with
  | none =>
      cases h
      exact ⟨rfl, fun _ => rfl, nofun⟩
  | some d =>
      cases h
      refine ⟨rfl, nofun, ?_⟩
      rintro _ ⟨⟩
      refine ⟨rfl, ?_⟩
      change (Store.frame ⟨m.store.frames.push _⟩ m.store.frames.size).get? "super" = _
      rw [Store.frame_push_size]
      simp

theorem assignClass_ok {name : Token} {v : Value} (h : assignClass env name v m = .ok () m') :
    ∃ f, m' = { m with store := m.store.bind f name.lexeme v } := by
  unfold assignClass at h
  rw [Halt.get_bind] at h
  generalize m.store.locate env name.lexeme = result at h
  cases result with
  | ok f =>
      cases h
      exact ⟨f, rfl⟩
  | error _ => cases h

/-- A class declaration that succeeds makes one class, with the methods that it declares and with
the superclass that its superclass expression gives just then. -/
theorem declareClass_ok {name : Token} {superclass : Option Reference}
    {decls : List FunctionDecl} (h : declareClass ctx env name superclass decls m = .ok () m') :
    ∃ c inner, superclassOf ctx env superclass m = .ok c m ∧
      m'.classes = m.classes.push
        ⟨name.lexeme, c.elim [] m.lineage, methodTable inner decls⟩ ∧
      (c = none → inner = env) ∧
      ∀ d, c = some d → inner.enclosing = env.chain ∧
        (Resolver.Named name → (m'.store.frame inner.frame).get? "super" = some (.classRef d)) := by
  rcases Halt.bind_eq_ok h with ⟨c, m₁, hsuperclass, hrest⟩
  obtain rfl := superclassOf_ok hsuperclass
  rcases Halt.bind_eq_ok hrest with ⟨_, m₂, ⟨⟩, hrest⟩
  rcases Halt.bind_eq_ok hrest with ⟨inner, m₃, hinner, hrest⟩
  rcases Halt.bind_eq_ok hrest with ⟨v, m₄, ⟨⟩, hassign⟩
  rcases methodEnv_ok hinner with ⟨hclasses, hnone, hsome⟩
  rcases assignClass_ok hassign with ⟨f, rfl⟩
  -- What is bound in between changes no class.
  refine ⟨c, inner, hsuperclass, ?_, hnone, fun d hd => ?_⟩
  · have hlineage : m₃.lineage = m₁.lineage := by
      funext d
      simp only [Machine.lineage, Machine.classInfo, hclasses]
    cases c with
    | none => exact congrArg (Array.push · _) hclasses
    | some d =>
        change m₃.classes.push ⟨name.lexeme, m₃.lineage d, methodTable inner decls⟩ = _
        rw [hclasses, hlineage]
        rfl
  · rcases hsome d hd with ⟨henclosing, hget⟩
    exact ⟨henclosing, fun hname =>
      (Store.get?_bind m₃.store f hname _ _ fun h => h.2 rfl).trans hget⟩

end Exec

/-- A class that has been declared keeps its superclass and its methods. -/
theorem Machine.classInfo_declared {m m' m'' : Machine} {name : String} {c : Option ClassId}
    {inner : Env} {decls : List FunctionDecl}
    (hclasses : m'.classes = m.classes.push ⟨name, c.elim [] m.lineage, methodTable inner decls⟩)
    (h : m'.Extends m'') :
    m''.superclass? m.classes.size = c ∧
      (m''.classInfo m.classes.size).methods = methodTable inner decls := by
  have hinfo : m''.classInfo m.classes.size =
      ⟨name, c.elim [] m.lineage, methodTable inner decls⟩ := by
    rw [h.classes _ (by simp [hclasses])]
    unfold Machine.classInfo
    rw [hclasses]
    exact (getD_push ..).trans (if_pos rfl)
  unfold superclass?
  rw [hinfo]
  cases c <;> exact ⟨rfl, rfl⟩

/-- The methods of a class that has just been declared stand inside of the environment of its
declaration. -/
theorem Machine.methods_declared {m m' : Machine} {ctx : Context} {run : Runner} {env : Env}
    {name : Token} {superclass : Option Reference} {decls : List FunctionDecl} {flow : Flow}
    (h : exec ctx run env (.classDecl name superclass decls) m = .ok flow m') {x : String}
    {f : Closure} (hf : (m'.classInfo m.classes.size).methods.get? x = some f) :
    env.chain <:+ f.env.chain := by
  rcases Halt.bind_eq_ok h with ⟨_, m₁, hdeclare, ⟨⟩⟩
  rcases declareClass_ok hdeclare with ⟨c, inner, -, hclasses, hnone, hsome⟩
  rw [(classInfo_declared hclasses (.refl _)).2, methodTable_get?] at hf
  rcases Option.map_eq_some_iff.1 hf with ⟨decl, -, rfl⟩
  change env.chain <:+ inner.chain
  cases c with
  | none =>
      obtain rfl := hnone rfl
      exact List.suffix_rfl
  | some d => exact (hsome d rfl).1 ▸ List.suffix_cons inner.frame inner.enclosing

/-! ## Fields -/

namespace Machine

variable {m m' : Machine}

/-- The machine on which a field of an object has been set. -/
def put (m : Machine) (o : ObjectId) (x : String) (v : Value) : Machine :=
  { m with
    objects := m.objects.modify o fun info => { info with fields := info.fields.insert x v } }

/-- Setting a field of an object changes that field only. -/
theorem get?_put {o : ObjectId} (ho : o < m.objects.size) (x y : String) (v : Value) :
    ((m.put o x v).object o).fields.get? y =
      if x = y then some v else (m.object o).fields.get? y := by
  unfold put
  rw [object_modify, if_pos ⟨rfl, ho⟩, Bindings.get?_insert]

/-- A field of one object is none of another. -/
theorem object_put_of_ne {o o' : ObjectId} (h : o' ≠ o) (x : String) (v : Value) :
    (m.put o x v).object o' = m.object o' := by
  unfold put
  rw [object_modify, if_neg fun heq => h heq.1.symm]

/-- A change leaves the fields of an object alone, or sets one of them. -/
theorem Update.fields_eq (h : m.Update m') (o : ObjectId) :
    (m'.object o).fields = (m.object o).fields ∨
      ∃ x v, o < m.objects.size ∧ m' = m.put o x v := by
  cases h with
  | @object c _ =>
      refine .inl ?_
      rw [object_push]
      split
      · rename_i heq
        rw [object_of_le (Nat.le_of_eq heq.symm)]
        rfl
      · rfl
  | @field o' x v _ =>
      by_cases hoo : o' = o ∧ o' < m.objects.size
      · rcases hoo with ⟨rfl, hlt⟩
        exact .inr ⟨x, v, hlt, rfl⟩
      · refine .inl ?_
        rw [object_modify, if_neg hoo]
  | _ => exact .inl rfl

/-- A field that has come to be there has been set, and not to anything else since. -/
theorem Evolves.exists_put (h : m.Evolves m') {o : ObjectId} {x : String} {v : Value}
    (hnew : (m.object o).fields.get? x = none) (hv : (m'.object o).fields.get? x = some v) :
    ∃ m₁, m.Evolves m₁ ∧ o < m₁.objects.size ∧ (m₁.put o x v).Evolves m' := by
  induction h with
  | refl =>
      rw [hnew] at hv
      cases hv
  | @tail m₁ m₂ hevolves hupdate ih =>
      -- Either the last change has set the field, or the field was there before.
      have hlast : (m₁.object o).fields.get? x = some v ∨
          o < m₁.objects.size ∧ m₂ = m₁.put o x v := by
        rcases hupdate.fields_eq o with hsame | ⟨y, w, ho, rfl⟩
        · rw [hsame] at hv
          exact .inl hv
        · rw [get?_put ho] at hv
          split at hv
          · rename_i hxy
            cases hv
            exact .inr ⟨ho, hxy ▸ rfl⟩
          · exact .inl hv
      rcases hlast with hold | ⟨ho, rfl⟩
      · rcases ih hold with ⟨m₀, h₀, ho, hput⟩
        exact ⟨m₀, h₀, ho, hput.trans (.of_update hupdate)⟩
      · exact ⟨m₁, hevolves, ho, .refl _⟩

end Machine

end LoxLang
