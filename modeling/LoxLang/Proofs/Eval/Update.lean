import LoxLang.Proofs.Eval.Alike
import LoxLang.Proofs.Eval.Growth
import LoxLang.Proofs.Grammar.Shape
import Mathlib.Logic.Relation

/-!
# What can happen to a machine

The single changes that a program makes to a machine, and what any number of them leaves as it is.

* `Machine.Update`: one change, with what is known of the things that it puts into the machine.
* `Machine.Evolves`: any number of changes. All later states of a machine are among those that it
  evolves to.
* `Machine.Extends`: functions and classes stay what they are, an object keeps its class, a field
  or a name that is there stays there, and nobody touches what a frame binds to `this` and `super`.
* `Machine.Valid`: whatever is kept in a machine names something that exists, every class has been
  made from a declaration, after its superclass, and every initializer is bound to an object.

The last two are derived from the single changes (`Evolves.extends`, `Machine.Valid.evolves`).
-/

namespace LoxLang

open Exec

/-- What holds of a list of declarations holds of each. -/
theorem FunctionDecl.AllShaped.mem {N : Token → Prop} {decls : List FunctionDecl}
    (h : FunctionDecl.AllShaped N decls) : ∀ decl ∈ decls, decl.Shaped N := by
  induction decls with
  | nil => exact fun _ hdecl => by cases hdecl
  | cons decl decls ih =>
      intro decl' hdecl
      rcases List.mem_cons.1 hdecl with rfl | hdecl
      · exact h.1
      · exact ih h.2 decl' hdecl

theorem FunctionDecl.Shaped.name {N : Token → Prop} {decl : FunctionDecl} (h : decl.Shaped N) :
    N decl.name := by
  cases decl
  exact h.1

theorem FunctionDecl.Shaped.body {N : Token → Prop} {decl : FunctionDecl} (h : decl.Shaped N) :
    Stmt.AllShaped N decl.body := by
  cases decl
  exact h.2.2

namespace Machine

/-- What a value names exists. -/
def Knows (m : Machine) : Value → Prop
  | .function id => id < m.functions.size
  | .classRef id => id < m.classes.size
  | .object id => id < m.objects.size
  | _ => True

/-- A function is a method that has been bound to an object. -/
def Binds (m : Machine) (f : Closure) (object : ObjectId) : Prop :=
  (m.store.frame f.env.frame).get? "this" = some (.object object)

/-- A class that has been declared with some superclass and methods. The methods stand in an
environment that binds `super` if there is a superclass, which was there before. -/
structure Declares (m : Machine) (info : ClassInfo) (superclass : Option ClassId) (env : Env)
    (decls : List FunctionDecl) : Prop where
  ancestors : info.ancestors = superclass.elim [] m.lineage
  methods : info.methods = methodTable env decls
  shaped : FunctionDecl.AllShaped Resolver.Named decls
  older : ∀ c ∈ superclass, c < m.classes.size
  super : ∀ c ∈ superclass, (m.store.frame env.frame).get? "super" = some (.classRef c)

/-! ## Changes -/

/-- The single changes that a program makes to a machine. -/
inductive Update : Machine → Machine → Prop where
  | bind {m : Machine} {f : FrameId} {x : String} {v : Value} :
      IsName x → m.Knows v → Update m { m with store := m.store.bind f x v }
  | enter {m : Machine} {frame : Frame} : (∀ x v, frame.get? x = some v → m.Knows v) →
      Update m { m with store := ⟨m.store.frames.push frame⟩ }
  | function {m : Machine} {f : Closure} : f.decl.Shaped Resolver.Named →
      (f.isInitializer = true → ∃ object, m.Binds f object) →
      Update m { m with functions := m.functions.push f }
  | declare {m : Machine} {info : ClassInfo} {superclass : Option ClassId} {env : Env}
      {decls : List FunctionDecl} : m.Declares info superclass env decls →
      Update m { m with classes := m.classes.push info }
  | object {m : Machine} {c : ClassId} : c < m.classes.size →
      Update m { m with objects := m.objects.push ⟨c, .empty⟩ }
  | field {m : Machine} {o : ObjectId} {x : String} {v : Value} : m.Knows v →
      Update m { m with
        objects := m.objects.modify o fun info => { info with fields := info.fields.insert x v } }
  | output {m : Machine} {lines : Array String} : Update m { m with output := lines }
  | reading {m : Machine} : Update m { m with readings := m.readings + 1 }

/-- Any number of changes. -/
def Evolves : Machine → Machine → Prop := Relation.ReflTransGen Update

namespace Evolves

variable {m m' m'' : Machine}

/-- No change at all is a run of changes. -/
theorem refl (m : Machine) : m.Evolves m := Relation.ReflTransGen.refl

theorem trans (h : m.Evolves m') (h' : m'.Evolves m'') : m.Evolves m'' :=
  Relation.ReflTransGen.trans h h'

/-- One change is a run of changes. -/
theorem of_update (h : m.Update m') : m.Evolves m' := Relation.ReflTransGen.single h

end Evolves

/-! ## What stays -/

/-- All that one machine has, the other one has, too. -/
structure Extends (m m' : Machine) : Prop where
  size_functions : m.functions.size ≤ m'.functions.size
  functions : ∀ id, id < m.functions.size → m'.function id = m.function id
  size_classes : m.classes.size ≤ m'.classes.size
  classes : ∀ c, c < m.classes.size → m'.classInfo c = m.classInfo c
  size_objects : m.objects.size ≤ m'.objects.size
  classId : ∀ o, o < m.objects.size → (m'.object o).classId = (m.object o).classId
  fields : ∀ o x, (m.object o).fields.contains x = true → (m'.object o).fields.contains x = true
  size_frames : m.store.frames.size ≤ m'.store.frames.size
  names : ∀ f x, (m.store.frame f).contains x = true → (m'.store.frame f).contains x = true
  fixed : ∀ f x, f < m.store.frames.size → ¬ IsName x →
    (m'.store.frame f).get? x = (m.store.frame f).get? x

namespace Extends

variable {m m' m'' : Machine}

theorem refl (m : Machine) : m.Extends m :=
  ⟨Nat.le_refl _, fun _ _ => rfl, Nat.le_refl _, fun _ _ => rfl, Nat.le_refl _, fun _ _ => rfl,
    fun _ _ h => h, Nat.le_refl _, fun _ _ h => h, fun _ _ _ _ => rfl⟩

/-- Two machines that extend each other in turn. -/
theorem trans (h : m.Extends m') (h' : m'.Extends m'') : m.Extends m'' where
  size_functions := Nat.le_trans h.size_functions h'.size_functions
  functions id hid := by
    have hid' := Nat.lt_of_lt_of_le hid h.size_functions
    exact (h'.functions id hid').trans (h.functions id hid)
  size_classes := Nat.le_trans h.size_classes h'.size_classes
  classes c hc := by
    have hc' := Nat.lt_of_lt_of_le hc h.size_classes
    exact (h'.classes c hc').trans (h.classes c hc)
  size_objects := Nat.le_trans h.size_objects h'.size_objects
  classId o ho := by
    have ho' := Nat.lt_of_lt_of_le ho h.size_objects
    exact (h'.classId o ho').trans (h.classId o ho)
  fields o x hx := h'.fields o x (h.fields o x hx)
  size_frames := Nat.le_trans h.size_frames h'.size_frames
  names f x hx := h'.names f x (h.names f x hx)
  fixed f x hf hx := by
    have hf' := Nat.lt_of_lt_of_le hf h.size_frames
    exact (h'.fixed f x hf' hx).trans (h.fixed f x hf hx)

/-- A change of the frames alone. -/
theorem of_store {store : Store} (hsize : m.store.frames.size ≤ store.frames.size)
    (hnames : ∀ f x, (m.store.frame f).contains x = true → (store.frame f).contains x = true)
    (hfixed : ∀ f x, f < m.store.frames.size → ¬ IsName x →
      (store.frame f).get? x = (m.store.frame f).get? x) : m.Extends { m with store } :=
  { refl m with size_frames := hsize, names := hnames, fixed := hfixed }

end Extends

/-- The declaration of a function adds that function, and no other. -/
theorem functions_declared {m m' : Machine} {ctx : Context} {run : Runner} {env : Env}
    {decl : FunctionDecl} {flow : Flow} (h : exec ctx run env (.function decl) m = .ok flow m') :
    m'.functions = m.functions.push ⟨decl, env, false⟩ := by
  rcases Halt.bind_eq_ok h with ⟨_, _, ⟨⟩, hrest⟩
  cases hrest
  rfl

/-- A function that is declared keeps the environment of its declaration. -/
theorem function_declared {m m' : Machine} {ctx : Context} {run : Runner} {env : Env}
    {decl : FunctionDecl} {flow : Flow} (h : exec ctx run env (.function decl) m = .ok flow m') :
    m'.function m.functions.size = ⟨decl, env, false⟩ := by
  unfold Machine.function
  rw [functions_declared h]
  exact (getD_push ..).trans (if_pos rfl)

theorem frame_push (m : Machine) (frame : Frame) (f : FrameId) :
    Store.frame ⟨m.store.frames.push frame⟩ f =
      if f = m.store.frames.size then frame else m.store.frame f := getD_push ..

/-- Setting a field changes the one object that has it. -/
theorem object_modify (m : Machine) (o o' : ObjectId) (x : String) (v : Value) :
    object { m with
      objects := m.objects.modify o fun info => { info with fields := info.fields.insert x v } } o' =
      if o = o' ∧ o < m.objects.size then
        { m.object o' with fields := (m.object o').fields.insert x v }
      else m.object o' := by
  unfold Machine.object
  rw [Array.getD_eq_getD_getElem?, Array.getD_eq_getD_getElem?, Array.getElem?_modify]
  by_cases ho : o = o'
  · subst ho
    by_cases hlt : o < m.objects.size <;> simp [hlt]
  · simp [ho]

/-- A single change adds to a machine and takes nothing away. -/
theorem Update.extends {m m' : Machine} (h : m.Update m') : m.Extends m' := by
  -- A change concerns one kind of things; all others are left as they are (`Extends.refl`).
  cases h with
  | @bind f x v hx _ =>
      exact .of_store (Nat.le_of_eq (Store.size_bind ..).symm) (Grows.bind m f x v).names
        fun g y _ hy => Store.get?_bind m.store f hx v g hy
  | @enter frame _ =>
      refine .of_store (by simp) (Grows.push m frame).names ?_
      intro g y hg _
      rw [Store.frame_push m.store frame hg]
  | @function f _ _ =>
      exact { Extends.refl m with
        size_functions := by simp
        functions := fun id hid => (function_push m f id).trans (if_neg (Nat.ne_of_lt hid)) }
  | @declare info _ _ _ _ =>
      exact { Extends.refl m with
        size_classes := by simp
        classes := fun c hc => (classInfo_push m info c).trans (if_neg (Nat.ne_of_lt hc)) }
  | @object c _ =>
      refine { Extends.refl m with
        size_objects := by simp
        classId := ?_
        fields := ?_ }
      · intro o ho
        rw [object_push, if_neg (Nat.ne_of_lt ho)]
      · intro o x hx
        rw [object_push]
        split
        · rename_i heq
          rw [object_of_le (Nat.le_of_eq heq.symm)] at hx
          cases hx
        · exact hx
  | @field o x v _ =>
      refine { Extends.refl m with
        size_objects := by simp
        classId := ?_
        fields := ?_ }
      · intro o' _
        rw [object_modify]
        split <;> rfl
      · intro o' y hy
        rw [object_modify]
        split
        · simp [Bindings.contains_insert, hy]
        · exact hy
  | output | reading => exact { Extends.refl m with }

/-- By induction on the changes. -/
theorem Evolves.extends {m m' : Machine} (h : m.Evolves m') : m.Extends m' := by
  induction h with
  | refl => exact .refl m
  | tail _ hupdate ih => exact ih.trans hupdate.extends

namespace Extends

variable {m m' : Machine}

/-- What exists goes on existing. -/
theorem knows (h : m.Extends m') {v : Value} (hv : m.Knows v) : m'.Knows v := by
  cases v with
  | function _ => exact Nat.lt_of_lt_of_le hv h.size_functions
  | classRef _ => exact Nat.lt_of_lt_of_le hv h.size_classes
  | object _ => exact Nat.lt_of_lt_of_le hv h.size_objects
  | _ => trivial

/-- The superclasses of a class stay what they were. -/
theorem lineage (h : m.Extends m') {c : ClassId} (hc : c < m.classes.size) :
    m'.lineage c = m.lineage c :=
  congrArg (c :: ClassInfo.ancestors ·) (h.classes c hc)

/-- What a frame binds to `this` or `super` it binds for ever. -/
theorem get?_fixed (h : m.Extends m') {f : FrameId} {x : String} (hx : ¬ IsName x) {v : Value}
    (hv : (m.store.frame f).get? x = some v) : (m'.store.frame f).get? x = some v := by
  by_cases hf : f < m.store.frames.size
  · rw [h.fixed f x hf hx, hv]
  · rw [Store.frame_of_le (Nat.le_of_not_lt hf)] at hv
    cases hv

/-- A closure with a receiver keeps it, since the frame that holds the receiver is never written to
again. -/
theorem binds (h : m.Extends m') {f : Closure} {o : ObjectId} (hf : m.Binds f o) : m'.Binds f o :=
  h.get?_fixed (fun hx => hx.1 rfl) hf

/-- A class stays the class its declaration made. -/
theorem declares (h : m.Extends m') {info : ClassInfo} {superclass : Option ClassId} {env : Env}
    {decls : List FunctionDecl} (hinfo : m.Declares info superclass env decls) :
    m'.Declares info superclass env decls where
  ancestors := by
    rw [hinfo.ancestors]
    cases superclass with
    | none => rfl
    | some c => exact (h.lineage (hinfo.older c rfl)).symm
  methods := hinfo.methods
  shaped := hinfo.shaped
  older c hc := Nat.lt_of_lt_of_le (hinfo.older c hc) h.size_classes
  super c hc := h.get?_fixed (fun hx => hx.2 rfl) (hinfo.super c hc)

end Extends

/-! ## What is new -/

namespace Update

variable {m m' : Machine}

/-- A value that a frame holds was in that frame before, or it is known. -/
theorem value_cases (h : m.Update m') {f : FrameId} {x : String} {v : Value}
    (hv : (m'.store.frame f).get? x = some v) :
    (m.store.frame f).get? x = some v ∨ m.Knows v := by
  cases h with
  | @bind g y w _ hw =>
      by_cases hg : g < m.store.frames.size
      · rw [Store.frame_bind _ hg] at hv
        split at hv
        · rw [Bindings.get?_insert] at hv
          split at hv
          · exact .inr (Option.some.inj hv ▸ hw)
          · exact .inl hv
        · exact .inl hv
      · rw [Store.bind_of_le (Nat.le_of_not_lt hg)] at hv
        exact .inl hv
  | @enter frame hframe =>
      rw [frame_push] at hv
      split at hv
      · exact .inr (hframe x v hv)
      · exact .inl hv
  | _ => exact .inl hv

/-- A value that a field has was in that field before, or it is known. -/
theorem field_cases (h : m.Update m') {o : ObjectId} {x : String} {v : Value}
    (hv : (m'.object o).fields.get? x = some v) :
    (m.object o).fields.get? x = some v ∨ m.Knows v := by
  cases h with
  | object _ =>
      rw [object_push] at hv
      split at hv
      · cases hv
      · exact .inl hv
  | field hw =>
      rw [object_modify] at hv
      split at hv
      · rw [Bindings.get?_insert] at hv
        split at hv
        · exact .inr (Option.some.inj hv ▸ hw)
        · exact .inl hv
      · exact .inl hv
  | _ => exact .inl hv

/-- An object has been there before, or it is a new one of a class that exists. -/
theorem object_cases (h : m.Update m') {o : ObjectId} (ho : o < m'.objects.size) :
    o < m.objects.size ∨ (m'.object o).classId < m.classes.size := by
  cases h with
  | object hc =>
      rcases Nat.lt_or_eq_of_le (Nat.le_of_lt_succ (by simpa using ho)) with hold | hnew
      · exact .inl hold
      · rw [object_push, if_pos hnew]
        exact .inr hc
  | field _ => exact .inl (by simpa using ho)
  | _ => exact .inl ho

/-- A function has been there before, or it is a new one of the right shape. -/
theorem function_cases (h : m.Update m') {id : FunctionId} (hid : id < m'.functions.size) :
    id < m.functions.size ∨ (m'.function id).decl.Shaped Resolver.Named ∧
      ((m'.function id).isInitializer = true → ∃ o, m.Binds (m'.function id) o) := by
  cases h with
  | function hshaped hinit =>
      rcases Nat.lt_or_eq_of_le (Nat.le_of_lt_succ (by simpa using hid)) with hold | hnew
      · exact .inl hold
      · rw [function_push, if_pos hnew]
        exact .inr ⟨hshaped, hinit⟩
  | _ => exact .inl hid

/-- A class has been there before, or it is a new one below classes that are older. -/
theorem class_cases (h : m.Update m') {c : ClassId} (hc : c < m'.classes.size) :
    c < m.classes.size ∨ ∃ superclass env decls,
      m.Declares (m'.classInfo c) superclass env decls ∧ ∀ d ∈ superclass, d < c := by
  cases h with
  | declare hinfo =>
      rcases Nat.lt_or_eq_of_le (Nat.le_of_lt_succ (by simpa using hc)) with hold | hnew
      · exact .inl hold
      · rw [classInfo_push, if_pos hnew, hnew]
        exact .inr ⟨_, _, _, hinfo, hinfo.older⟩
  | _ => exact .inl hc

end Update

/-! ## Valid machines -/

/-- A machine that holds nothing but what exists, and in which everything has come to be as it
should. -/
structure Valid (m : Machine) : Prop where
  values : ∀ f x v, (m.store.frame f).get? x = some v → m.Knows v
  fields : ∀ o x v, (m.object o).fields.get? x = some v → m.Knows v
  objects : ∀ o, o < m.objects.size → (m.object o).classId < m.classes.size
  functions : ∀ id, id < m.functions.size → (m.function id).decl.Shaped Resolver.Named ∧
    ((m.function id).isInitializer = true → ∃ o, m.Binds (m.function id) o)
  classes : ∀ c, c < m.classes.size → ∃ superclass env decls,
    m.Declares (m.classInfo c) superclass env decls ∧ ∀ d ∈ superclass, d < c

/-- What is there stays as it is, and what a change adds is as it should be. -/
theorem Valid.update {m m' : Machine} (hm : m.Valid) (h : m.Update m') : m'.Valid where
  -- Whatever an update leaves in a frame was there before, or is known to the new machine.
  values f x v hv := by
    apply h.extends.knows
    rcases h.value_cases hv with hold | hnew
    · exact hm.values f x v hold
    · exact hnew
  fields o x v hv := by
    apply h.extends.knows
    rcases h.field_cases hv with hold | hnew
    · exact hm.fields o x v hold
    · exact hnew
  objects o ho := by
    refine Nat.lt_of_lt_of_le ?_ h.extends.size_classes
    rcases h.object_cases ho with hold | hnew
    · rw [h.extends.classId o hold]
      exact hm.objects o hold
    · exact hnew
  functions id hid := by
    -- a function is old, or was made with a name and a receiver that are good
    have hfunction : (m'.function id).decl.Shaped Resolver.Named ∧
        ((m'.function id).isInitializer = true → ∃ o, m.Binds (m'.function id) o) := by
      rcases h.function_cases hid with hold | hnew
      · rw [h.extends.functions id hold]
        exact hm.functions id hold
      · exact hnew
    refine ⟨hfunction.1, fun hinit => ?_⟩
    rcases hfunction.2 hinit with ⟨o, ho⟩
    exact ⟨o, h.extends.binds ho⟩
  classes c hc := by
    -- a class is old, or has just been declared above an older one
    have hclass : ∃ superclass env decls,
        m.Declares (m'.classInfo c) superclass env decls ∧ ∀ d ∈ superclass, d < c := by
      rcases h.class_cases hc with hold | hnew
      · rw [h.extends.classes c hold]
        exact hm.classes c hold
      · exact hnew
    rcases hclass with ⟨superclass, env, decls, hdeclares, holder⟩
    exact ⟨superclass, env, decls, h.extends.declares hdeclares, holder⟩

/-- By induction on the changes: a valid machine stays valid. -/
theorem Valid.evolves {m m' : Machine} (hm : m.Valid) (h : m.Evolves m') : m'.Valid := by
  induction h with
  | refl => exact hm
  | tail _ hupdate ih => exact ih.update hupdate

/-- In the beginning there is the clock, and nothing else. -/
theorem start_valid : start.Valid where
  values f x v hv := by
    unfold Store.frame start at hv
    rw [Array.getD_eq_getD_getElem?] at hv
    cases f with
    | zero =>
        change (Bindings.empty.insert "clock" (.native .clock)).get? x = some v at hv
        rw [Bindings.get?_insert] at hv
        split at hv
        · cases hv
          trivial
        · cases hv
    | succ f => cases hv
  fields o x v hv := by cases hv
  objects o ho := nomatch ho
  functions id hid := nomatch hid
  classes c hc := nomatch hc

end Machine

end LoxLang
