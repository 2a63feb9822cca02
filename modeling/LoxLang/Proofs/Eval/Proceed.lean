import LoxLang.Proofs.Eval.Update

/-!
# Programs proceed by single changes

Whatever is run on a valid machine, the machine evolves, and the outcome names what exists.

* `Proceeds m x Q`: from the machine `m`, the action `x` makes single changes only, and a result of
  it has the property `Q`.
* `Runner.Proceeds` is what is assumed of calls. By induction on the number of nested calls it holds
  of every runner (`runBody_proceeds`).

The names in a program are all that is asked of it: what it declares or assigns to is not `this` or
`super`.
-/

namespace LoxLang

open Exec

def Exec.Proceeds {α : Type} (m : Machine) (x : Exec α) (Q : α → Machine → Prop) : Prop :=
  m.Evolves (final (x m)) ∧ ∀ a m', x m = .ok a m' → Q a m'

/-- A result that names what exists. -/
abbrev Exec.Known (v : Value) (m : Machine) : Prop := m.Knows v

namespace Exec.Proceeds

variable {α β : Type} {m : Machine} {x : Exec α} {f : α → Exec β} {Q Q' : α → Machine → Prop}
  {R : β → Machine → Prop}

theorem evolves (h : Proceeds m x Q) {a : α} {m' : Machine} (hrun : x m = .ok a m') :
    m.Evolves m' := by
  have hfinal := h.1
  rwa [hrun] at hfinal

theorem ok (h : Proceeds m x Q) {a : α} {m' : Machine} (hrun : x m = .ok a m') :
    m.Evolves m' ∧ Q a m' := ⟨h.evolves hrun, h.2 a m' hrun⟩

/-- Two actions one after the other make only single changes if each of them does. -/
theorem bind (hx : Proceeds m x Q)
    (hf : ∀ a m', m.Evolves m' → Q a m' → Proceeds m' (f a) R) : Proceeds m (x >>= f) R := by
  cases hrun : x m with
  | ok a m' =>
      have hrest := hf a m' (hx.evolves hrun) (hx.2 a m' hrun)
      unfold Proceeds
      rw [Halt.bind_ok hrun]
      exact ⟨(hx.evolves hrun).trans hrest.1, hrest.2⟩
  | error reason m' =>
      have hfinal := hx.1
      unfold Proceeds
      rw [Halt.bind_error hrun]
      rw [hrun] at hfinal
      exact ⟨hfinal, fun _ _ h => nomatch h⟩

/-- What is known of a result may be weakened by the changes so far. -/
theorem mono (hx : Proceeds m x Q) (hQ : ∀ a m', m.Evolves m' → Q a m' → Q' a m') :
    Proceeds m x Q' :=
  ⟨hx.1, fun a m' hrun => hQ a m' (hx.evolves hrun) (hx.2 a m' hrun)⟩

/-- An action that looks at the machine first. -/
theorem of_get {f : Machine → Exec β} (h : Proceeds m (f m) R) : Proceeds m (get >>= f) R := h

theorem pure {a : α} (ha : Q a m) : Proceeds m (Pure.pure a) Q := by
  refine ⟨.refl m, ?_⟩
  rintro _ _ ⟨⟩
  exact ha

theorem throw (reason : Halt) : Proceeds m (throw reason : Exec α) Q :=
  ⟨.refl m, fun _ _ h => nomatch h⟩

theorem raise (fault : RuntimeFault) (token : Token) : Proceeds m (Exec.raise fault token) Q :=
  .throw _

theorem orRaise {result : Except RuntimeFault α} (h : ∀ a, result = .ok a → Q a m)
    (token : Token) : Proceeds m (Exec.orRaise token result) Q := by
  cases result with
  | ok a => exact .pure (h a rfl)
  | error fault => exact .raise fault token

theorem orDefect {result : Except Defect α} (h : ∀ a, result = .ok a → Q a m) :
    Proceeds m (Exec.orDefect result) Q := by
  cases result with
  | ok a => exact .pure (h a rfl)
  | error d => exact .throw _

/-- A single change. -/
theorem update {f : Machine → α × Machine} (h : m.Update (f m).2) (hQ : Q (f m).1 (f m).2) :
    Proceeds m (modifyGet f) Q := by
  refine ⟨.of_update h, ?_⟩
  rintro _ _ ⟨⟩
  exact hQ

end Exec.Proceeds

namespace Exec

variable {m : Machine} {ctx : Context} {env : Env}

/-! ## Variables -/

/-- Binding a name to a value that exists is a single change. -/
theorem proceeds_bindIn (f : FrameId) {x : String} (hx : IsName x) {v : Value} (hv : m.Knows v) :
    Proceeds m (bindIn f x v) fun _ _ => True :=
  .update (.bind hx hv) trivial

/-- A scope is opened with a new frame. -/
theorem proceeds_enter (env : Env) {frame : Frame}
    (hframe : ∀ x v, frame.get? x = some v → m.Knows v) :
    Proceeds m (enter env frame) fun inner m' => m'.store.frame inner.frame = frame :=
  .update (.enter hframe) (Store.frame_push_size m.store frame)

theorem proceeds_enter_empty (env : Env) :
    Proceeds m (enter env .empty) fun inner m' => m'.store.frame inner.frame = .empty :=
  proceeds_enter env nofun

/-- What is found under a name exists, as only what exists is ever bound. -/
theorem knows_of_get (hm : m.Valid) {x : String} {v : Value} (h : m.store.get env x = .ok v) :
    m.Knows v := by
  unfold Store.get at h
  split at h
  · rename_i hfind
    cases h
    rcases List.exists_of_findSome?_eq_some hfind with ⟨f, -, hf⟩
    exact hm.values f x v hf
  · cases h

theorem knows_of_getAt (hm : m.Valid) {d : Nat} {x : String} {v : Value}
    (h : m.store.getAt env d x = .ok v) : m.Knows v := by
  cases hancestor : env.ancestor d with
  | error defect =>
      unfold Store.getAt at h
      rw [hancestor] at h
      cases h
  | ok ancestor =>
      rw [Store.getAt_of_ancestor hancestor] at h
      cases hv : (m.store.frame ancestor.frame).get? x with
      | some w =>
          rw [hv] at h
          cases h
          exact hm.values _ x _ hv
      | none =>
          rw [hv] at h
          cases h

theorem proceeds_getAt (hm : m.Valid) (env : Env) (d : Nat) (x : String) :
    Proceeds m (getAt env d x) Known :=
  .of_get (.orDefect fun _ => knows_of_getAt hm)

theorem proceeds_lookUp (hm : m.Valid) (ctx : Context) (env : Env) (id : NodeId) (name : Token) :
    Proceeds m (lookUp ctx env id name) Known := by
  unfold lookUp
  split
  · exact proceeds_getAt hm env _ _
  · exact .of_get (.orRaise (fun _ => knows_of_get hm) name)

theorem proceeds_assign (ctx : Context) (env : Env) (id : NodeId) {name : Token}
    (hname : Resolver.Named name) {v : Value} (hv : m.Knows v) :
    Proceeds m (assign ctx env id name v) fun _ _ => True := by
  have hbind : ∀ (f : FrameId) (m' : Machine), m.Evolves m' →
      Proceeds m' (bindIn f name.lexeme v) fun _ _ => True :=
    fun f _ hm' => proceeds_bindIn f hname (hm'.extends.knows hv)
  unfold assign
  split
  · exact (Proceeds.orDefect (Q := fun _ _ => True) fun _ _ => trivial).bind
      fun ancestor m' hm' _ => hbind ancestor.frame m' hm'
  · exact .of_get ((Proceeds.orRaise (Q := fun _ _ => True) (fun _ _ => trivial) name).bind
      fun f m' hm' _ => hbind f m' hm')

/-! ## Functions and objects -/

/-- A function may be made of a declaration of the right shape; an initializer must be bound to an
object. -/
theorem proceeds_newFunction {f : Closure} (hshaped : f.decl.Shaped Resolver.Named)
    (hinit : f.isInitializer = true → ∃ o, m.Binds f o) :
    Proceeds m (newFunction f) Known := by
  refine .update (.function hshaped hinit) ?_
  change m.functions.size < (m.functions.push f).size
  simp

/-- A method is bound in two changes, a frame that binds `this` and a function. -/
theorem proceeds_bindMethod (method : Closure) {object : ObjectId}
    (hobject : m.Knows (.object object)) :
    Proceeds m (bindMethod method object) fun f m' => f.decl = method.decl ∧ m'.Binds f object := by
  refine (proceeds_enter method.env ?_).bind fun inner m' _ hframe => .pure ⟨rfl, ?_⟩
  · intro x v hv
    rw [Bindings.get?_insert] at hv
    split at hv
    · cases hv
      exact hobject
    · cases hv
  · change (m'.store.frame inner.frame).get? "this" = _
    rw [hframe]
    simp

theorem proceeds_checkArity (paren : Token) (expected got : Nat) :
    Proceeds m (checkArity paren expected got) fun _ m' => got = expected ∧ m' = m := by
  unfold checkArity
  split
  · exact .pure ⟨‹_›, rfl⟩
  · exact .raise _ paren

/-- An object may be made of a class that exists. -/
theorem proceeds_newObject {c : ClassId} (hc : m.Knows (.classRef c)) :
    Proceeds m (newObject c) fun o m' => m'.Knows (.object o) := by
  refine .update (.object hc) ?_
  change m.objects.size < (m.objects.push _).size
  simp

theorem proceeds_setField (o : ObjectId) (x : String) {v : Value} (hv : m.Knows v) :
    Proceeds m (setField o x v) fun _ _ => True :=
  .update (.field hv) trivial

theorem proceeds_print (v : Value) : Proceeds m (print v) fun _ _ => True :=
  .update .output trivial

theorem proceeds_readClock (host : Host) : Proceeds m (readClock host) Known :=
  .update .reading trivial

/-! ## Methods -/

/-- Whatever a class declares has been declared with it. -/
theorem methodTable_shaped {env : Env} {decls : List FunctionDecl}
    (h : FunctionDecl.AllShaped Resolver.Named decls) {name : String} {f : Closure}
    (hf : (methodTable env decls).get? name = some f) :
    f.decl.Shaped Resolver.Named ∧ f.env = env ∧ f.isInitializer = (name == "init") := by
  rw [methodTable_get?] at hf
  rcases Option.map_eq_some_iff.1 hf with ⟨decl, hdecl, rfl⟩
  exact ⟨h.mem decl (List.mem_reverse.1 (List.mem_of_find?_eq_some hdecl)), rfl, rfl⟩

/-- A method that is found has been declared by a class that exists. -/
theorem findMethod?_declared {c : ClassId} {name : String} {f : Closure}
    (h : m.findMethod? c name = some f) :
    ∃ d ∈ m.lineage c, d < m.classes.size ∧ (m.classInfo d).methods.get? name = some f := by
  rcases List.exists_of_findSome?_eq_some h with ⟨d, hd, hf⟩
  refine ⟨d, hd, Nat.lt_of_not_le fun hle => ?_, hf⟩
  rw [Machine.classInfo_of_le hle] at hf
  cases hf

/-- A method that is found has the shape of its declaration, and is an initializer if it is called
`init`. -/
theorem findMethod?_shaped (hm : m.Valid) {c : ClassId} {name : String} {f : Closure}
    (h : m.findMethod? c name = some f) :
    f.decl.Shaped Resolver.Named ∧ f.isInitializer = (name == "init") := by
  rcases findMethod?_declared h with ⟨d, -, hd, hf⟩
  rcases hm.classes d hd with ⟨_, _, _, hdeclares, -⟩
  rw [hdeclares.methods] at hf
  exact (methodTable_shaped hdeclares.shaped hf).imp_right And.right

theorem proceeds_methodOf (hm : m.Valid) (c : ClassId) {object : ObjectId}
    (hobject : m.Knows (.object object)) (name : Token) :
    Proceeds m (methodOf c object name) Known := by
  refine .of_get ?_
  cases hfind : m.findMethod? c name.lexeme with
  | none => exact .raise _ name
  | some method =>
      refine (proceeds_bindMethod method hobject).bind fun f m' _ ⟨hdecl, hbinds⟩ => ?_
      refine proceeds_newFunction ?_ fun _ => ⟨object, hbinds⟩
      rw [hdecl]
      exact (findMethod?_shaped hm hfind).1

theorem proceeds_getProperty (hm : m.Valid) {v : Value} (hv : m.Knows v) (name : Token) :
    Proceeds m (getProperty v name) Known := by
  cases v with
  | object o =>
      refine .of_get ?_
      dsimp only
      cases hfield : (m.object o).fields.get? name.lexeme with
      | some field => exact .pure (hm.fields o _ field hfield)
      | none => exact proceeds_methodOf hm _ hv name
  | _ => exact .raise _ name

/-- The class is read where `super` is bound, and the object in the scope just inside. -/
theorem proceeds_superMethod (hm : m.Valid) (ctx : Context) (env : Env) (id : NodeId)
    (method : Token) : Proceeds m (superMethod ctx env id method) Known := by
  unfold superMethod
  split
  · exact .throw _
  · refine (proceeds_getAt hm env _ _).bind fun superclass m₁ h₁ _ => ?_
    refine (proceeds_getAt (hm.evolves h₁) env _ _).bind fun this m₂ h₂ hthis => ?_
    split
    · exact proceeds_methodOf (hm.evolves (h₁.trans h₂)) _ hthis method
    · exact .throw _
    · exact .throw _

/-! ## Classes -/

theorem proceeds_superclassOf (hm : m.Valid) (ctx : Context) (env : Env)
    (superclass : Option Reference) :
    Proceeds m (superclassOf ctx env superclass) fun c m' => ∀ d ∈ c, m'.Knows (.classRef d) := by
  cases superclass with
  | none => exact .pure nofun
  | some ref =>
      refine (proceeds_lookUp hm ctx env ref.id ref.name).bind fun v m' _ hv => ?_
      cases v with
      | classRef c =>
          refine .pure ?_
          rintro _ ⟨⟩
          exact hv
      | _ => exact .raise _ ref.name

/-- The frame that binds `super` is the only change, if there is one at all. -/
theorem proceeds_methodEnv (env : Env) {superclass : Option ClassId}
    (h : ∀ c ∈ superclass, m.Knows (.classRef c)) :
    Proceeds m (methodEnv env superclass) fun inner m' => ∀ c ∈ superclass,
      (m'.store.frame inner.frame).get? "super" = some (.classRef c) := by
  cases superclass with
  | none => exact .pure nofun
  | some c =>
      refine (proceeds_enter env ?_).mono fun inner m' _ hframe => ?_
      · intro x v hv
        rw [Bindings.get?_insert] at hv
        split at hv
        · cases hv
          exact h c rfl
        · cases hv
      · rintro _ ⟨⟩
        rw [hframe]
        simp

/-- A class may be made whose superclass exists, and whose methods are those of its declaration. -/
theorem proceeds_newClass (name : String) {superclass : Option ClassId} {env : Env}
    {decls : List FunctionDecl} (hshaped : FunctionDecl.AllShaped Resolver.Named decls)
    (holder : ∀ c ∈ superclass, m.Knows (.classRef c))
    (hsuper : ∀ c ∈ superclass, (m.store.frame env.frame).get? "super" = some (.classRef c)) :
    Proceeds m (newClass name superclass (methodTable env decls)) Known := by
  have hdeclares : m.Declares
      ⟨name, superclass.elim [] m.lineage, methodTable env decls⟩ superclass env decls :=
    ⟨rfl, rfl, hshaped, holder, hsuper⟩
  refine .update ?_ ?_
  · cases superclass with
    | none => exact .declare hdeclares
    | some c => exact .declare hdeclares
  · change m.classes.size < (m.classes.push _).size
    simp

theorem proceeds_assignClass (env : Env) {name : Token} (hname : Resolver.Named name) {v : Value}
    (hv : m.Knows v) : Proceeds m (assignClass env name v) fun _ _ => True := by
  refine .of_get ?_
  split
  · exact proceeds_bindIn _ hname hv
  · exact .raise _ name

/-- What a class declaration does once the superclass is known. -/
theorem proceeds_declareBelow (env : Env) {name : Token} (hname : Resolver.Named name)
    {superclass : Option ClassId} (hsuperclass : ∀ c ∈ superclass, m.Knows (.classRef c))
    {decls : List FunctionDecl} (hdecls : FunctionDecl.AllShaped Resolver.Named decls) :
    Proceeds m (do
      define env name.lexeme .nil
      let inner ← methodEnv env superclass
      let v ← newClass name.lexeme superclass (methodTable inner decls)
      assignClass env name v) fun _ _ => True := by
  refine (proceeds_bindIn env.frame hname (v := .nil) trivial).bind fun _ m₁ h₁ _ => ?_
  have hknown₁ : ∀ c ∈ superclass, m₁.Knows (.classRef c) :=
    fun c hc => h₁.extends.knows (hsuperclass c hc)
  refine (proceeds_methodEnv env hknown₁).bind fun inner m₂ h₂ hsuper => ?_
  have hknown₂ : ∀ c ∈ superclass, m₂.Knows (.classRef c) :=
    fun c hc => h₂.extends.knows (hknown₁ c hc)
  refine (proceeds_newClass name.lexeme hdecls hknown₂ hsuper).bind fun v m₃ _ hv => ?_
  exact proceeds_assignClass env hname hv

/-- A class declaration is a sequence of such changes. -/
theorem proceeds_declareClass (hm : m.Valid) (ctx : Context) (env : Env) {name : Token}
    (hname : Resolver.Named name) (superclass : Option Reference) {decls : List FunctionDecl}
    (hdecls : FunctionDecl.AllShaped Resolver.Named decls) :
    Proceeds m (declareClass ctx env name superclass decls) fun _ _ => True := by
  refine (proceeds_superclassOf hm ctx env superclass).bind fun c m₁ _ hc => ?_
  exact proceeds_declareBelow env hname hc hdecls

/-! ## Parameters and loops -/

/-- The frame of a call binds nothing but the arguments. -/
theorem bindParameters_values {P : Value → Prop} {params : List Token} {arguments : List Value}
    {frame frame' : Frame} (hrun : bindParameters frame params arguments = .ok frame')
    (harguments : ∀ v ∈ arguments, P v) (hframe : ∀ x v, frame.get? x = some v → P v) :
    ∀ x v, frame'.get? x = some v → P v := by
  induction params generalizing arguments frame with
  | nil =>
      cases hrun
      exact hframe
  | cons param params ih =>
      cases arguments with
      | nil => cases hrun
      | cons a arguments =>
          refine ih hrun (fun v hv => harguments v (List.mem_cons_of_mem _ hv)) fun x v hv => ?_
          rw [Bindings.get?_insert] at hv
          split at hv
          · exact Option.some.inj hv ▸ harguments a List.mem_cons_self
          · exact hframe x v hv

/-- How a statement ends names what exists. -/
def KnownFlow (flow : Flow) (m : Machine) : Prop := m.Knows flow.value

/-- What a loop does once the condition has been evaluated. -/
theorem proceeds_turn {body rest : Exec Flow}
    (hbody : ∀ {m : Machine}, m.Valid → Proceeds m body KnownFlow)
    (hrest : ∀ {m : Machine}, m.Valid → Proceeds m rest KnownFlow) (hm : m.Valid) (holds : Bool) :
    Proceeds m (if holds then do
        match ← body with
        | .next => rest
        | .returned v => return .returned v
      else return .next) KnownFlow := by
  cases holds with
  | false => exact .pure trivial
  | true =>
      refine (hbody hm).bind fun flow m' h hflow => ?_
      cases flow with
      | next => exact hrest (hm.evolves h)
      | returned v => exact .pure hflow

/-- By induction on the turns; the machine is valid again in front of each of them. -/
theorem proceeds_loop {condition : Exec Bool} {body : Exec Flow}
    (hcondition : ∀ {m : Machine}, m.Valid → Proceeds m condition fun _ _ => True)
    (hbody : ∀ {m : Machine}, m.Valid → Proceeds m body KnownFlow) (turns : Nat) (hm : m.Valid) :
    Proceeds m (loop condition body turns) KnownFlow := by
  induction turns generalizing m with
  | zero => exact .throw _
  | succ turns ih =>
      exact (hcondition hm).bind fun holds _ h _ => proceeds_turn hbody ih (hm.evolves h) holds

end Exec

/-! ## Calls -/

/-- Calls of functions proceed, if the names in their bodies are such as can be declared. -/
def Runner.Proceeds (run : Runner) : Prop :=
  ∀ (m : Machine) (paren : Token) (f : Closure) (arguments : List Value), m.Valid →
    f.decl.Shaped Resolver.Named → (∀ v ∈ arguments, m.Knows v) →
    Exec.Proceeds m (run paren f arguments) Known

variable {ctx : Context} {run : Runner} {env : Env} {m : Machine}

/-- An object is made first, and then its initializer is run on it. -/
theorem proceeds_construct (hrun : run.Proceeds) (hm : m.Valid) (paren : Token) {c : ClassId}
    (hc : m.Knows (.classRef c)) {initializer : Option Closure}
    (hinit : ∀ f ∈ initializer, f.decl.Shaped Resolver.Named) {arguments : List Value}
    (harguments : ∀ v ∈ arguments, m.Knows v) :
    Proceeds m (construct run paren c initializer arguments) Known := by
  refine (proceeds_newObject hc).bind fun object m₁ h₁ hobject => ?_
  cases initializer with
  | none => exact .pure hobject
  | some method =>
      refine (proceeds_bindMethod method hobject).bind fun f m₂ h₂ ⟨hdecl, _⟩ => ?_
      have h := h₁.trans h₂
      refine (hrun m₂ paren f arguments (hm.evolves h) (hdecl ▸ hinit method rfl) fun v hv =>
        h.extends.knows (harguments v hv)).bind fun _ m₃ h₃ _ => ?_
      exact .pure ((h₂.trans h₃).extends.knows hobject)

theorem proceeds_call (ctx : Context) (hrun : run.Proceeds) (hm : m.Valid) (paren : Token)
    {callee : Value} (hcallee : m.Knows callee) {arguments : List Value}
    (harguments : ∀ v ∈ arguments, m.Knows v) :
    Proceeds m (call ctx run paren callee arguments) Known := by
  cases callee with
  | native f =>
      cases f
      exact (proceeds_checkArity paren 0 _).bind fun _ _ _ _ => proceeds_readClock ctx.host
  | function id =>
      refine (proceeds_checkArity paren (m.function id).arity _).bind ?_
      rintro _ _ _ ⟨-, rfl⟩
      exact hrun _ paren _ arguments hm (hm.functions id hcallee).1 harguments
  | classRef c =>
      refine (proceeds_checkArity paren ((m.initializer? c).elim 0 Closure.arity) _).bind ?_
      rintro _ _ _ ⟨-, rfl⟩
      exact proceeds_construct hrun hm paren hcallee
        (fun f hf => (findMethod?_shaped hm hf).1) harguments
  | _ => exact .raise _ paren

/-! ## Operators -/

theorem Value.knows_of_unary {operator : Kind} {v w : Value} (h : Value.unary operator v = .ok w) :
    m.Knows w := by
  unfold Value.unary at h
  split at h
  · split at h <;> cases h
    trivial
  · cases h
    trivial
  · cases h

theorem Value.knows_of_binary {operator : Kind} {l r w : Value}
    (h : Value.binary operator l r = .ok w) : m.Knows w := by
  unfold Value.binary at h
  split at h
  · cases h
    trivial
  · cases h
    trivial
  · unfold Value.add at h
    split at h <;> cases h <;> trivial
  · split at h
    · unfold Value.arithmetic at h
      split at h <;> cases h <;> trivial
    · cases h

/-! ## Expressions -/

mutual

/-- However an expression ends, it has made single changes only, and its value exists. -/
theorem proceeds_eval (ctx : Context) (hrun : run.Proceeds) (env : Env) :
    ∀ (e : Expr) {m : Machine}, m.Valid → e.Shaped Resolver.Named →
    Proceeds m (eval ctx run env e) Known
  -- Each step evolves the machine, and what was known before stays known behind it.
  | .assign id name value, m, hm, ⟨hname, hvalue⟩ => by
      refine (proceeds_eval ctx hrun env value hm hvalue).bind fun v m₁ _ hv => ?_
      refine (proceeds_assign ctx env id hname hv).bind fun _ m₂ h₂ _ => ?_
      exact .pure (h₂.extends.knows hv)
  | .binary _ left operator right, m, hm, ⟨hleft, hright⟩ => by
      refine (proceeds_eval ctx hrun env left hm hleft).bind fun l m₁ h₁ _ => ?_
      refine (proceeds_eval ctx hrun env right (hm.evolves h₁) hright).bind fun r m₂ _ _ => ?_
      exact .orRaise (fun _ => Value.knows_of_binary) operator
  | .call _ callee paren arguments, m, hm, ⟨hcallee, harguments⟩ => by
      refine (proceeds_eval ctx hrun env callee hm hcallee).bind fun f m₁ h₁ hf => ?_
      have hm₁ := hm.evolves h₁
      refine (proceeds_evalAll ctx hrun env arguments hm₁ harguments).bind fun vs m₂ h₂ hvs => ?_
      exact proceeds_call ctx hrun (hm₁.evolves h₂) paren (h₂.extends.knows hf) hvs
  | .get _ object name, m, hm, h => by
      refine (proceeds_eval ctx hrun env object hm h).bind fun o m₁ h₁ ho => ?_
      exact proceeds_getProperty (hm.evolves h₁) ho name
  | .grouping _ inner, _, hm, h => proceeds_eval ctx hrun env inner hm h
  | .literal _ value, _, _, _ => .pure (by cases value <;> trivial)
  | .logical _ left operator right, m, hm, ⟨hleft, hright⟩ => by
      refine (proceeds_eval ctx hrun env left hm hleft).bind fun l m₁ h₁ hl => ?_
      split
      · exact .pure hl
      · exact proceeds_eval ctx hrun env right (hm.evolves h₁) hright
  | .set _ object name value, m, hm, ⟨hobject, hvalue⟩ => by
      refine (proceeds_eval ctx hrun env object hm hobject).bind fun o m₁ h₁ _ => ?_
      cases o with
      | object id =>
          refine (proceeds_eval ctx hrun env value (hm.evolves h₁) hvalue).bind fun v m₂ _ hv => ?_
          refine (proceeds_setField id name.lexeme hv).bind fun _ m₃ h₃ _ => ?_
          exact .pure (h₃.extends.knows hv)
      -- Only an object can be set a field of; the value is not evaluated then.
      | _ => exact (Proceeds.raise (Q := fun _ _ => False) _ name).bind fun _ _ _ h => h.elim
  | .super id _ method, _, hm, _ => proceeds_superMethod hm ctx env id method
  | .this id keyword, _, hm, _ => proceeds_lookUp hm ctx env id keyword
  | .unary _ operator right, m, hm, h => by
      refine (proceeds_eval ctx hrun env right hm h).bind fun v m₁ _ _ => ?_
      exact .orRaise (fun _ => Value.knows_of_unary) operator
  | .variable ref, _, hm, _ => proceeds_lookUp hm ctx env ref.id ref.name

theorem proceeds_evalAll (ctx : Context) (hrun : run.Proceeds) (env : Env) :
    ∀ (es : List Expr) {m : Machine}, m.Valid → Expr.AllShaped Resolver.Named es →
    Proceeds m (evalAll ctx run env es) fun vs m' => ∀ v ∈ vs, m'.Knows v
  | [], _, _, _ => .pure nofun
  | e :: es, m, hm, ⟨he, hes⟩ => by
      refine (proceeds_eval ctx hrun env e hm he).bind fun v m₁ h₁ hv => ?_
      refine (proceeds_evalAll ctx hrun env es (hm.evolves h₁) hes).bind fun vs m₂ h₂ hvs => ?_
      refine .pure fun w hw => ?_
      rcases List.mem_cons.1 hw with rfl | hw
      · exact h₂.extends.knows hv
      · exact hvs w hw

end

theorem proceeds_evalCondition (ctx : Context) (hrun : run.Proceeds) (env : Env) (hm : m.Valid)
    {e : Expr} (he : e.Shaped Resolver.Named) :
    Proceeds m (evalCondition ctx run env e) fun _ _ => True :=
  (proceeds_eval ctx hrun env e hm he).bind fun _ _ _ _ => .pure trivial

/-! ## Statements -/

mutual

/-- The same of statements, by induction on the statement. -/
theorem proceeds_exec (ctx : Context) (hrun : run.Proceeds) :
    ∀ (st : Stmt) {env : Env} {m : Machine}, m.Valid → st.Shaped Resolver.Named →
    Proceeds m (exec ctx run env st) KnownFlow
  -- A new frame is one change, and so is each name that is bound in it.
  | .block body, env, m, hm, h => by
      refine (proceeds_enter_empty env).bind fun inner m₁ h₁ _ => ?_
      exact proceeds_execAll ctx hrun body (hm.evolves h₁) h
  | .classDecl name superclass methods, env, m, hm, ⟨hname, _, hmethods⟩ => by
      refine (proceeds_declareClass hm ctx env hname superclass hmethods).bind fun _ m₁ _ _ => ?_
      exact .pure trivial
  | .expression e, env, m, hm, h => by
      refine (proceeds_eval ctx hrun env e hm h).bind fun _ m₁ _ _ => ?_
      exact .pure trivial
  | .function decl, env, m, hm, h => by
      refine (proceeds_newFunction (f := ⟨decl, env, false⟩) h nofun).bind fun f m₁ _ hf => ?_
      refine (proceeds_bindIn env.frame h.name hf).bind fun _ m₂ _ _ => ?_
      exact .pure trivial
  | .ifElse condition thenBranch none, env, m, hm, ⟨hcondition, _, hthen⟩ => by
      refine (proceeds_evalCondition ctx hrun env hm hcondition).bind fun b m₁ h₁ _ => ?_
      cases b with
      | true => exact proceeds_exec ctx hrun thenBranch (hm.evolves h₁) hthen
      | false => exact .pure trivial
  | .ifElse condition thenBranch (some elseBranch), env, m, hm,
      ⟨hcondition, ⟨_, hthen⟩, _, helse⟩ => by
      refine (proceeds_evalCondition ctx hrun env hm hcondition).bind fun b m₁ h₁ _ => ?_
      cases b with
      | true => exact proceeds_exec ctx hrun thenBranch (hm.evolves h₁) hthen
      | false => exact proceeds_exec ctx hrun elseBranch (hm.evolves h₁) helse
  | .print e, env, m, hm, h => by
      refine (proceeds_eval ctx hrun env e hm h).bind fun v m₁ _ _ => ?_
      refine (proceeds_print v).bind fun _ m₂ _ _ => ?_
      exact .pure trivial
  | .returnValue _ none, _, _, _, _ => .pure trivial
  | .returnValue _ (some e), env, m, hm, h => by
      refine (proceeds_eval ctx hrun env e hm (h e rfl)).bind fun v m₁ _ hv => ?_
      exact .pure hv
  | .varDecl name none, env, m, hm, ⟨hname, _⟩ => by
      have hbind := proceeds_bindIn (m := m) env.frame hname (v := .nil) trivial
      exact hbind.bind fun _ _ _ _ => .pure trivial
  | .varDecl name (some e), env, m, hm, ⟨hname, hvalue⟩ => by
      refine (proceeds_eval ctx hrun env e hm (hvalue e rfl)).bind fun v m₁ _ hv => ?_
      refine (proceeds_bindIn env.frame hname hv).bind fun _ m₂ _ _ => ?_
      exact .pure trivial
  -- Any number of turns is a run of changes if one turn is.
  | .whileLoop condition body, env, m, hm, ⟨hcondition, _, hbody⟩ => by
      apply proceeds_loop
      · exact fun hm => proceeds_evalCondition ctx hrun env hm hcondition
      · exact fun hm => proceeds_exec ctx hrun body hm hbody
      · exact hm

theorem proceeds_execAll (ctx : Context) (hrun : run.Proceeds) :
    ∀ (ss : List Stmt) {env : Env} {m : Machine}, m.Valid → Stmt.AllShaped Resolver.Named ss →
    Proceeds m (execAll ctx run env ss) KnownFlow
  | [], _, _, _, _ => .pure trivial
  | st :: ss, env, m, hm, h => by
      refine (proceeds_exec ctx hrun st hm h.1).bind fun flow m₁ h₁ hflow => ?_
      cases flow with
      | next => exact proceeds_execAll ctx hrun ss (hm.evolves h₁) h.2
      | returned v => exact .pure hflow

end

/-! ## Function bodies and programs -/

theorem proceeds_callResult (hm : m.Valid) (f : Closure) {flow : Flow} (hflow : KnownFlow flow m) :
    Proceeds m (callResult f flow) Known := by
  unfold callResult
  split
  · exact proceeds_getAt hm f.env 0 "this"
  · exact .pure hflow

/-- However many calls may be nested, calls proceed. -/
theorem runBody_proceeds (ctx : Context) (n : Nat) : Runner.Proceeds (runBody ctx n) := by
  induction n with
  | zero => exact fun _ paren _ _ _ _ _ => .raise .stackOverflow paren
  | succ n ih =>
      intro m paren f arguments hm hf harguments
      refine (Proceeds.orDefect (Q := fun frame m => ∀ x v, frame.get? x = some v → m.Knows v)
        fun frame hframe => ?_).bind fun frame m₁ h₁ hknown => ?_
      · exact bindParameters_values hframe harguments nofun
      · refine (proceeds_enter f.env hknown).bind fun inner m₂ h₂ _ => ?_
        have hm₂ := hm.evolves (h₁.trans h₂)
        refine (proceeds_execAll ctx ih f.decl.body hm₂ hf.body).bind fun flow m₃ h₃ hflow => ?_
        exact proceeds_callResult (hm₂.evolves h₃) f hflow

/-- The same of a program. -/
theorem proceeds_execTopLevel (ctx : Context) : ∀ (ss : List Stmt) {m : Machine}, m.Valid →
    Stmt.AllShaped Resolver.Named ss → Proceeds m (execTopLevel ctx ss) fun _ _ => True
  | [], _, _, _ => .pure trivial
  | st :: ss, _, hm, ⟨hst, hss⟩ => by
      have hcalls := runBody_proceeds ctx ctx.host.maxCalls
      refine (proceeds_exec ctx hcalls st hm hst).bind fun flow m₁ h₁ _ => ?_
      exact proceeds_execTopLevel ctx ss (hm.evolves h₁) hss

/-- Running statements on a valid machine makes single changes only, however the run ends. -/
theorem Machine.Valid.execute (hm : m.Valid) (ctx : Context) {ss : List Stmt}
    (hss : Stmt.AllShaped Resolver.Named ss) : m.Evolves (m.execute ctx ss).2 := by
  have hproceeds := (proceeds_execTopLevel ctx ss hm hss).1
  unfold Machine.execute
  cases hrun : execTopLevel ctx ss m with
  | ok _ m' => rwa [hrun] at hproceeds
  | error _ m' => rwa [hrun] at hproceeds

end LoxLang
