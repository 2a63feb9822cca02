import LoxLang.Proofs.Eval.Heap

/-!
# Runs that go further

Nothing that has been printed is taken back, and no name that is bound in a frame is unbound.

* `Machine.Grows`: what one machine has printed and bound, the other one has, too.
* `Outlasts x x'`: the action `x'` does what `x` does, except that it may go on where `x` stops
  with a stack overflow. Either way, it leaves a machine that has grown.
* `Outlasts.bind` is for actions in sequence. An action that outlasts itself only ever makes a
  machine grow, and this holds of every single step.
-/

namespace LoxLang

open Exec

/-! ## Machines that grow -/

structure Machine.Grows (m m' : Machine) : Prop where
  output : m.output.toList <+: m'.output.toList
  names : ∀ f x, (m.store.frame f).contains x = true → (m'.store.frame f).contains x = true

namespace Machine.Grows

variable {m m' m'' : Machine}

theorem refl (m : Machine) : m.Grows m := ⟨List.prefix_rfl, fun _ _ h => h⟩

theorem trans (h : m.Grows m') (h' : m'.Grows m'') : m.Grows m'' :=
  ⟨h.output.trans h'.output, fun f x hx => h'.names f x (h.names f x hx)⟩

/-- Binding a name unbinds no other. -/
theorem bind (m : Machine) (id : FrameId) (name : String) (v : Value) :
    m.Grows { m with store := m.store.bind id name v } := by
  refine ⟨List.prefix_rfl, ?_⟩
  intro f x hx
  change ((m.store.bind id name v).frame f).contains x = true
  by_cases hid : id < m.store.frames.size
  · rw [Store.frame_bind m.store hid]
    split
    · simp [Bindings.contains_insert, hx]
    · exact hx
  · rwa [Store.bind_of_le (Nat.le_of_not_lt hid)]

/-- A new frame takes no name away from the frames that are there. -/
theorem push (m : Machine) (frame : Frame) :
    m.Grows { m with store := ⟨m.store.frames.push frame⟩ } := by
  refine ⟨List.prefix_rfl, ?_⟩
  intro f x hx
  change (Store.frame ⟨m.store.frames.push frame⟩ f).contains x = true
  by_cases hf : f < m.store.frames.size
  · rwa [Store.frame_push m.store frame hf]
  · rw [Store.frame_of_le (Nat.le_of_not_lt hf)] at hx
    cases hx

theorem print (m : Machine) (line : String) : m.Grows { m with output := m.output.push line } := by
  refine ⟨?_, fun _ _ h => h⟩
  rw [Array.toList_push]
  exact List.prefix_append _ _

theorem read (m : Machine) : m.Grows { m with readings := m.readings + 1 } :=
  ⟨List.prefix_rfl, fun _ _ h => h⟩

end Machine.Grows

/-! ## Actions that go further -/

/-- The machine that an action leaves behind, however it ends. -/
def Exec.final {α : Type} : EStateM.Result Halt Machine α → Machine
  | .ok _ m => m
  | .error _ m => m

/-- Two results on a machine: they are the same, or the first one is a stack overflow on the way to
the second one. -/
inductive Outlasts.Results {α : Type} (m : Machine) :
    EStateM.Result Halt Machine α → EStateM.Result Halt Machine α → Prop where
  | same {r : EStateM.Result Halt Machine α} : m.Grows (final r) → Results m r r
  | overflow {paren : Token} {m₁ : Machine} {r : EStateM.Result Halt Machine α} :
      m.Grows m₁ → m₁.Grows (final r) → Results m (.error (.error ⟨.stackOverflow, paren⟩) m₁) r

def Outlasts {α : Type} (x x' : Exec α) : Prop := ∀ m, Outlasts.Results m (x m) (x' m)

namespace Outlasts

variable {α β : Type} {x x' : Exec α}

/-- Whichever way two runs compare, the second one has grown. -/
theorem Results.grows {m : Machine} {r r' : EStateM.Result Halt Machine α} (h : Results m r r') :
    m.Grows (final r') := by
  cases h with
  | same hgrows => exact hgrows
  | overflow hgrows hgrows' => exact hgrows.trans hgrows'

/-- What two runs have done before they are compared may be counted in. -/
theorem Results.before {m m' : Machine} {r r' : EStateM.Result Halt Machine α} (hm : m.Grows m')
    (h : Results m' r r') : Results m r r' := by
  cases h with
  | same hgrows => exact .same (hm.trans hgrows)
  | overflow hgrows hgrows' => exact .overflow (hm.trans hgrows) hgrows'

theorem grows (h : Outlasts x x') (m : Machine) : m.Grows (final (x' m)) := (h m).grows

theorem grows_of_ok (h : Outlasts x x') {a : α} {m m' : Machine} (hrun : x' m = .ok a m') :
    m.Grows m' := by
  have hgrows := h.grows m
  rwa [hrun] at hgrows

/-- The first action may have overflowed on the smaller side; then the second one is not even tried
there. -/
theorem bind {f f' : α → Exec β} (hx : Outlasts x x') (hf : ∀ a, Outlasts (f a) (f' a)) :
    Outlasts (x >>= f) (x' >>= f') := by
  intro m
  have hstep := hx m
  generalize hr : x m = r at hstep
  generalize hr' : x' m = r' at hstep
  cases hstep with
  | same hm =>
      cases r with
      | ok a m₁ =>
          rw [Halt.bind_ok hr, Halt.bind_ok hr']
          exact (hf a m₁).before hm
      | error reason m₁ =>
          rw [Halt.bind_error hr, Halt.bind_error hr']
          exact .same hm
  | overflow hm hm₁ =>
      -- The first run has stopped, and the second one goes on with what comes next.
      rw [Halt.bind_error hr]
      refine .overflow hm ?_
      cases r' with
      | ok a m₂ =>
          rw [Halt.bind_ok hr']
          exact hm₁.trans (hf a m₂).grows
      | error reason m₂ =>
          rw [Halt.bind_error hr']
          exact hm₁

theorem pure (a : α) : Outlasts (Pure.pure a) (Pure.pure a) := fun m => .same (.refl m)

theorem throw (reason : Halt) :
    Outlasts (throw reason : Exec α) (throw reason) := fun m => .same (.refl m)

theorem raise (fault : RuntimeFault) (token : Token) :
    Outlasts (raise fault token : Exec α) (raise fault token) := .throw _

theorem orRaise (token : Token) (r : Except RuntimeFault α) :
    Outlasts (orRaise token r) (orRaise token r) := by
  cases r with
  | ok a => exact .pure a
  | error fault => exact .raise fault token

theorem orDefect (r : Except Defect α) : Outlasts (orDefect r) (orDefect r) := by
  cases r with
  | ok a => exact .pure a
  | error d => exact .throw _

/-- An action that looks at the machine first. -/
theorem get_bind {f f' : Machine → Exec α} (h : ∀ m, Outlasts (f m) (f' m)) :
    Outlasts (get >>= f) (get >>= f') := fun m => h m m

end Outlasts

/-! ## Variables -/

theorem outlasts_bindIn (id : FrameId) (name : String) (v : Value) :
    Outlasts (bindIn id name v) (bindIn id name v) := fun m => .same (.bind m id name v)

theorem outlasts_enter (env : Env) (frame : Frame) : Outlasts (enter env frame) (enter env frame) :=
  fun m => .same (.push m frame)

theorem outlasts_getAt (env : Env) (distance : Nat) (name : String) :
    Outlasts (getAt env distance name) (getAt env distance name) := .get_bind fun _ => .orDefect _

/-- Looking up a name makes no calls. -/
theorem outlasts_lookUp (ctx : Context) (env : Env) (id : NodeId) (name : Token) :
    Outlasts (lookUp ctx env id name) (lookUp ctx env id name) := by
  unfold lookUp
  split
  · exact outlasts_getAt env _ _
  · exact .get_bind fun _ => .orRaise name _

theorem outlasts_assign (ctx : Context) (env : Env) (id : NodeId) (name : Token) (v : Value) :
    Outlasts (assign ctx env id name v) (assign ctx env id name v) := by
  unfold assign
  split
  · exact (Outlasts.orDefect _).bind fun ancestor => outlasts_bindIn ancestor.frame _ v
  · exact .get_bind fun _ => (Outlasts.orRaise name _).bind fun id => outlasts_bindIn id _ v

/-! ## Functions, objects and classes -/

theorem outlasts_newFunction (f : Closure) : Outlasts (newFunction f) (newFunction f) :=
  fun _ => .same ⟨List.prefix_rfl, fun _ _ h => h⟩

theorem outlasts_bindMethod (method : Closure) (this : ObjectId) :
    Outlasts (bindMethod method this) (bindMethod method this) :=
  (outlasts_enter _ _).bind fun _ => .pure _

theorem outlasts_checkArity (paren : Token) (expected got : Nat) :
    Outlasts (checkArity paren expected got) (checkArity paren expected got) := by
  unfold checkArity
  split
  · exact .pure ()
  · exact .raise _ _

theorem outlasts_newObject (classId : ClassId) : Outlasts (newObject classId) (newObject classId) :=
  fun _ => .same ⟨List.prefix_rfl, fun _ _ h => h⟩

theorem outlasts_newClass (name : String) (superclass : Option ClassId)
    (methods : Bindings Closure) :
    Outlasts (newClass name superclass methods) (newClass name superclass methods) :=
  fun _ => .same ⟨List.prefix_rfl, fun _ _ h => h⟩

theorem outlasts_methodOf (classId : ClassId) (this : ObjectId) (name : Token) :
    Outlasts (methodOf classId this name) (methodOf classId this name) := by
  refine .get_bind fun m => ?_
  cases m.findMethod? classId name.lexeme with
  | none => exact .raise _ name
  | some method => exact (outlasts_bindMethod method this).bind outlasts_newFunction

theorem outlasts_getProperty (v : Value) (name : Token) :
    Outlasts (getProperty v name) (getProperty v name) := by
  cases v with
  | object id =>
      refine .get_bind fun m => ?_
      dsimp only
      split
      · exact .pure _
      · exact outlasts_methodOf _ id name
  | _ => exact .raise _ name

theorem outlasts_asObject (v : Value) (name : Token) :
    Outlasts (asObject v name) (asObject v name) := by
  cases v with
  | object id => exact .pure id
  | _ => exact .raise _ name

theorem outlasts_setField (id : ObjectId) (name : String) (v : Value) :
    Outlasts (setField id name v) (setField id name v) :=
  fun _ => .same ⟨List.prefix_rfl, fun _ _ h => h⟩

theorem outlasts_superMethod (ctx : Context) (env : Env) (id : NodeId) (method : Token) :
    Outlasts (superMethod ctx env id method) (superMethod ctx env id method) := by
  unfold superMethod
  split
  · exact .throw _
  · refine (outlasts_getAt env _ _).bind fun superclass => ?_
    refine (outlasts_getAt env _ _).bind fun this => ?_
    split
    · exact outlasts_methodOf _ _ method
    · exact .throw _
    · exact .throw _

theorem outlasts_superclassOf (ctx : Context) (env : Env) (superclass : Option Reference) :
    Outlasts (superclassOf ctx env superclass) (superclassOf ctx env superclass) := by
  cases superclass with
  | none => exact .pure none
  | some ref =>
      refine (outlasts_lookUp ctx env ref.id ref.name).bind fun v => ?_
      cases v with
      | classRef id => exact .pure _
      | _ => exact .raise _ ref.name

theorem outlasts_methodEnv (env : Env) (superclass : Option ClassId) :
    Outlasts (methodEnv env superclass) (methodEnv env superclass) := by
  cases superclass with
  | none => exact .pure env
  | some id => exact outlasts_enter env _

theorem outlasts_assignClass (env : Env) (name : Token) (v : Value) :
    Outlasts (assignClass env name v) (assignClass env name v) := by
  refine .get_bind fun m => ?_
  split
  · exact outlasts_bindIn _ _ v
  · exact .raise _ name

/-- Declaring a class makes no calls, so that the room for them makes no difference. -/
theorem outlasts_declareClass (ctx : Context) (env : Env) (name : Token)
    (superclass : Option Reference) (methods : List FunctionDecl) :
    Outlasts (declareClass ctx env name superclass methods)
      (declareClass ctx env name superclass methods) := by
  refine (outlasts_superclassOf ctx env superclass).bind fun superclass => ?_
  refine (outlasts_bindIn env.frame _ _).bind fun _ => ?_
  refine (outlasts_methodEnv env superclass).bind fun inner => ?_
  exact (outlasts_newClass _ superclass _).bind fun v => outlasts_assignClass env name v

/-! ## Output, the clock and loops -/

theorem outlasts_print (v : Value) : Outlasts (print v) (print v) :=
  fun m => .same (.print m (m.text v))

theorem outlasts_readClock (host : Host) : Outlasts (readClock host) (readClock host) :=
  fun m => .same (.read m)

/-- By induction on the turns, which are as many on both sides. -/
theorem outlasts_loop {condition condition' : Exec Bool} {body body' : Exec Flow}
    (hcondition : Outlasts condition condition') (hbody : Outlasts body body') (turns : Nat) :
    Outlasts (loop condition body turns) (loop condition' body' turns) := by
  induction turns with
  | zero => exact .throw _
  | succ turns ih =>
      refine hcondition.bind fun holds => ?_
      cases holds with
      | false => exact .pure _
      | true =>
          refine hbody.bind fun flow => ?_
          cases flow with
          | next => exact ih
          | returned v => exact .pure _

end LoxLang
