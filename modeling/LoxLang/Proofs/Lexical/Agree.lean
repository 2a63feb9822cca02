import LoxLang.Proofs.Lexical.Related

/-!
# Steps that agree

The single steps of the two interpreters, taken side by side.

* `Agree A own β m r x y Q`: from machines that are related by the book `β`, the actions `x` and `y`
  either halt alike and have printed the same, or lead to machines that are related by a later book,
  with results that satisfy `Q`.
-/

namespace LoxLang

open Layer

def Agree {α α' : Type} (A : Addresses) (own : Option FrameId) (β : Book) (m : Machine)
    (r : Lexical.Machine) (x : Exec α) (y : Lexical.Act α') (Q : Book → Store → α → α' → Prop) :
    Prop :=
  match x m, y r with
  | .ok a m', .ok b r' =>
      ∃ β', Related A β' m' r' ∧ Later own β m.store β' m'.store ∧ Q β' m'.store a b
  | .error e m', .error e' r' => e = e' ∧ m'.output = r'.output
  | _, _ => False

abbrev Same {α : Type} : Book → Store → α → α → Prop := fun _ _ a b => a = b

/-! ## Rules -/

namespace Agree

variable {α α' γ γ' : Type} {A : Addresses} {own own' : Option FrameId} {β : Book} {m : Machine}
  {r : Lexical.Machine} {x : Exec α} {y : Lexical.Act α'} {f : α → Exec γ}
  {g : α' → Lexical.Act γ'} {Q Q' : Book → Store → α → α' → Prop}
  {R : Book → Store → γ → γ' → Prop}

/-- Where both actions succeed, they agree if their machines are related by a later book. -/
theorem of_ok {β' : Book} {m' : Machine} {r' : Lexical.Machine} {a : α} {b : α'}
    (hx : x m = .ok a m') (hy : y r = .ok b r') (hrel : Related A β' m' r')
    (hlater : Later own β m.store β' m'.store) (hQ : Q β' m'.store a b) :
    Agree A own β m r x y Q := by
  unfold Agree
  rw [hx, hy]
  exact ⟨β', hrel, hlater, hQ⟩

/-- One step after the other, where the first one may be quieter than both together. -/
theorem step (hx : Agree A own' β m r x y Q)
    (hown : ∀ β' s', Later own' β m.store β' s' → Later own β m.store β' s')
    (hf : ∀ β' m' r' a b, Related A β' m' r' → Later own' β m.store β' m'.store →
      Q β' m'.store a b → Agree A own β' m' r' (f a) (g b) R) :
    Agree A own β m r (x >>= f) (y >>= g) R := by
  unfold Agree at hx ⊢
  -- Both runs halt or both go on: `Agree` leaves no third case.
  cases hrun : x m with
  | error e m' =>
      cases hrun' : y r with
      | error e' r' =>
          rw [hrun, hrun'] at hx
          rw [Halt.bind_error hrun, Halt.bind_error hrun']
          exact hx
      | ok b r' =>
          rw [hrun, hrun'] at hx
          exact hx.elim
  | ok a m' =>
      cases hrun' : y r with
      | error e' r' =>
          rw [hrun, hrun'] at hx
          exact hx.elim
      | ok b r' =>
          rw [hrun, hrun'] at hx
          rcases hx with ⟨β', hrel, hlater, hQ⟩
          have hrest := hf β' m' r' a b hrel hlater hQ
          rw [Halt.bind_ok hrun, Halt.bind_ok hrun']
          unfold Agree at hrest
          cases hend : f a m' <;> cases hend' : g b r' <;> rw [hend, hend'] at hrest
          · rcases hrest with ⟨β'', hrel', hlater', hR⟩
            exact ⟨β'', hrel', (hown _ _ hlater).trans hlater', hR⟩
          · exact hrest
          · exact hrest
          · exact hrest

/-- Actions that agree, followed by actions that agree from every machine they can lead to, agree
together. -/
theorem bind (hx : Agree A own β m r x y Q)
    (hf : ∀ β' m' r' a b, Related A β' m' r' → Later own β m.store β' m'.store →
      Q β' m'.store a b → Agree A own β' m' r' (f a) (g b) R) :
    Agree A own β m r (x >>= f) (y >>= g) R :=
  hx.step (fun _ _ h => h) hf

/-- A first step that leaves the names of the innermost frame alone. -/
theorem bindQuiet (hx : Agree A none β m r x y Q)
    (hf : ∀ β' m' r' a b, Related A β' m' r' → Later none β m.store β' m'.store →
      Q β' m'.store a b → Agree A own β' m' r' (f a) (g b) R) :
    Agree A own β m r (x >>= f) (y >>= g) R :=
  hx.step (fun _ _ h => h.quiet own) hf

/-- Results that agree more closely agree. -/
theorem mono (hx : Agree A own β m r x y Q)
    (hQ : ∀ β' s' a b, Later own β m.store β' s' → Q β' s' a b → Q' β' s' a b) :
    Agree A own β m r x y Q' := by
  unfold Agree at hx ⊢
  cases hrun : x m <;> cases hrun' : y r <;> rw [hrun, hrun'] at hx
  · rcases hx with ⟨β', hrel, hlater, h⟩
    exact ⟨β', hrel, hlater, hQ _ _ _ _ hlater h⟩
  · exact hx
  · exact hx
  · exact hx

/-- Some steps have been taken already, on either side. -/
theorem resume {β' : Book} {m' : Machine} {r' : Lexical.Machine} {x' : Exec α} {y' : Lexical.Act α'}
    (hx : x m = x' m') (hy : y r = y' r')
    (hlater : ∀ β'' s'', Later own' β' m'.store β'' s'' → Later own β m.store β'' s'')
    (h : Agree A own' β' m' r' x' y' Q) : Agree A own β m r x y Q := by
  unfold Agree at h ⊢
  rw [hx, hy]
  cases hrun : x' m' <;> cases hrun' : y' r' <;> rw [hrun, hrun'] at h
  · rcases h with ⟨β'', hrel, hlater', hQ⟩
    exact ⟨β'', hrel, hlater _ _ hlater', hQ⟩
  · exact h
  · exact h
  · exact h

/-- The second machine is ahead: the first one takes a step alone. -/
theorem left {β' : Book} {m' : Machine} {a : α} {y : Lexical.Act γ'} (hx : x m = .ok a m')
    (hlater : Later own β m.store β' m'.store) (h : Agree A own β' m' r (f a) y R) :
    Agree A own β m r (x >>= f) y R :=
  resume (Halt.bind_ok hx) rfl (fun _ _ => hlater.trans) h

/-- What leaves the innermost frame alone may stand among statements. -/
theorem quiet (h : Agree A none β m r x y Q) : Agree A own β m r x y Q :=
  resume rfl rfl (fun _ _ hlater => hlater.quiet own) h

/-- The second result is looked at in another way. -/
theorem map {k : α' → γ'} {R : Book → Store → α → γ' → Prop} (h : Agree A own β m r x y Q)
    (hR : ∀ β' s' a b, Later own β m.store β' s' → Q β' s' a b → R β' s' a (k b)) :
    Agree A own β m r x (y >>= fun b => Pure.pure (k b)) R := by
  unfold Agree at h ⊢
  cases hrun : x m <;> cases hrun' : y r <;> rw [hrun, hrun'] at h
  · rw [Halt.bind_ok hrun']
    rcases h with ⟨β', hrel, hlater, hQ⟩
    exact ⟨β', hrel, hlater, hR _ _ _ _ hlater hQ⟩
  · exact h.elim
  · exact h.elim
  · rw [Halt.bind_error hrun']
    exact h

/-- Actions that look at their machines first. -/
theorem left_get {f : Machine → Exec γ} {y : Lexical.Act γ'} (h : Agree A own β m r (f m) y R) :
    Agree A own β m r (get >>= f) y R := h

theorem right_get {x : Exec γ} {g : Lexical.Machine → Lexical.Act γ'}
    (h : Agree A own β m r x (g r) R) : Agree A own β m r x (get >>= g) R := h

theorem pure (hrel : Related A β m r) {a : α} {b : α'} (hQ : Q β m.store a b) :
    Agree A own β m r (Pure.pure a) (Pure.pure b) Q :=
  ⟨β, hrel, .refl own β _, hQ⟩

theorem halt (hrel : Related A β m r) (reason : Halt) :
    Agree A own β m r (throw reason) (throw reason) Q :=
  ⟨rfl, hrel.output⟩

theorem raise (hrel : Related A β m r) (fault : RuntimeFault) (token : Token) :
    Agree A own β m r (Exec.raise fault token) (Lexical.Act.raise fault token) Q :=
  halt hrel _

theorem orRaise (hrel : Related A β m r) (token : Token) (result : Except RuntimeFault α) :
    Agree A own β m r (Exec.orRaise token result) (Lexical.Act.orRaise token result) Same := by
  cases result with
  | ok a => exact pure hrel rfl
  | error fault => exact raise hrel fault token

end Agree

/-! ## Variables -/

namespace Exec

variable {A : Addresses} {own : Option FrameId} {β : Book} {m : Machine} {r : Lexical.Machine}
  {ctx : Context} {env : Env} {scope : Lexical.Scope} {place : Lexical.Place} {Γ : List Layer}

/-- A variable has one value in its frame and in its cell. -/
theorem cell_eq (hrel : Related A β m r) {c : Lexical.CellId} {f : FrameId} {x : String}
    (h : β[c]? = some (f, x)) : (m.store.frame f).get? x = some (r.cell c) := by
  rw [(hrel.vars.cells c f x h).2.2]
  have hlt : c < r.cells.size := by
    rw [← hrel.vars.size_eq]
    exact (Array.getElem?_eq_some_iff.1 h).1
  simp [Lexical.Machine.cell, Array.getD_eq_getD_getElem?, hlt]

/-- A local name has the value of its cell. -/
theorem getAt_of_sees (hrel : Related A β m r) (hsees : Sees β scope env.chain Γ) {x : String}
    {d : Nat} (hd : depth? x Γ = some d) :
    ∃ c, scope.get? x = some c ∧ getAt env d x m = .ok (r.cell c) m := by
  have hx := hsees x
  rw [hd] at hx
  rcases hx with ⟨c, f, hscope, hchain, hbook⟩
  rcases Env.ancestor_of_chain hchain with ⟨ancestor, hancestor, rfl⟩
  have hget : m.store.getAt env d x = .ok (r.cell c) := by
    simp [Store.getAt, hancestor, cell_eq hrel hbook, Bind.bind, Except.bind]
  refine ⟨c, hscope, ?_⟩
  change orDefect (m.store.getAt env d x) m = _
  rw [hget]
  rfl

/-- By distance or by cell, the same variable is read. -/
theorem agree_lookUp (hrel : Related A β m r) (hsees : Sees β scope env.chain Γ) {id : NodeId}
    {name : Token} (hlink : ctx.links[id]? = depth? name.lexeme Γ) :
    Agree A own β m r (lookUp ctx env id name) (Lexical.Act.lookUp scope name) Same := by
  unfold lookUp Lexical.Act.lookUp
  rw [hlink]
  cases hdepth : depth? name.lexeme Γ with
  | some d =>
      -- a local name: the frame at its distance holds what its cell holds
      rcases getAt_of_sees hrel hsees hdepth with ⟨c, hscope, hget⟩
      rw [hscope]
      exact Agree.of_ok hget rfl hrel (.refl _ _ _) rfl
  | none =>
      -- any other name is looked up among the globals on both sides
      have hscope := hsees name.lexeme
      rw [hdepth] at hscope
      have hget : m.store.get Machine.globals name.lexeme =
          (r.globals.get? name.lexeme).elim (.error (.undefinedVariable name.lexeme)) .ok := by
        rw [hrel.vars.globals]
        unfold Store.get
        simp only [Env.chain, Machine.globals, List.findSome?_cons, List.findSome?_nil]
        cases (m.store.frame 0).get? name.lexeme <;> rfl
      rw [hscope]
      refine .left_get (.right_get ?_)
      rw [hget]
      cases r.globals.get? name.lexeme with
      | some v => exact .pure hrel rfl
      | none => exact .raise hrel _ name

/-- By distance or by cell, the same variable is written to. No other cell stands for it. -/
theorem agree_assign (hrel : Related A β m r) (hsees : Sees β scope env.chain Γ) {id : NodeId}
    {name : Token} (hname : IsName name.lexeme) (hlink : ctx.links[id]? = depth? name.lexeme Γ)
    (v : Value) :
    Agree A own β m r (assign ctx env id name v) (Lexical.Act.assign scope name v) Same := by
  unfold assign Lexical.Act.assign
  rw [hlink]
  have hx := hsees name.lexeme
  cases hdepth : depth? name.lexeme Γ with
  -- A variable with an address has a cell, which stands for it wherever its frame is.
  | some d =>
      rw [hdepth] at hx
      rcases hx with ⟨c, f, hscope, hchain, hbook⟩
      rcases Env.ancestor_of_chain hchain with ⟨ancestor, hancestor, rfl⟩
      have hvars := hrel.vars.setCell hname hbook v
      have hrun : assignAt env d name.lexeme v m =
          .ok () { m with store := m.store.bind ancestor.frame name.lexeme v } := by
        unfold assignAt
        rw [hancestor]
        rfl
      rw [hscope]
      exact Agree.of_ok hrun rfl (hrel.withVars hvars) (hvars.2.quiet own) rfl
  -- All other variables are globals, which are looked up by name on both sides.
  | none =>
      rw [hdepth] at hx
      rw [hx]
      have hglobal := hrel.vars.globals name.lexeme
      have hlocate : m.store.locate Machine.globals name.lexeme =
          if r.globals.contains name.lexeme then .ok 0
          else .error (.undefinedVariable name.lexeme) := by
        unfold Store.locate Bindings.contains
        simp only [Env.chain, Machine.globals, List.find?_cons, List.find?_nil, hglobal]
        cases (m.store.frame 0).get? name.lexeme <;> rfl
      change Agree A own β m r
        (orRaise name (m.store.locate Machine.globals name.lexeme) >>= fun id =>
          bindIn id name.lexeme v)
        (if r.globals.contains name.lexeme then _ else _) Same
      rw [hlocate]
      split
      · have hvars := hrel.vars.setGlobal hname v
        exact Agree.of_ok rfl rfl (hrel.withVars hvars) (hvars.2.quiet own) rfl
      · exact .raise hrel _ name

/-! ## Declarations -/

/-- A new name of the innermost frame gets a new cell. -/
theorem declare_inner (hrel : Related A β m r) {xs : List String}
    (hstands : Stands β m.store env (.inner scope) (.names xs :: Γ)) {x : String} (hx : IsName x)
    (hfresh : x ∉ xs) (v : Value) :
    let β' := β.push (env.frame, x)
    let store := m.store.bind env.frame x v
    Related A β' { m with store } { r with cells := r.cells.push v } ∧
      Later (some env.frame) β m.store β' store ∧
      Stands β' store env (.inner (scope.insert x r.cells.size)) (.names (xs ++ [x]) :: Γ) := by
  cases hstands with
  | inner hne hlt howns hsees =>
      -- The frame has cells for the names of its layer only, and this name is not one of them.
      have hunused : ∀ c : Lexical.CellId, β[c]? ≠ some (env.frame, x) :=
        fun c hc => hfresh (howns c x hc hx)
      have hvars := hrel.vars.declare hx hne hlt hunused v
      have hcell : (β.push (env.frame, x))[r.cells.size]? = some (env.frame, x) := by
        simp [← hrel.vars.size_eq]
      refine ⟨hrel.withVars hvars, hvars.2, .inner hne (by simpa [Store.size_bind] using hlt) ?_
        (hsees.declare hvars.2.book hcell)⟩
      intro c y hbook hy
      rcases Book.of_push hbook with ⟨-, heq⟩ | hold
      · cases heq
        simp
      · exact List.mem_append_left _ (howns c y hold hy)

/-- A declaration makes a cell, or a global. -/
theorem agree_define (hrel : Related A β m r) (hstands : Stands β m.store env place Γ) {x : String}
    (hx : IsName x) (hfresh : Fresh x Γ) (v : Value) :
    Agree A (some env.frame) β m r (define env x v) (Lexical.Act.declare place x v)
      fun β' s' _ place' =>
        Stands β' s' env place' (add x Γ) ∧ (s'.frame env.frame).get? x = some v := by
  -- whatever kind of place it is, the frame binds the name then
  have hbound : env.frame < m.store.frames.size →
      ((m.store.bind env.frame x v).frame env.frame).get? x = some v := by
    intro hlt
    rw [Store.frame_bind _ hlt, if_pos rfl]
    simp
  cases hstands with
  -- a global has no cell
  | top =>
      have hvars := hrel.vars.setGlobal hx v
      exact Agree.of_ok rfl rfl (hrel.withVars hvars) (hvars.2.quiet _)
        ⟨.top, hbound hrel.vars.size_pos⟩
  -- a local variable gets a new one
  | inner hne hlt howns hsees =>
      rcases declare_inner hrel (.inner hne hlt howns hsees) hx hfresh v with
        ⟨hrel', hlater, hstands'⟩
      exact Agree.of_ok rfl rfl hrel' hlater ⟨hstands', hbound hlt⟩

/-- The cell, or the global, that a declaration has just made. -/
theorem agree_fill (hrel : Related A β m r) {x : String}
    (hstands : Stands β m.store env place (add x Γ)) (hx : IsName x) (v : Value) :
    Agree A own β m r (bindIn env.frame x v) (Lexical.Act.fill place x v)
      fun β' s' _ _ => Stands β' s' env place (add x Γ) := by
  generalize hΓ : add x Γ = Γ' at hstands
  cases hstands with
  | top =>
      have hvars := hrel.vars.setGlobal hx v
      exact Agree.of_ok rfl rfl (hrel.withVars hvars) (hvars.2.quiet _) .top
  -- The layer declares the name, so the frame has a cell for it.
  | @inner env scope xs Γ' hne hlt howns hsees =>
      have hcell := hsees x
      rw [depth?_of_add_eq hΓ] at hcell
      rcases hcell with ⟨c, f, hscope, hchain, hbook⟩
      cases hchain
      have hvars := hrel.vars.setCell hx hbook v
      have hrun : Lexical.Act.fill (.inner scope) x v r =
          .ok () { r with cells := r.cells.setIfInBounds c v } := by
        simp only [Lexical.Act.fill, Lexical.Place.scope, hscope]
        rfl
      refine Agree.of_ok rfl hrun (hrel.withVars hvars) (hvars.2.quiet _) ?_
      exact (Stands.inner hne hlt howns hsees).mono hvars.2

/-! ## Functions and objects -/

/-- Functions are numbered alike on both sides. -/
theorem agree_newFunction (hrel : Related A β m r) {f : Closure} {g : Lexical.Closure}
    (hf : FunctionRelated A β m.store f g) :
    Agree A own β m r (newFunction f) (Lexical.Act.newFunction g) Same :=
  Agree.of_ok rfl rfl (hrel.pushFunction hf) (.refl _ _ _)
    (congrArg Value.function hrel.functions_size)

/-- A method gets its object: in a frame on the one side, beside its scope on the other. -/
theorem bindMethod_run (hrel : Related A β m r) {f : Closure} {g : Lexical.Closure}
    (hf : MethodRelated A β m.store f g) (object : ObjectId) :
    ∃ f' store, bindMethod f object m = .ok f' { m with store } ∧
      Related A β { m with store } r ∧ Later none β m.store β store ∧
      FunctionRelated A β store f' { g with this := some object } := by
  have hvars := hrel.vars.pushFrame (Bindings.empty.insert "this" (.object object))
  refine ⟨_, _, rfl, hrel.withVars hvars, hvars.2, hf.decl_eq, hf.isInitializer_eq, hf.selfFree,
    fun _ => ⟨object, rfl⟩, ?_⟩
  rcases hf.captures with ⟨Γ, hcaptures, hlinked⟩
  refine ⟨.this :: Γ, .this ?_ (by simp) ?_ (hcaptures.mono hvars.2), hlinked⟩
  · exact Nat.ne_of_gt hrel.vars.size_pos
  · rw [Store.frame_push_size]
    simp

theorem agree_methodOf (hrel : Related A β m r) (classId : ClassId) (object : ObjectId)
    (name : Token) :
    Agree A own β m r (methodOf classId object name) (Lexical.Act.methodOf classId object name)
      Same := by
  have hfind := hrel.findMethod? classId name.lexeme
  refine .left_get (.right_get ?_)
  generalize m.findMethod? classId name.lexeme = f at hfind
  generalize r.findMethod? classId name.lexeme = g at hfind
  cases hfind with
  | none => exact .raise hrel _ name
  | some hmethod =>
      rcases bindMethod_run hrel hmethod object with ⟨f', store, hrun, hrel', hlater, hf'⟩
      exact Agree.left hrun (hlater.quiet own) (agree_newFunction hrel' hf')

/-- Objects are the same on both sides, fields and all. -/
theorem object_eq (hrel : Related A β m r) (id : ObjectId) : r.object id = m.object id := by
  simp [Machine.object, Lexical.Machine.object, hrel.objects]

theorem agree_getProperty (hrel : Related A β m r) (v : Value) (name : Token) :
    Agree A own β m r (getProperty v name) (Lexical.Act.getProperty v name) Same := by
  cases v with
  | object id =>
      refine .left_get (.right_get ?_)
      dsimp only
      rw [object_eq hrel]
      cases (m.object id).fields.get? name.lexeme with
      | some field => exact .pure hrel rfl
      | none => exact agree_methodOf hrel _ id name
  | _ => exact .raise hrel _ name

theorem agree_asObject (hrel : Related A β m r) (v : Value) (name : Token) :
    Agree A own β m r (asObject v name) (Lexical.Act.asObject v name) Same := by
  cases v with
  | object id => exact .pure hrel rfl
  | _ => exact .raise hrel _ name

theorem agree_newObject (hrel : Related A β m r) (classId : ClassId) :
    Agree A own β m r (newObject classId) (Lexical.Act.newObject classId) Same := by
  refine Agree.of_ok rfl rfl ?_ (.refl _ _ _) (congrArg Array.size hrel.objects)
  exact { hrel with objects := by simp [hrel.objects] }

theorem agree_setField (hrel : Related A β m r) (id : ObjectId) (x : String) (v : Value) :
    Agree A own β m r (setField id x v) (Lexical.Act.setField id x v) Same := by
  refine Agree.of_ok rfl rfl ?_ (.refl _ _ _) rfl
  exact { hrel with objects := by simp [hrel.objects] }

theorem agree_print (hrel : Related A β m r) (v : Value) :
    Agree A own β m r (print v) (Lexical.Act.print v) Same := by
  refine Agree.of_ok rfl rfl ?_ (.refl _ _ _) rfl
  exact { hrel with output := by simp [hrel.output, hrel.text_eq v] }

theorem agree_readClock (hrel : Related A β m r) (host : Host) :
    Agree A own β m r (readClock host) (Lexical.Act.readClock host) Same := by
  refine Agree.of_ok rfl rfl ?_ (.refl _ _ _) (by rw [hrel.readings])
  exact { hrel with readings := congrArg (· + 1) hrel.readings }

/-- The frames of `super` and `this` hold what the method was closed over. -/
theorem agree_superMethod (hrel : Related A β m r) (hsees : Sees β scope env.chain Γ) {id : NodeId}
    {d : Nat} (hid : ctx.links[id]? = some (d + 1)) (hthis : ThisAt Γ d)
    (hsuper : SuperAt Γ (d + 1)) (keyword method : Token) :
    Agree A own β m r (superMethod ctx env id method)
      (Lexical.Act.superMethod scope keyword method) Same := by
  rcases getAt_of_sees hrel hsees hsuper.1 with ⟨superCell, hsuperCell, hgetSuper⟩
  rcases getAt_of_sees hrel hsees hthis.1 with ⟨thisCell, hthisCell, hgetThis⟩
  unfold superMethod Lexical.Act.superMethod
  rw [hid, hsuperCell, hthisCell]
  refine Agree.left hgetSuper (.refl _ _ _) ?_
  refine Agree.left hgetThis (.refl _ _ _) ?_
  refine .right_get (.right_get ?_)
  -- both interpreters look at the same two values
  cases r.cell superCell with
  | classRef classId =>
      cases r.cell thisCell with
      | object object => exact agree_methodOf hrel classId object method
      | _ => exact .halt hrel _
  | _ => exact .halt hrel _

end Exec

end LoxLang
