import LoxLang.Proofs.Grammar.Formed

/-!
# Walks of the resolver

How the walks over a program are reasoned about.

* `Adds walk`: faults are only added. `Mild walk`: besides, the scopes stay as they are; this is
  what walks over expressions are like.
* `Quiet walk s`: from `s` the walk finds no fault. A quiet sequence has quiet parts.
* `Shows scopes Γ`: the scopes declare what the layers declare, and nothing is waiting for its
  initializer. `Views` says the same inside an initializer.
-/

namespace LoxLang

namespace Resolver

/-! ## Faults -/

/-- Faults are only added. -/
def Adds (walk : Resolver Unit) : Prop := ∀ s, s.errors.length ≤ (walk s).2.errors.length

/-- Faults are only added, and no scope changes. -/
structure Mild (walk : Resolver Unit) : Prop where
  adds : Adds walk
  scopes : ∀ s, (walk s).2.scopes = s.scopes
  globals : ∀ s, (walk s).2.globals = s.globals

/-- Errors are added by either of two walks, and removed by none. -/
theorem Adds.bind {walk : Resolver Unit} {rest : Unit → Resolver Unit} (h : Adds walk)
    (hrest : Adds (rest ())) : Adds (walk >>= rest) :=
  fun s => Nat.le_trans (h s) (hrest (walk s).2)

theorem Mild.pure : Mild (Pure.pure ()) := ⟨fun _ => Nat.le_refl _, fun _ => rfl, fun _ => rfl⟩

/-- Two mild walks are mild together. -/
theorem Mild.bind {walk : Resolver Unit} {rest : Unit → Resolver Unit} (h : Mild walk)
    (hrest : Mild (rest ())) : Mild (walk >>= rest) where
  adds := h.adds.bind hrest.adds
  scopes s := (hrest.scopes (walk s).2).trans (h.scopes s)
  globals s := (hrest.globals (walk s).2).trans (h.globals s)

theorem Mild.report (fault : ScopeFault) (token : Token) : Mild (report fault token) where
  adds s := by
    change s.errors.length ≤ (s.errors ++ [StaticError.atToken (.resolve fault) token]).length
    simp
  scopes _ := rfl
  globals _ := rfl

theorem Mild.record (id : NodeId) (distance : Option Nat) : Mild (record id distance) := by
  cases distance with
  | none => exact Mild.pure
  | some d => exact ⟨fun _ => Nat.le_refl _, fun _ => rfl, fun _ => rfl⟩

theorem Mild.link (id : NodeId) (name : String) : Mild (link id name) where
  adds s := (Mild.record id (distance? name s.scopes)).adds s
  scopes s := (Mild.record id (distance? name s.scopes)).scopes s
  globals s := (Mild.record id (distance? name s.scopes)).globals s

/-- A walk that first looks at the state is mild if it is mild whatever the state is. -/
theorem Mild.get_bind {rest : State → Resolver Unit} (h : ∀ s, Mild (rest s)) :
    Mild (get >>= rest) where
  adds s := (h s).adds s
  scopes s := (h s).scopes s
  globals s := (h s).globals s

theorem Mild.linkShadowed (ctx : Context) (ref : Reference) (outer : List Scope) :
    Mild (linkShadowed ctx ref outer) := by
  unfold Resolver.linkShadowed
  split
  · exact Mild.record _ _
  · refine Mild.get_bind fun s => ?_
    split
    · exact Mild.pure
    · split
      · exact Mild.report _ _
      · exact ⟨fun _ => Nat.le_refl _, fun _ => rfl, fun _ => rfl⟩

theorem Mild.read (ctx : Context) (ref : Reference) : Mild (read ctx ref) := by
  refine Mild.get_bind fun s => ?_
  split
  · split
    · exact Mild.report _ _
    · exact Mild.pure
  · split
    · exact Mild.linkShadowed _ _ _
    · exact Mild.link _ _

theorem Mild.useThis (ctx : Context) (id : NodeId) (keyword : Token) :
    Mild (useThis ctx id keyword) := by
  unfold Resolver.useThis
  split
  · exact Mild.report _ _
  · exact Mild.link _ _

theorem Mild.checkSuper (ctx : Context) (keyword : Token) : Mild (checkSuper ctx keyword) := by
  unfold Resolver.checkSuper
  split
  · exact Mild.report _ _
  · exact Mild.pure

theorem Mild.useSuper (ctx : Context) (id : NodeId) (keyword : Token) :
    Mild (useSuper ctx id keyword) := (Mild.checkSuper ctx keyword).bind (Mild.link _ _)

mutual

/-- By induction on the expression: resolving it opens no scope and declares no name. -/
theorem Mild.expr (ctx : Context) : ∀ e : Expr, Mild (expr ctx e)
  | .assign _ _ value => (Mild.expr ctx value).bind (Mild.link _ _)
  | .binary _ left _ right | .logical _ left _ right =>
      (Mild.expr ctx left).bind (Mild.expr ctx right)
  | .set _ object _ value => (Mild.expr ctx value).bind (Mild.expr ctx object)
  | .call _ callee _ arguments => (Mild.expr ctx callee).bind (Mild.exprs ctx arguments)
  | .get _ e _ | .grouping _ e | .unary _ _ e => Mild.expr ctx e
  | .literal _ _ => Mild.pure
  | .super _ _ _ => Mild.useSuper _ _ _
  | .this _ _ => Mild.useThis _ _ _
  | .variable _ => Mild.read _ _

theorem Mild.exprs (ctx : Context) : ∀ es : List Expr, Mild (exprs ctx es)
  | [] => Mild.pure
  | e :: es => (Mild.expr ctx e).bind (Mild.exprs ctx es)

end

theorem Mild.expr? (ctx : Context) : ∀ e : Option Expr, Mild (expr? ctx e)
  | none => Mild.pure
  | some e => Mild.expr ctx e

theorem Mild.checkReturn (ctx : Context) (keyword : Token) (value : Option Expr) :
    Mild (checkReturn ctx keyword value) := by
  unfold Resolver.checkReturn
  split
  · exact Mild.report _ _
  · split
    · exact Mild.report _ _
    · exact Mild.pure

theorem Mild.checkInheritance (name : Token) (ref : Reference) :
    Mild (checkInheritance name ref) := by
  unfold Resolver.checkInheritance
  split
  · exact Mild.report _ _
  · exact Mild.pure

/-! ## Reads -/

/-- A walk that looks at the state first. -/
theorem get_bind_run {α : Type} (f : State → Resolver α) (s : State) :
    ((get : Resolver State) >>= f) s = f s s := rfl

/-- A read at the top level enters no distance. -/
theorem read_global {s : State} (ctx : Context) (ref : Reference) (h : s.scopes = []) :
    (read ctx ref s).2.links = s.links := by
  rcases s with ⟨links, errors, scopes, globals, pending⟩
  cases h
  simp only [read, get_bind_run]
  split <;> rfl

/-- A read of the name that is being initialized means the one that it shadows. -/
theorem read_waiting {s : State} {scope : Scope} {outer : List Scope} (ctx : Context)
    (ref : Reference) (h : s.scopes = scope :: outer)
    (hname : scope.get? ref.name.lexeme = some false) :
    read ctx ref s = linkShadowed ctx ref outer s := by
  rcases s with ⟨links, errors, scopes, globals, pending⟩
  cases h
  simp only [read, get_bind_run, if_pos hname]

/-- Any other read is bound to the nearest scope that has the name. -/
theorem read_local {s : State} {scope : Scope} {outer : List Scope} (ctx : Context)
    (ref : Reference) (h : s.scopes = scope :: outer)
    (hname : scope.get? ref.name.lexeme ≠ some false) :
    read ctx ref s = link ref.id ref.name.lexeme s := by
  rcases s with ⟨links, errors, scopes, globals, pending⟩
  cases h
  simp only [read, get_bind_run, if_neg hname]

/-- If an outer scope has the name, the distance is one more for the scope that is skipped. -/
theorem linkShadowed_some {s : State} {outer : List Scope} (ctx : Context) (ref : Reference)
    {d : Nat} (h : distance? ref.name.lexeme outer = some d) :
    linkShadowed ctx ref outer s = record ref.id (some (d + 1)) s := by
  unfold linkShadowed
  rw [h]

theorem linkShadowed_none {s : State} {outer : List Scope} (ctx : Context) (ref : Reference)
    (h : distance? ref.name.lexeme outer = none) :
    (linkShadowed ctx ref outer s).2.links = s.links := by
  unfold linkShadowed
  rw [h]
  change ((if s.globals.get? ref.name.lexeme = some true then _ else _ : Resolver Unit) s).2.links = _
  split
  · rfl
  · split <;> rfl

/-! ## Declarations -/

/-- At the top level a name may be declared again, and keeps its value until then. -/
theorem declare_global {s : State} (name : Token) (h : s.scopes = []) :
    (declare name s).2 = if s.globals.contains name.lexeme then s
      else { s with globals := s.globals.insert name.lexeme false } := by
  rcases s with ⟨links, errors, scopes, globals, pending⟩
  rcases h with rfl
  change ((if (!globals.contains name.lexeme) = true then _ else _ : Resolver Unit) _).2 = _
  cases h : globals.contains name.lexeme <;> rfl

/-- In a scope a name may not be declared again. -/
theorem declare_local {s : State} {scope : Scope} {outer : List Scope} (name : Token)
    (h : s.scopes = scope :: outer) :
    (declare name s).2 = { s with
      errors := if scope.contains name.lexeme
        then s.errors ++ [.atToken (.resolve .alreadyDeclared) name] else s.errors
      scopes := scope.insert name.lexeme false :: outer } := by
  rcases s with ⟨links, errors, scopes, globals, pending⟩
  rcases h with rfl
  rfl

/-- At the top level a defined name is a global with a value. -/
theorem define_global {s : State} (name : Token) (h : s.scopes = []) :
    (define name s).2 = { s with globals := s.globals.insert name.lexeme true } := by
  rcases s with ⟨links, errors, scopes, globals, pending⟩
  rcases h with rfl
  rfl

theorem define_local {s : State} {scope : Scope} {outer : List Scope} (name : Token)
    (h : s.scopes = scope :: outer) :
    (define name s).2 = { s with scopes := scope.insert name.lexeme true :: outer } := by
  rcases s with ⟨links, errors, scopes, globals, pending⟩
  rcases h with rfl
  rfl

theorem Adds.declare (name : Token) : Adds (declare name) := by
  intro s
  cases h : s.scopes with
  | nil =>
      rw [declare_global name h]
      split <;> exact Nat.le_refl _
  | cons scope outer =>
      rw [declare_local name h]
      dsimp only
      split
      · simp
      · exact Nat.le_refl _

theorem Adds.define (name : Token) : Adds (define name) := by
  intro s
  cases h : s.scopes with
  | nil =>
      exact Nat.le_of_eq (by rw [define_global name h])
  | cons scope outer =>
      exact Nat.le_of_eq (by rw [define_local name h])

/-! ## Walks over statements -/

/-- What holds of a walk that leaves the scopes alone, of one that declares a name around its
initializer, and of everything that is put together from such walks. -/
structure Compositional (P : Resolver Unit → Prop) : Prop where
  mild : ∀ {walk}, Mild walk → P walk
  bind : ∀ {walk : Resolver Unit} {rest : Unit → Resolver Unit},
    P walk → P (rest ()) → P (walk >>= rest)
  inScope : ∀ (scope : Scope) {walk : Resolver Unit}, P walk → P (inScope scope walk)
  varDecl : ∀ (ctx : Context) (name : Token) (initializer : Option Expr),
    P (do declare name; expr? ctx initializer; define name)

namespace Compositional

variable {P : Resolver Unit → Prop} (hP : Compositional P)
include hP

/-- A name that is declared and defined at once has no initializer in between. -/
theorem introduce (name : Token) : P (introduce name) := hP.varDecl ⟨.none, .none⟩ name none

theorem parameters (params : List Token) : P (parameters params) := by
  induction params with
  | nil => exact hP.mild Mild.pure
  | cons param params ih => exact hP.bind (hP.introduce param) ih

mutual

/-- The induction over statements, for all such properties at once. -/
theorem stmt (ctx : Context) : ∀ st : Stmt, P (stmt ctx st)
  | .block body => by
      apply hP.inScope
      exact stmts ctx body
  | .classDecl name none decls => by
      apply hP.bind (hP.introduce name)
      apply hP.inScope
      exact methods _ decls
  | .classDecl name (some ref) decls => by
      have hcheck := hP.mild (Mild.checkInheritance name ref)
      have hread := hP.mild (Mild.read ctx ref)
      apply hP.bind (hP.introduce name)
      apply hP.bind hcheck
      apply hP.bind hread
      -- One scope for `super`, and in it one for `this`.
      apply hP.inScope
      apply hP.inScope
      exact methods _ decls
  | .expression e | .print e => hP.mild (Mild.expr ctx e)
  | .function decl => by
      apply hP.bind (hP.introduce decl.name)
      exact function _ decl
  | .ifElse condition thenBranch none => by
      have hcondition := hP.mild (Mild.expr ctx condition)
      apply hP.bind hcondition
      exact stmt ctx thenBranch
  | .ifElse condition thenBranch (some elseBranch) => by
      have hcondition := hP.mild (Mild.expr ctx condition)
      apply hP.bind hcondition
      apply hP.bind (stmt ctx thenBranch)
      exact stmt ctx elseBranch
  | .returnValue keyword value => by
      have hcheck := hP.mild (Mild.checkReturn ctx keyword value)
      have hvalue := hP.mild (Mild.expr? ctx value)
      exact hP.bind hcheck hvalue
  | .varDecl name initializer => hP.varDecl ctx name initializer
  | .whileLoop condition body => by
      have hcondition := hP.mild (Mild.expr ctx condition)
      apply hP.bind hcondition
      exact stmt ctx body

theorem stmts (ctx : Context) : ∀ ss : List Stmt, P (stmts ctx ss)
  | [] => hP.mild Mild.pure
  | st :: ss => hP.bind (stmt ctx st) (stmts ctx ss)

theorem function (ctx : Context) : ∀ decl : FunctionDecl, P (function ctx decl)
  | ⟨_, params, body⟩ => by
      apply hP.inScope
      apply hP.bind (hP.parameters params)
      exact stmts ctx body

theorem methods (ctx : Context) : ∀ decls : List FunctionDecl, P (methods ctx decls)
  | [] => hP.mild Mild.pure
  | decl :: decls => hP.bind (function _ decl) (methods ctx decls)

end

end Compositional

theorem adds : Compositional Adds where
  mild h := h.adds
  bind h hrest := h.bind hrest
  inScope scope {_} h := fun s => h { s with scopes := scope :: s.scopes }
  varDecl ctx name initializer := by
    have hvalue := (Mild.expr? ctx initializer).adds
    exact (Adds.declare name).bind (hvalue.bind (Adds.define name))

/-! ## Quiet walks -/

/-- The walk finds no fault. -/
def Quiet (walk : Resolver Unit) (s : State) : Prop :=
  (walk s).2.errors.length ≤ s.errors.length

/-- If two walks find no error, neither of them does. -/
theorem Quiet.of_bind {walk : Resolver Unit} {rest : Unit → Resolver Unit} {s : State}
    (h : Quiet (walk >>= rest) s) (hwalk : Adds walk) (hrest : Adds (rest ())) :
    Quiet walk s ∧ Quiet (rest ()) (walk s).2 := by
  have hfirst := hwalk s
  have hsecond := hrest (walk s).2
  have htotal : ((rest ()) (walk s).2).2.errors.length ≤ s.errors.length := h
  exact ⟨Nat.le_trans hsecond htotal, Nat.le_trans htotal hfirst⟩

theorem not_quiet_report {fault : ScopeFault} {token : Token} {s : State} :
    ¬ Quiet (report fault token) s := by
  intro h
  have hlength : (s.errors ++ [StaticError.atToken (.resolve fault) token]).length ≤
      s.errors.length := h
  exact absurd hlength (by simp)

/-! ## Scopes and layers -/

/-- A scope declares what a layer declares, and nothing in it waits for its initializer. -/
def ScopeShows (scope : Scope) (l : Layer) : Prop :=
  ∀ x, scope.get? x = if l.declares x then some true else none

inductive Shows : List Scope → List Layer → Prop where
  | nil : Shows [] []
  | cons {scope : Scope} {scopes : List Scope} {l : Layer} {Γ : List Layer} :
      ScopeShows scope l → Shows scopes Γ → Shows (scope :: scopes) (l :: Γ)

/-- The scopes around an expression. In the initializer of a local variable, the innermost one
declares the variable, too. -/
inductive Views : Option String → List Scope → List Layer → Prop where
  | plain {scopes : List Scope} {Γ : List Layer} :
      Shows scopes Γ → Views none scopes Γ
  | initializer {x : String} {xs : List String} {scope : Scope} {scopes : List Scope}
      {Γ : List Layer} :
      IsName x → x ∉ xs → ScopeShows scope (.names xs) → Shows scopes Γ →
      Views (some x) (scope.insert x false :: scopes) (.names xs :: Γ)

theorem ScopeShows.contains {scope : Scope} {l : Layer} (h : ScopeShows scope l) (x : String) :
    scope.contains x = l.declares x := by
  rw [Bindings.contains, h x]
  cases l.declares x <;> rfl

theorem scopeShows_empty : ScopeShows .empty (.names []) := fun _ => rfl

theorem scopeShows_this : ScopeShows thisScope .this := by
  intro x
  by_cases h : "this" = x <;> simp [thisScope, Bindings.get?_insert, Layer.declares, h, Ne.symm]

theorem scopeShows_super : ScopeShows superScope .super := by
  intro x
  by_cases h : "super" = x <;> simp [superScope, Bindings.get?_insert, Layer.declares, h, Ne.symm]

/-- Once its initializer is behind, a variable is one of the names of its scope. -/
theorem ScopeShows.insert {scope : Scope} {xs : List String} (h : ScopeShows scope (.names xs))
    (x : String) : ScopeShows (scope.insert x true) (.names (xs ++ [x])) := by
  intro y
  have hy := h y
  by_cases hxy : x = y
  · simp [Layer.declares, hxy]
  · simpa [Bindings.get?_insert, Layer.declares, hxy, Ne.symm hxy] using hy

/-- Scopes and layers agree on how far out a name is. -/
theorem distance?_eq {scopes : List Scope} {Γ : List Layer} (h : Shows scopes Γ) (x : String) :
    distance? x scopes = Layer.depth? x Γ := by
  induction h with
  | nil => rfl
  | cons hscope _ ih =>
      simp only [distance?, Layer.depth?, List.findIdx?_cons, hscope.contains x] at ih ⊢
      rw [ih]

theorem distance?_cons (x : String) (scope : Scope) (scopes : List Scope) :
    distance? x (scope :: scopes) =
      if scope.contains x then some 0 else (distance? x scopes).map (· + 1) := by
  simp [distance?, List.findIdx?_cons]

/-- The name that is being initialized counts as declared in the innermost scope. -/
theorem Views.distance?_eq {self : Option String} {scopes : List Scope} {Γ : List Layer}
    (h : Views self scopes Γ) (x : String) :
    distance? x scopes = if self = some x then some 0 else Layer.depth? x Γ := by
  cases h with
  | plain h => simp [Resolver.distance?_eq h]
  | @initializer y xs scope scopes Γ _ hfresh hscope hscopes =>
      rw [distance?_cons, Layer.depth?_cons, Resolver.distance?_eq hscopes,
        Bindings.contains_insert, hscope.contains x]
      by_cases hxy : y = x <;> simp [hxy]

end Resolver

end LoxLang
