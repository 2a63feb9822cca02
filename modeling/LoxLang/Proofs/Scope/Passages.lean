import LoxLang.Proofs.Scope.Continued
import LoxLang.Proofs.Scope.Tidy

/-!
# Passages of the resolver

The resolver as it keeps track of where it is. `Resolver.stmts` is handed what surrounds a
statement; here the function and the class around are changed in place, and have to be put back.

* A `Walker` is all that the resolver carries along. A `Tracked` walk changes it, and is on record.
* A `Fragment` is an expression or a statement that the resolver comes to, and a `Passage` is the
  time until it is through with it.
* `Passage.Proper`: behind the fragment, the function and the class around are those from before and
  the scopes have only grown; a statement finds and leaves every name initialized, an expression
  every name but that of the variable whose initializer it is part of.
* `Tracks P Q change tracked walk fragments`: the walk on record changes the state as `walk` does,
  and comes to `fragments`, each of which is passed properly.
* `passages_proper`: so it is in every program.
-/

namespace LoxLang

namespace Resolver

/-- All that the resolver carries along. -/
structure Walker extends Context where
  state : State

/-- A fragment of a program that the resolver comes to. An expression that is part of an initializer
comes with the name of the variable. -/
inductive Fragment where
  | expr (waiting : Option String) (e : Expr)
  | stmt (st : Stmt)

/-- The time between coming to a fragment and being through with it. -/
structure Passage where
  fragment : Fragment
  before : Walker
  behind : Walker

/-- A walker with the passages that are behind it. -/
structure Tracker where
  walker : Walker
  passages : List Passage

/-- A walk on record. -/
abbrev Tracked := StateM Tracker

/-! ## Walks on record -/

/-- What a walk makes of a walker. -/
def Walker.after (walk : Context → Resolver Unit) (w : Walker) : Walker :=
  { w with state := (walk w.toContext w.state).2 }

namespace Tracked

def step (walk : Context → Resolver Unit) : Tracked Unit :=
  modify fun t => { t with walker := t.walker.after walk }

def inScope (scope : Scope) (walk : Tracked Unit) : Tracked Unit := do
  step fun _ => push scope
  walk
  step fun _ => pop

def setFunction (kind : FunctionKind) : Tracked Unit :=
  modify fun t => { t with walker := { t.walker with function := kind } }

def setClass (kind : ClassKind) : Tracked Unit :=
  modify fun t => { t with walker := { t.walker with classKind := kind } }

def keepingFunction (walk : Tracked Unit) : Tracked Unit := do
  let enclosing := (← get).walker.function
  walk
  setFunction enclosing

def keepingClass (walk : Tracked Unit) : Tracked Unit := do
  let enclosing := (← get).walker.classKind
  walk
  setClass enclosing

def passing (fragment : Fragment) (walk : Tracked Unit) : Tracked Unit := do
  let before := (← get).walker
  walk
  modify fun t => { t with passages := t.passages ++ [⟨fragment, before, t.walker⟩] }

mutual

def expr (waiting : Option String) : Expr → Tracked Unit
  | e@(.assign id name value) => passing (.expr waiting e) do
    expr waiting value
    step fun _ => link id name.lexeme
  | e@(.binary _ left _ right) | e@(.logical _ left _ right) => passing (.expr waiting e) do
    expr waiting left
    expr waiting right
  | e@(.call _ callee _ arguments) => passing (.expr waiting e) do
    expr waiting callee
    exprs waiting arguments
  | e@(.get _ inner _) | e@(.grouping _ inner) | e@(.unary _ _ inner) =>
    passing (.expr waiting e) (expr waiting inner)
  | e@(.literal _ _) => passing (.expr waiting e) (pure ())
  | e@(.set _ object _ value) => passing (.expr waiting e) do
    expr waiting value
    expr waiting object
  | e@(.super id keyword _) => passing (.expr waiting e) (step fun ctx => useSuper ctx id keyword)
  | e@(.this id keyword) => passing (.expr waiting e) (step fun ctx => useThis ctx id keyword)
  | e@(.variable ref) => passing (.expr waiting e) (step fun ctx => read ctx ref)

def exprs (waiting : Option String) : List Expr → Tracked Unit
  | [] => pure ()
  | e :: es => do
    expr waiting e
    exprs waiting es

end

def expr? (waiting : Option String) : Option Expr → Tracked Unit
  | none => pure ()
  | some e => expr waiting e

mutual

def stmt : Stmt → Tracked Unit
  | st@(.block body) => passing (.stmt st) (inScope .empty (stmts body))
  | st@(.classDecl name none decls) => passing (.stmt st) <| keepingClass do
    setClass .base
    step fun _ => introduce name
    inScope thisScope (methods decls)
  | st@(.classDecl name (some ref) decls) => passing (.stmt st) <| keepingClass do
    setClass .base
    step fun _ => introduce name
    step fun _ => checkInheritance name ref
    -- The kind is changed once more, and only the kind from before the class is put back.
    setClass .derived
    expr none (.variable ref)
    inScope superScope (inScope thisScope (methods decls))
  | st@(.expression e) | st@(.print e) => passing (.stmt st) (expr none e)
  | st@(.function decl) => passing (.stmt st) do
    step fun _ => introduce decl.name
    function .function decl
  | st@(.ifElse condition thenBranch none) => passing (.stmt st) do
    expr none condition
    stmt thenBranch
  | st@(.ifElse condition thenBranch (some elseBranch)) => passing (.stmt st) do
    expr none condition
    stmt thenBranch
    stmt elseBranch
  | st@(.returnValue keyword value) => passing (.stmt st) do
    step fun ctx => checkReturn ctx keyword value
    expr? none value
  | st@(.varDecl name initializer) => passing (.stmt st) do
    step fun _ => declare name
    expr? (some name.lexeme) initializer
    step fun _ => define name
  | st@(.whileLoop condition body) => passing (.stmt st) do
    expr none condition
    stmt body

def stmts : List Stmt → Tracked Unit
  | [] => pure ()
  | st :: ss => do
    stmt st
    stmts ss

def function (kind : FunctionKind) : FunctionDecl → Tracked Unit
  | ⟨_, params, body⟩ => keepingFunction do
    setFunction kind
    inScope .empty do
      step fun _ => parameters params
      stmts body

def methods : List FunctionDecl → Tracked Unit
  | [] => pure ()
  | decl :: decls => do
    function (methodKind decl.name) decl
    methods decls

end

end Tracked

/-! ## The fragments of a program -/

namespace Fragment

mutual

/-- The fragments of an expression, in the order in which the resolver is through with them. -/
def ofExpr (waiting : Option String) : Expr → List Fragment
  | e@(.assign _ _ inner) | e@(.get _ inner _) | e@(.grouping _ inner) | e@(.unary _ _ inner) =>
    ofExpr waiting inner ++ [.expr waiting e]
  | e@(.binary _ first _ second) | e@(.logical _ first _ second) | e@(.set _ second _ first) =>
    (ofExpr waiting first ++ ofExpr waiting second) ++ [.expr waiting e]
  | e@(.call _ callee _ arguments) =>
    (ofExpr waiting callee ++ ofExprs waiting arguments) ++ [.expr waiting e]
  | e@(.literal ..) | e@(.super ..) | e@(.this ..) | e@(.variable _) => [.expr waiting e]

def ofExprs (waiting : Option String) : List Expr → List Fragment
  | [] => []
  | e :: es => ofExpr waiting e ++ ofExprs waiting es

end

mutual

def ofStmt : Stmt → List Fragment
  | st@(.block body) => ofStmts body ++ [.stmt st]
  | st@(.classDecl _ superclass decls) =>
    (superclass.toList.map (.expr none <| .variable ·) ++ ofMethods decls) ++ [.stmt st]
  | st@(.expression e) | st@(.print e) => ofExpr none e ++ [.stmt st]
  | st@(.function decl) => ofFunction decl ++ [.stmt st]
  | st@(.ifElse condition thenBranch none) =>
    (ofExpr none condition ++ ofStmt thenBranch) ++ [.stmt st]
  | st@(.ifElse condition thenBranch (some elseBranch)) =>
    (ofExpr none condition ++ (ofStmt thenBranch ++ ofStmt elseBranch)) ++ [.stmt st]
  | st@(.returnValue _ value) => ofExprs none value.toList ++ [.stmt st]
  | st@(.varDecl name initializer) =>
    ofExprs (some name.lexeme) initializer.toList ++ [.stmt st]
  | st@(.whileLoop condition body) => (ofExpr none condition ++ ofStmt body) ++ [.stmt st]

def ofStmts : List Stmt → List Fragment
  | [] => []
  | st :: ss => ofStmt st ++ ofStmts ss

def ofFunction : FunctionDecl → List Fragment
  | ⟨_, _, body⟩ => ofStmts body

def ofMethods : List FunctionDecl → List Fragment
  | [] => []
  | decl :: decls => ofFunction decl ++ ofMethods decls

end

/-- The walk over a fragment. -/
def walk (ctx : Context) : Fragment → Resolver Unit
  | .expr _ e => Resolver.expr ctx e
  | .stmt st => Resolver.stmt ctx st

/-- Which names are initialized when the resolver comes to a fragment, and when it is through. -/
def Fits (s : State) : Fragment → Prop
  | .expr waiting _ => s.Awaits waiting
  | .stmt _ => s.Settled

theorem tidy_walk (ctx : Context) : ∀ fragment : Fragment, Tidy (fragment.walk ctx)
  | .expr _ e => tidy.mild (Mild.expr ctx e)
  | .stmt st => tidy.stmt ctx st

end Fragment

/-- All is in order when the resolver comes to a fragment, and again when it is through with it. -/
structure Passage.Proper (v : Passage) : Prop where
  /-- The walk of the resolver leads from one end to the other. -/
  walk : v.behind.state = (v.fragment.walk v.before.toContext v.before.state).2
  context : v.behind.toContext = v.before.toContext
  grows : v.before.state.Grows v.behind.state
  before : v.fragment.Fits v.before.state
  behind : v.fragment.Fits v.behind.state

/-- From a state with `P`, the walk on record leads to one with `Q`, as `walk` does; it changes what
surrounds it to what `change` says, and comes to the given fragments. -/
def Tracks (P Q : State → Prop) (change : Context → Context) (tracked : Tracked Unit)
    (walk : Context → Resolver Unit) (fragments : List Fragment) : Prop :=
  ∀ t : Tracker, P t.walker.state → Q (walk t.walker.toContext t.walker.state).2 ∧
    ∃ passages : List Passage,
      (tracked t).2 = ⟨⟨change t.walker.toContext, (walk t.walker.toContext t.walker.state).2⟩,
        t.passages ++ passages⟩ ∧
      passages.map Passage.fragment = fragments ∧ ∀ v ∈ passages, v.Proper

namespace Tracks

variable {P Q R : State → Prop} {change : Context → Context} {tracked rest : Tracked Unit}
  {walk walk' : Context → Resolver Unit} {fragments fragments' : List Fragment}

theorem nothing : Tracks P P id (pure ()) (fun _ => pure ()) [] := fun t ht =>
  ⟨ht, [], by rw [List.append_nil]; rfl, rfl, fun _ hv => (nomatch hv)⟩

/-- A walk of the resolver that meets no fragment leaves no record. -/
theorem step (h : ∀ ctx s, P s → Q (walk ctx s).2) :
    Tracks P Q id (Tracked.step walk) walk [] := fun t ht =>
  ⟨h _ _ ht, [], by rw [List.append_nil]; rfl, rfl, fun _ hv => (nomatch hv)⟩

/-- What two walks record is recorded of both, in their order. -/
theorem bind (h : Tracks P Q id tracked walk fragments)
    (h' : Tracks Q R change rest walk' fragments') :
    Tracks P R change (tracked >>= fun _ => rest) (fun ctx => walk ctx >>= fun _ => walk' ctx)
      (fragments ++ fragments') := by
  intro t ht
  rcases h t ht with ⟨hQ, passages, heq, hfragments, hproper⟩
  -- The second walk goes on behind the first one, whose passages are on record by then.
  rcases h' (tracked t).2 (by rw [heq]; exact hQ) with ⟨hR, passages', heq', hfragments', hproper'⟩
  rw [heq] at hR heq'
  refine ⟨hR, passages ++ passages', ?_, ?_, List.forall_mem_append.2 ⟨hproper, hproper'⟩⟩
  · change (rest (tracked t).2).2 = _
    rw [heq, heq', List.append_assoc]
    rfl
  · rw [List.map_append, hfragments, hfragments']

/-- A step before a walk. -/
theorem stepThen (h : ∀ ctx s, P s → Q (walk ctx s).2)
    (h' : Tracks Q R change rest walk' fragments) :
    Tracks P R change (Tracked.step walk >>= fun _ => rest)
      (fun ctx => walk ctx >>= fun _ => walk' ctx) fragments :=
  (step h).bind h'

/-- A step behind a walk. -/
theorem thenStep (h : Tracks P Q id tracked walk fragments)
    (h' : ∀ ctx s, Q s → R (walk' ctx s).2) :
    Tracks P R id (tracked >>= fun _ => Tracked.step walk')
      (fun ctx => walk ctx >>= fun _ => walk' ctx) fragments := by
  have hboth := h.bind (step h')
  rwa [List.append_nil] at hboth

/-- A walk that is put right again may come first, and leaves the surroundings as they were. -/
theorem tidyThen (h : ∀ ctx, Tidy (walk ctx))
    (h' : Tracks State.Settled R change rest walk' fragments) :
    Tracks State.Settled R change (Tracked.step walk >>= fun _ => rest)
      (fun ctx => walk ctx >>= fun _ => walk' ctx) fragments :=
  stepThen (fun ctx _ hs => (h ctx).settled hs) h'

/-- A walk in a scope in which every name is initialized. -/
theorem inScope {scope : Scope} (h : Tracks State.Settled State.Settled id tracked walk fragments)
    (hscope : ∀ x, scope.get? x ≠ some false) :
    Tracks State.Settled State.Settled id (Tracked.inScope scope tracked)
      (fun ctx => Resolver.inScope scope (walk ctx)) fragments := by
  have hpush : ∀ (_ : Context) (s : State), s.Settled → (push scope s).2.Settled :=
    fun _ _ hs => settled_push hs hscope
  have hpop : ∀ (_ : Context) (s : State), s.Settled → (pop s).2.Settled :=
    fun _ _ hs => settled_pop hs
  exact stepThen hpush (h.thenStep hpop)

theorem weaken {P' Q' : State → Prop} (h : Tracks P Q change tracked walk fragments)
    (hP : ∀ s, P' s → P s) (hQ : ∀ s, Q s → Q' s) :
    Tracks P' Q' change tracked walk fragments := by
  intro t ht
  rcases h t (hP _ ht) with ⟨hQs, hpassages⟩
  exact ⟨hQ _ hQs, hpassages⟩

/-! ### What surrounds a walk -/

/-- From here on the walk is inside a function of some kind. -/
theorem setFunction (kind : FunctionKind) (h : Tracks P Q change tracked walk fragments) :
    Tracks P Q (fun ctx => change { ctx with function := kind })
      (Tracked.setFunction kind >>= fun _ => tracked)
      (fun ctx => walk { ctx with function := kind }) fragments :=
  fun t => h ⟨{ t.walker with function := kind }, t.passages⟩

theorem setClass (kind : ClassKind) (h : Tracks P Q change tracked walk fragments) :
    Tracks P Q (fun ctx => change { ctx with classKind := kind })
      (Tracked.setClass kind >>= fun _ => tracked)
      (fun ctx => walk { ctx with classKind := kind }) fragments :=
  fun t => h ⟨{ t.walker with classKind := kind }, t.passages⟩

/-- Behind a function the walk is back in whatever was around it. -/
theorem keepingFunction (h : Tracks P Q change tracked walk fragments)
    (hchange : ∀ ctx, (change ctx).classKind = ctx.classKind) :
    Tracks P Q id (Tracked.keepingFunction tracked) walk fragments := by
  intro t ht
  rcases h t ht with ⟨hQ, passages, heq, hpassages⟩
  refine ⟨hQ, passages, ?_, hpassages⟩
  change (Tracked.setFunction t.walker.function (tracked t).2).2 = _
  rw [heq]
  change (⟨⟨⟨t.walker.function, (change t.walker.toContext).classKind⟩, _⟩, _⟩ : Tracker) = _
  rw [hchange]
  rfl

theorem keepingClass (h : Tracks P Q change tracked walk fragments)
    (hchange : ∀ ctx, (change ctx).function = ctx.function) :
    Tracks P Q id (Tracked.keepingClass tracked) walk fragments := by
  intro t ht
  rcases h t ht with ⟨hQ, passages, heq, hpassages⟩
  refine ⟨hQ, passages, ?_, hpassages⟩
  change (Tracked.setClass t.walker.classKind (tracked t).2).2 = _
  rw [heq]
  change (⟨⟨⟨(change t.walker.toContext).function, t.walker.classKind⟩, _⟩, _⟩ : Tracker) = _
  rw [hchange]
  rfl

/-! ### Passages -/

/-- Behind the walk over a fragment its own passage is a proper one, too. -/
theorem passing (fragment : Fragment)
    (h : Tracks fragment.Fits fragment.Fits id tracked fragment.walk fragments) :
    Tracks fragment.Fits fragment.Fits id (Tracked.passing fragment tracked) fragment.walk
      (fragments ++ [fragment]) := by
  intro t ht
  rcases h t ht with ⟨hQ, passages, heq, hfragments, hproper⟩
  -- The passages of its parts are proper, and the one of the fragment itself comes last.
  have hthis : Passage.Proper ⟨fragment, t.walker, (tracked t).2.walker⟩ := by
    rw [heq]
    exact ⟨rfl, rfl, (fragment.tidy_walk _).grows _, ht, hQ⟩
  refine ⟨hQ, passages ++ [⟨fragment, t.walker, (tracked t).2.walker⟩], ?_, ?_, ?_⟩
  · change (⟨(tracked t).2.walker, (tracked t).2.passages ++ [_]⟩ : Tracker) = _
    rw [heq, List.append_assoc]
  · rw [List.map_append, hfragments]
    rfl
  · exact List.forall_mem_append.2 ⟨hproper, fun v hv => List.mem_singleton.1 hv ▸ hthis⟩

/-- An expression is passed from its beginning to its end, behind all that is in it. -/
theorem passingExpr {waiting : Option String} {e : Expr}
    (h : Tracks (·.Awaits waiting) (·.Awaits waiting) id tracked (Resolver.expr · e) fragments) :
    Tracks (·.Awaits waiting) (·.Awaits waiting) id (Tracked.passing (.expr waiting e) tracked)
      (Resolver.expr · e) (fragments ++ [.expr waiting e]) :=
  passing (.expr waiting e) h

theorem passingStmt {st : Stmt}
    (h : Tracks State.Settled State.Settled id tracked (Resolver.stmt · st) fragments) :
    Tracks State.Settled State.Settled id (Tracked.passing (.stmt st) tracked)
      (Resolver.stmt · st) (fragments ++ [.stmt st]) :=
  passing (.stmt st) h

/-- An expression that has no parts. -/
theorem leaf {waiting : Option String} {e : Expr}
    (h : Tracks (·.Awaits waiting) (·.Awaits waiting) id tracked (Resolver.expr · e) []) :
    Tracks (·.Awaits waiting) (·.Awaits waiting) id (Tracked.passing (.expr waiting e) tracked)
      (Resolver.expr · e) [.expr waiting e] :=
  passingExpr h

/-! ### Expressions -/

open Fragment

mutual

/-- By induction on the expression: every part is passed, and the awaited name is the same
throughout. -/
theorem expr (waiting : Option String) : ∀ e : Expr,
    Tracks (·.Awaits waiting) (·.Awaits waiting) id (Tracked.expr waiting e) (Resolver.expr · e)
      (ofExpr waiting e)
  | .assign ref _ value => by
      have hvalue := expr waiting value
      apply passingExpr
      exact hvalue.thenStep fun _ _ h => h.mild (Mild.link _ _)
  | .binary _ left _ right | .logical _ left _ right => by
      have hleft := expr waiting left
      apply passingExpr
      exact hleft.bind (expr waiting right)
  | .set _ object _ value => by
      -- The value comes first, as in the resolver.
      have hvalue := expr waiting value
      apply passingExpr
      exact hvalue.bind (expr waiting object)
  | .call _ callee _ arguments => by
      have hcallee := expr waiting callee
      apply passingExpr
      exact hcallee.bind (exprs waiting arguments)
  | .get _ e _ | .grouping _ e | .unary _ _ e => passingExpr (expr waiting e)
  | .literal _ _ => leaf nothing
  | .super _ _ _ => leaf (step fun _ _ h => h.mild (Mild.useSuper _ _ _))
  | .this _ _ => leaf (step fun _ _ h => h.mild (Mild.useThis _ _ _))
  | .variable _ => leaf (step fun _ _ h => h.mild (Mild.read _ _))

theorem exprs (waiting : Option String) : ∀ es : List Expr,
    Tracks (·.Awaits waiting) (·.Awaits waiting) id (Tracked.exprs waiting es)
      (Resolver.exprs · es) (ofExprs waiting es)
  | [] => nothing
  | e :: es => (expr waiting e).bind (exprs waiting es)

end

theorem expr? (waiting : Option String) : ∀ e : Option Expr,
    Tracks (·.Awaits waiting) (·.Awaits waiting) id (Tracked.expr? waiting e)
      (Resolver.expr? · e) (ofExprs waiting e.toList)
  | none => nothing
  | some e => by
      have h := expr waiting e
      rwa [← List.append_nil (ofExpr waiting e)] at h

/-- An expression that is no part of an initializer. -/
theorem plain (e : Expr) : Tracks State.Settled State.Settled id (Tracked.expr none e)
    (Resolver.expr · e) (ofExpr none e) :=
  (expr none e).weaken (fun _ h => h.awaits none) fun _ h => h.settled

theorem plain? (e : Option Expr) : Tracks State.Settled State.Settled id (Tracked.expr? none e)
    (Resolver.expr? · e) (ofExprs none e.toList) :=
  (expr? none e).weaken (fun _ h => h.awaits none) fun _ h => h.settled

/-- What a class inherits from is resolved as a part of the class already, which makes no difference
to a variable. -/
theorem superclass (name : Token) (ref : Reference)
    (h : Tracks State.Settled State.Settled id rest walk fragments) :
    Tracks State.Settled State.Settled (fun ctx => { ctx with classKind := .derived })
      (do
        Tracked.setClass .base
        Tracked.step fun _ => introduce name
        Tracked.step fun _ => checkInheritance name ref
        Tracked.setClass .derived
        Tracked.expr none (.variable ref)
        rest)
      (fun ctx => do
        introduce name
        checkInheritance name ref
        read ctx ref
        walk { ctx with classKind := .derived })
      (.expr none (.variable ref) :: fragments) := by
  have hread : ∀ (ctx : Context) (kind : ClassKind),
      Resolver.expr { ctx with classKind := kind } (.variable ref) = read ctx ref := fun _ _ => rfl
  -- From the inside out: the walk in the class of one kind is part of the one in the other.
  have hderived := ((plain (.variable ref)).bind h).setClass .derived
  have hcheck := tidyThen (fun _ => tidy.mild (Mild.checkInheritance name ref)) hderived
  have hclass := (tidyThen (fun _ => tidy.introduce name) hcheck).setClass .base
  simp only [hread] at hclass
  exact hclass

/-! ### Statements -/

-- What a statement declares is initialized again by its end, so that the next one is settled, too.
mutual

/-- By induction on the statement: no name is awaited before it or behind it. -/
theorem stmt : ∀ st : Stmt,
    Tracks State.Settled State.Settled id (Tracked.stmt st) (Resolver.stmt · st) (ofStmt st)
  | .block body => by
      have hbody := (stmts body).inScope settled_empty
      exact passingStmt hbody
  | .classDecl name none decls => by
      have hbody := (methods decls).inScope settled_thisScope
      have hclass := (tidyThen (fun _ => tidy.introduce name) hbody).setClass .base
      apply passingStmt
      exact keepingClass hclass fun _ => rfl
  | .classDecl name (some ref) decls => by
      have hbody := ((methods decls).inScope settled_thisScope).inScope settled_superScope
      have hclass := superclass name ref hbody
      apply passingStmt
      exact keepingClass hclass fun _ => rfl
  | .expression e | .print e => passingStmt (plain e)
  | .function decl => by
      have hbody := function .function decl
      apply passingStmt
      exact tidyThen (fun _ => tidy.introduce decl.name) hbody
  | .ifElse condition thenBranch none => by
      have hcondition := plain condition
      apply passingStmt
      exact hcondition.bind (stmt thenBranch)
  | .ifElse condition thenBranch (some elseBranch) => by
      have hcondition := plain condition
      have hbranches := (stmt thenBranch).bind (stmt elseBranch)
      apply passingStmt
      exact hcondition.bind hbranches
  | .returnValue keyword value => by
      have hvalue := plain? value
      apply passingStmt
      exact tidyThen (fun _ => tidy.mild (Mild.checkReturn _ keyword value)) hvalue
  | .varDecl name initializer => by
      -- Between the two steps the name is awaited, and only it.
      have hvalue := expr? (some name.lexeme) initializer
      have hready : ∀ s : State, s.Awaits (some name.lexeme) → (define name s).2.Settled :=
        fun _ h => settled_define h
      have hdefined := hvalue.thenStep fun _ => hready
      apply passingStmt
      exact stepThen (fun _ _ h => awaits_declare h name) hdefined
  | .whileLoop condition body => by
      have hcondition := plain condition
      apply passingStmt
      exact hcondition.bind (stmt body)

theorem stmts : ∀ ss : List Stmt,
    Tracks State.Settled State.Settled id (Tracked.stmts ss) (Resolver.stmts · ss) (ofStmts ss)
  | [] => nothing
  | st :: ss => (stmt st).bind (stmts ss)

theorem function (kind : FunctionKind) : ∀ decl : FunctionDecl,
    Tracks State.Settled State.Settled id (Tracked.function kind decl)
      (fun ctx => Resolver.function { ctx with function := kind } decl) (ofFunction decl)
  | ⟨_, params, body⟩ => by
      have hbody := tidyThen (fun _ => tidy.parameters params) (stmts body)
      have hinside := (hbody.inScope settled_empty).setFunction kind
      exact keepingFunction hinside fun _ => rfl

theorem methods : ∀ decls : List FunctionDecl,
    Tracks State.Settled State.Settled id (Tracked.methods decls) (Resolver.methods · decls)
      (ofMethods decls)
  | [] => nothing
  | decl :: decls => (function (methodKind decl.name) decl).bind (methods decls)

end

end Tracks

/-! ## Programs on record -/

/-- All that the resolver carries along and has come to, behind a program. -/
def track (statements : List Stmt) (knownGlobals : List String) : Tracker :=
  (Tracked.stmts statements ⟨⟨⟨.none, .none⟩, start knownGlobals⟩, []⟩).2

/-- When a walk begins, no name is being initialized. -/
theorem settled_start (knownGlobals : List String) : (start knownGlobals).Settled := by
  have hglobals : ∀ x, (Bindings.ofNames knownGlobals true).get? x ≠ some false := by
    intro x
    rw [Bindings.get?_ofNames]
    split <;> simp
  exact List.forall_mem_cons.2 ⟨hglobals, fun _ hscope => nomatch hscope⟩

/-- The resolver comes to every fragment of a program, with or without faults, and every passage is
a proper one. Behind the program it is in the state from which `resolve` takes the addresses and the
faults, and surrounded by no function and no class. -/
theorem passages_proper (statements : List Stmt) (knownGlobals : List String) :
    (track statements knownGlobals).walker =
        ⟨⟨.none, .none⟩, (stmts ⟨.none, .none⟩ statements (start knownGlobals)).2⟩ ∧
      (track statements knownGlobals).passages.map Passage.fragment =
        Fragment.ofStmts statements ∧
      ∀ v ∈ (track statements knownGlobals).passages, v.Proper := by
  rcases Tracks.stmts statements ⟨⟨⟨.none, .none⟩, start knownGlobals⟩, []⟩
    (settled_start knownGlobals) with ⟨-, passages, heq, hfragments, hproper⟩
  rw [track, heq, List.nil_append]
  exact ⟨rfl, hfragments, hproper⟩

/-- When the resolver comes to the read in `{ var a = nil; { var a = a; } }`, the inner `a` is
waiting for its initializer, and the outer one is not. -/
theorem passages_proper_shadowing :
    let a : Token := ⟨.identifier, "a", .nil, 1, 1⟩
    let read : Expr := .variable ⟨1, a⟩
    let statements : List Stmt :=
      [.block [.varDecl a (some (.literal 0 .nil)), .block [.varDecl a (some read)]]]
    ∃ v ∈ (track statements []).passages, v.Proper ∧ v.fragment = .expr (some "a") read ∧
      v.before.state.scopes.map (·.get? "a") = [some false, some true] := by
  intro a read statements
  have hpassages := passages_proper statements []
  have hlength : 2 < (track statements []).passages.length := by decide
  have hmem := List.getElem_mem hlength
  exact ⟨_, hmem, hpassages.2.2 _ hmem, rfl, rfl⟩

end Resolver

end LoxLang
