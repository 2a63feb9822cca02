import LoxLang.Proofs.Eval.Abreast
import LoxLang.Proofs.Eval.Methods
import LoxLang.Proofs.Eval.Tasks

/-!
# Loops with clauses

What a `for` means, without the `while` and the blocks that it is read as.

* `ForLoop` are the clauses and the body, and `ForLoop.stmt` is the statement that they are read as.
* `ForLoop.run` executes them directly, in one scope: the initializer once, and then in every turn
  the condition, the body and the increment.
* `abreast_forLoop`: the statement and the loop do the same. Of the scopes that the statement opens
  for its turns nothing can be seen.
* `Machine.Alongside` is how the two machines compare afterwards. Nothing that is run later tells
  them apart.
-/

namespace LoxLang

open Exec Layer

/-! ## Direct execution -/

/-- Takes turns while a condition holds, at most a given number of times. Where the body returns,
the increment is left out and the loop ends. -/
def Exec.cycle (condition : Exec Bool) (body : Exec Flow) (increment : Exec Unit) : Nat → Exec Flow
  | 0 => throw .unfinished
  | turns + 1 => do
    if ← condition then
      match ← body with
      | .next => do
        increment
        cycle condition body increment turns
      | .returned v => return .returned v
    else
      return .next

/-- The clauses and the body of a `for`. -/
structure ForLoop where
  initializer : Option Stmt
  condition : Option Expr
  increment : Option Expr
  body : Stmt
  /-- What stands in front declares a variable, or is an expression. -/
  simple : ∀ s ∈ initializer, (∃ name value, s = .varDecl name value) ∨ ∃ e, s = .expression e
  /-- A declaration is no body. -/
  plain : body.declared? = none

namespace ForLoop

/-- The statement that a `for` is read as. A condition that is left out is true, and gets a
number. -/
def stmt (l : ForLoop) (id : NodeId) : Stmt :=
  .forLoop l.initializer (l.condition.getD (.literal id (.bool true))) l.increment l.body

def start (ctx : Context) (run : Runner) (env : Env) (l : ForLoop) : Exec Unit :=
  match l.initializer with
  | none => pure ()
  | some s => do
    let _ ← exec ctx run env s

def holds (ctx : Context) (run : Runner) (env : Env) (l : ForLoop) : Exec Bool :=
  match l.condition with
  | none => pure true
  | some e => evalCondition ctx run env e

def advance (ctx : Context) (run : Runner) (env : Env) (l : ForLoop) : Exec Unit :=
  match l.increment with
  | none => pure ()
  | some e => do
    let _ ← eval ctx run env e

/-- Where the condition is evaluated: in the scope of the loop. Addresses count it if there is an
initializer; otherwise it binds nothing. -/
def head (env scope : Env) (l : ForLoop) : Env := if l.initializer.isSome then scope else env

/-- Where the body and the increment are run: in the scope of the loop as well. If there is an
increment, addresses count that scope once more. -/
def inside (head scope : Env) (l : ForLoop) : Env :=
  if l.increment.isSome then ⟨scope.frame, head.chain⟩ else head

/-- Executes a `for` in a scope of its own, which is opened once. -/
def run (ctx : Context) (runner : Runner) (env : Env) (l : ForLoop) : Exec Flow := do
  let scope ← enter env .empty
  l.start ctx runner scope
  let head := l.head env scope
  let inside := l.inside head scope
  cycle (l.holds ctx runner head) (exec ctx runner inside l.body) (l.advance ctx runner inside)
    ctx.host.maxTurns

end ForLoop

/-! ## Scopes on one side -/

section Sides

variable {A : Addresses} {ρ : Pairing} {α β : Type} {P : Pairing → α → β → Prop} {env env' : Env}

/-- A scope that is opened on the first side only. -/
theorem Abreast.enterLeft {f : Env → Exec α} {y : Exec β} (frame : Frame)
    (h : ∀ f', Abreast A ρ (f ⟨f', env.chain⟩) y P) : Abreast A ρ (enter env frame >>= f) y P :=
  fun _ _ hm => h _ _ _ { hm with store := hm.store.pushLeft frame }

/-- A scope that is opened on the second side only. -/
theorem Abreast.enterRight {x : Exec α} {g : Env → Exec β} (frame : Frame)
    (h : ∀ f', Abreast A ρ x (g ⟨f', env'.chain⟩) P) : Abreast A ρ x (enter env' frame >>= g) P :=
  fun _ _ hm => h _ _ _ { hm with store := hm.store.pushRight frame }

end Sides

/-! ## The statement and the loop -/

/-- A turn of the loop, as one action. -/
def Exec.turn (body : Exec Flow) (increment : Exec Unit) : Exec Flow := do
  match ← body with
  | .next => do
    increment
    return .next
  | .returned v => return .returned v

/-- What follows a turn sees whether the body has returned, and the increment only if it has not. -/
theorem Exec.turn_bind (body : Exec Flow) (increment : Exec Unit) (f : Flow → Exec Flow) :
    turn body increment >>= f = body >>= fun flow =>
      match flow with
      | .next => increment >>= fun _ => f .next
      | .returned v => f (.returned v) := by
  unfold turn
  rw [bind_assoc]
  refine congrArg (body >>= ·) (funext fun flow => ?_)
  cases flow with
  | next => simp only [bind_assoc, pure_bind]
  | returned v => simp only [pure_bind]

/-- By induction on the turns: the direct loop is the loop of its turns. -/
theorem Exec.cycle_eq_loop (condition : Exec Bool) (body : Exec Flow) (increment : Exec Unit)
    (turns : Nat) :
    cycle condition body increment turns = loop condition (turn body increment) turns := by
  induction turns with
  | zero => rfl
  | succ turns ih =>
      unfold cycle loop
      rw [turn_bind, ih]

namespace ForLoop

variable {A : Addresses} {ρ : Pairing} {ctx : Context} {runner : Runner} {env env' : Env}
  {Γ : List Layer} {l : ForLoop} {id : NodeId}

theorem execAll_singleton (s : Stmt) : execAll ctx runner env [s] = exec ctx runner env s := by
  unfold execAll
  refine Eq.trans (congrArg (exec ctx runner env s >>= ·) (funext fun flow => ?_)) (bind_pure _)
  cases flow with
  | next => rfl
  | returned v => rfl

/-- What the loop is read as, behind its initializer. -/
def whileLoop (l : ForLoop) (id : NodeId) : Stmt :=
  .whileLoop (l.condition.getD (.literal id (.bool true))) <|
    match l.increment with
    | some e => .block [l.body, .expression e]
    | none => l.body

/-- A `for` is read as a `while`, in a block of its own if it has an initializer. -/
theorem stmt_eq (l : ForLoop) (id : NodeId) : l.stmt id =
    match l.initializer with
    | some s => .block [s, l.whileLoop id]
    | none => l.whileLoop id := rfl

/-- The condition of the loop, whether it is there or not. -/
theorem abreast_holds (hrun : runner.Abreast A) (hlinks : ∀ id, A.find id = ctx.links[id]?)
    (henv : Parallel ρ env.chain env'.chain Γ) (h : (l.whileLoop id).Linked A Γ) :
    Abreast A ρ (evalCondition ctx runner env (l.condition.getD (.literal id (.bool true))))
      (l.holds ctx runner env') Abreast.Equal := by
  have hcondition := h.1
  unfold holds
  cases hgiven : l.condition with
  | none => exact .pure rfl
  | some e =>
      rw [hgiven] at hcondition
      exact abreast_evalCondition hrun hlinks henv hcondition

/-- A turn of the loop. Where there is an increment, the statement opens a scope for it, in which
nothing is declared. -/
theorem abreast_turn (hrun : runner.Abreast A) (hlinks : ∀ id, A.find id = ctx.links[id]?)
    {env env' scope : Env} (henv : Parallel ρ env.chain env'.chain Γ)
    (h : (l.whileLoop id).Linked A Γ) :
    Abreast A ρ
      (exec ctx runner env (match l.increment with
        | some e => .block [l.body, .expression e]
        | none => l.body))
      (turn (exec ctx runner (l.inside env' scope) l.body)
        (l.advance ctx runner (l.inside env' scope))) Abreast.Equal := by
  have hturn := h.2.1
  unfold inside advance
  cases hgiven : l.increment with
  | none =>
      rw [hgiven] at hturn
      rw [← bind_pure (exec ctx runner env l.body)]
      refine (abreast_exec hrun hlinks l.body henv (absurd l.plain) hturn).bind ?_
      rintro ρ₁ flow _ hle₁ rfl
      cases flow with
      | next => exact .pure rfl
      | returned v => exact .pure rfl
  | some e =>
      rw [hgiven] at hturn
      rcases hturn with ⟨hbody, hincrement, -⟩
      -- The body declares nothing, so the scope of the turn stays empty and is not paired.
      rw [Stmt.after_eq l.plain] at hincrement
      refine .enterLeft .empty fun f' => ?_
      have hinner : Parallel ρ (Env.chain ⟨f', env.chain⟩) (Env.chain ⟨scope.frame, env'.chain⟩)
          (.names [] :: Γ) := .spare henv
      refine (abreast_exec hrun hlinks l.body hinner (absurd l.plain) hbody).bind ?_
      rintro ρ₁ flow _ hle₁ rfl
      cases flow with
      | returned v => exact .pure rfl
      | next =>
          have hrest : Abreast A ρ₁ (exec ctx runner ⟨f', env.chain⟩ (.expression e))
              ((eval ctx runner ⟨scope.frame, env'.chain⟩ e >>= fun _ => pure ()) >>= fun _ =>
                pure Flow.next) Abreast.Equal := by
            unfold exec
            rw [bind_assoc]
            refine (abreast_eval hrun hlinks e (hinner.mono hle₁) (absurd rfl) hincrement).bind ?_
            rintro ρ₂ _ _ _ -
            exact .pure rfl
          rw [← execAll_singleton] at hrest
          exact hrest

/-- The turns of the loop, behind its initializer. -/
theorem abreast_whileLoop (hrun : runner.Abreast A) (hlinks : ∀ id, A.find id = ctx.links[id]?)
    {env env' scope : Env} (henv : Parallel ρ env.chain env'.chain Γ)
    (h : (l.whileLoop id).Linked A Γ) :
    Abreast A ρ (exec ctx runner env (l.whileLoop id))
      (cycle (l.holds ctx runner env') (exec ctx runner (l.inside env' scope) l.body)
        (l.advance ctx runner (l.inside env' scope)) ctx.host.maxTurns) Abreast.Equal := by
  rw [cycle_eq_loop]
  have hcondition : ∀ ρ', ρ ≤ ρ' → Abreast A ρ'
      (evalCondition ctx runner env (l.condition.getD (.literal id (.bool true))))
      (l.holds ctx runner env') Abreast.Equal :=
    fun ρ' hle => abreast_holds hrun hlinks (henv.mono hle) h
  have hbody : ∀ ρ', ρ ≤ ρ' → Abreast A ρ' (exec ctx runner env (match l.increment with
        | some e => .block [l.body, .expression e]
        | none => l.body))
      (turn (exec ctx runner (l.inside env' scope) l.body)
        (l.advance ctx runner (l.inside env' scope))) Abreast.Equal :=
    fun ρ' hle => abreast_turn hrun hlinks (henv.mono hle) h
  exact abreast_loop hcondition hbody ctx.host.maxTurns

/-- An initializer does not return. -/
theorem exec_initializer {s : Stmt}
    (h : (∃ name value, s = .varDecl name value) ∨ ∃ e, s = .expression e) (env : Env) :
    exec ctx runner env s = exec ctx runner env s >>= fun _ => pure .next := by
  rcases h with ⟨name, value, rfl⟩ | ⟨e, rfl⟩
  · simp only [exec, bind_assoc, pure_bind]
  · simp only [exec, bind_assoc, pure_bind]

/-- The statement that a `for` is read as does what the `for` means. -/
theorem abreast_stmt (hrun : runner.Abreast A) (hlinks : ∀ id, A.find id = ctx.links[id]?)
    (henv : Parallel ρ env.chain env'.chain Γ) (h : (l.stmt id).Linked A Γ) :
    Abreast A ρ (exec ctx runner env (l.stmt id)) (l.run ctx runner env') Abreast.Equal := by
  rw [stmt_eq] at h ⊢
  unfold run start
  cases hgiven : l.initializer with
  | none =>
      rw [hgiven] at h
      -- The statement opens no scope where there is nothing to declare.
      refine .enterRight .empty fun f' => ?_
      have hhead : l.head env' ⟨f', env'.chain⟩ = env' := by simp [head, hgiven]
      dsimp only
      rw [pure_bind, hhead]
      exact abreast_whileLoop hrun hlinks henv h
  | some s =>
      rw [hgiven] at h
      rcases h with ⟨hs, hloop, -⟩
      -- Both sides open a scope, and what the initializer declares is in it.
      refine (abreast_enter henv .empty (.names [])).bind ?_
      rintro ρ₁ scope scope' hle₁ ⟨hlead, hscope⟩
      have hhead : l.head env' scope' = scope' := by simp [head, hgiven]
      rw [hhead]
      unfold execAll
      rw [exec_initializer (l.simple s hgiven), bind_assoc, bind_assoc]
      refine (abreast_exec hrun hlinks s hscope (fun _ => hlead) hs).bind ?_
      rintro ρ₂ _ _ hle₂ -
      have hbehind : Parallel ρ₂ scope.chain scope'.chain (s.after (.names [] :: Γ)) :=
        (hscope.mono hle₂).after fun _ => hle₂ _ _ hlead
      rw [pure_bind, pure_bind, execAll_singleton]
      exact abreast_whileLoop hrun hlinks hbehind hloop

end ForLoop

/-! ## What is left behind -/

/-- Two ends for one reason, on machines that are related. -/
inductive Exec.SameEnd {α : Type} (R : Machine → Machine → Prop) :
    EStateM.Result Halt Machine α → EStateM.Result Halt Machine α → Prop where
  | ok {a : α} {m m' : Machine} : R m m' → SameEnd R (.ok a m) (.ok a m')
  | error {reason : Halt} {m m' : Machine} : R m m' → SameEnd R (.error reason m) (.error reason m')

/-- Two machines that have been one machine `m`, and differ only in the scopes that they have opened
since. -/
def Machine.Alongside (ctx : Context) (m n n' : Machine) : Prop :=
  ∃ A ρ, (∀ id, A.find id = ctx.links[id]?) ∧ m.store.itself ≤ ρ ∧ n.Reframed A ρ n'

/-- All that there is to be seen outside of the scopes that have been opened since some machine. -/
structure Machine.SameOutside (m n n' : Machine) : Prop where
  output : n'.output = n.output
  readings : n'.readings = n.readings
  frames : ∀ f < m.store.frames.size, n'.store.frame f = n.store.frame f
  objects : n'.objects = n.objects
  size_functions : n'.functions.size = n.functions.size
  functions : ∀ id, (n'.function id).decl = (n.function id).decl ∧
    (n'.function id).isInitializer = (n.function id).isInitializer
  size_classes : n'.classes.size = n.classes.size
  classes : ∀ c, (n'.classInfo c).name = (n.classInfo c).name ∧ n'.lineage c = n.lineage c
  methods : ∀ c x, (n'.findMethod? c x).map Closure.decl = (n.findMethod? c x).map Closure.decl

section Alongside

variable {ctx : Context} {m n n' : Machine}

/-- Two runs that end abreast end the same, as far as can be told from outside. -/
theorem EndsAbreast.sameEnd {α : Type} {A : Addresses} (hlinks : ∀ id, A.find id = ctx.links[id]?)
    {ρ : Pairing} (hle : m.store.itself ≤ ρ) {r r' : EStateM.Result Halt Machine α}
    (h : EndsAbreast A ρ Abreast.Equal r r') : SameEnd (Machine.Alongside ctx m) r r' := by
  cases h with
  | ok hle' hn hQ =>
      cases hQ
      exact .ok ⟨A, _, hlinks, le_trans hle hle', hn⟩
  | error hle' hn => exact .error ⟨A, _, hlinks, le_trans hle hle', hn⟩

namespace Machine.Alongside

/-- What has been alongside looks the same from outside. -/
theorem sameOutside (h : Machine.Alongside ctx m n n') : Machine.SameOutside m n n' := by
  rcases h with ⟨A, ρ, -, hle, hn⟩
  exact
    { output := hn.output
      readings := hn.readings
      frames := fun f hf => hn.store.frame_eq f f (hle f f ⟨rfl, hf⟩)
      objects := hn.objects
      size_functions := hn.size_functions
      functions := fun id => ⟨(hn.functions id).decl, (hn.functions id).isInitializer⟩
      size_classes := hn.size_classes
      classes := fun c => ⟨(hn.classes c).name, congrArg (c :: ·) (hn.classes c).ancestors⟩
      methods := by
        intro c x
        have hfind := hn.findMethod? c x
        generalize n.findMethod? c x = found at hfind
        generalize n'.findMethod? c x = found' at hfind
        cases hfind with
        | none => rfl
        | some hf => exact congrArg some hf.decl }

/-- Whatever is called later, it does the same on both machines. -/
theorem call (h : Machine.Alongside ctx m n n') (calls : Nat) (paren : Token) (callee : Value)
    (arguments : List Value) :
    SameEnd (Machine.Alongside ctx m) (LoxLang.call ctx (runBody ctx calls) paren callee arguments n)
      (LoxLang.call ctx (runBody ctx calls) paren callee arguments n') := by
  rcases h with ⟨A, ρ, hlinks, hle, hn⟩
  exact (abreast_call (runBody_abreast hlinks calls) paren callee arguments n n' hn).sameEnd hlinks
    hle

end Machine.Alongside

end Alongside

/-! ## Tasks -/

/-- What is asked of a `for` that a run comes to. -/
structure Task.Loops (ctx : Context) (l : ForLoop) (id : NodeId) (t : Task) : Prop where
  /-- The statement does what the loop means. -/
  same : SameEnd (Machine.Alongside ctx t.machine)
    (exec ctx (runBody ctx t.calls) t.env (l.stmt id) t.machine)
    (l.run ctx (runBody ctx t.calls) t.env t.machine)
  /-- One scope that is new holds what the initializer declares. In all turns, the condition, the
  body and the increment are run in it, -/
  shared : l.initializer.isSome = true → ∀ u, t.SameCall ctx u →
    u = t ∨ (t.machine.store.frames.size :: t.env.chain) <:+ u.env.chain
  /-- and so are the functions and the methods that are declared there. -/
  captured : l.initializer.isSome = true → ∀ u, t.SameCall ctx u →
    (∀ decl flow m', u.node = .stmt (.function decl) →
      exec ctx (runBody ctx u.calls) u.env (.function decl) u.machine = .ok flow m' →
      (t.machine.store.frames.size :: t.env.chain) <:+
        (m'.function u.machine.functions.size).env.chain) ∧
    ∀ name superclass decls flow m', u.node = .stmt (.classDecl name superclass decls) →
      exec ctx (runBody ctx u.calls) u.env (.classDecl name superclass decls) u.machine =
        .ok flow m' →
      ∀ x f, (m'.classInfo u.machine.classes.size).methods.get? x = some f →
        (t.machine.store.frames.size :: t.env.chain) <:+ f.env.chain
  /-- Behind the loop, nothing that it declares is in scope. -/
  hidden : (l.stmt id).declared? = none ∧ ∀ f ∈ t.env.chain, f < t.machine.store.frames.size

/-- What is asked of a `for` with statements behind it. -/
structure Task.LoopsFirst (ctx : Context) (l : ForLoop) (id : NodeId) (ss : List Stmt) (t : Task) :
    Prop where
  /-- The statements are run unless the loop returns. -/
  behind : SameEnd (Machine.Alongside ctx t.machine)
    (execAll ctx (runBody ctx t.calls) t.env (l.stmt id :: ss) t.machine)
    ((do match ← l.run ctx (runBody ctx t.calls) t.env with
      | .next => execAll ctx (runBody ctx t.calls) t.env ss
      | .returned v => return .returned v : Exec Flow) t.machine)
  /-- At the top level there is nothing to return from. -/
  topLevel : t.env = Machine.globals → SameEnd (Machine.Alongside ctx t.machine)
    (execTopLevel ctx (l.stmt id :: ss) t.machine)
    ((do
      let _ ← l.run ctx (runBody ctx ctx.host.maxCalls) Machine.globals
      execTopLevel ctx ss : Exec Unit) t.machine)

theorem ForLoop.declared?_stmt (l : ForLoop) (id : NodeId) : (l.stmt id).declared? = none := by
  rw [ForLoop.stmt_eq]
  cases l.initializer <;> rfl

namespace Task.Tracked

variable {V : Resolver.Visit → Prop} {A : Addresses} {ctx : Context} {t : Task}
  {self : Option String} {Γ : List Layer} {l : ForLoop} {id : NodeId}

/-- Without a call, whatever a block leads to is inside of a scope that it opens. -/
theorem chain_suffix_of_block {body : List Stmt} (hnode : t.node = .stmt (.block body)) {u : Task}
    (hu : t.SameCall ctx u) :
    u = t ∨ (t.machine.store.frames.size :: t.env.chain) <:+ u.env.chain := by
  rcases Relation.ReflTransGen.cases_head hu with rfl | ⟨v, hnext, hrest⟩
  · exact .inl rfl
  · refine .inr (List.IsSuffix.trans ?_ (Task.SameCall.chain_suffix hrest))
    rcases t with ⟨n, env, node, m⟩
    cases hnode
    cases hnext.1 with
    | block henter =>
        cases henter
        exact List.suffix_rfl

/-- A `for` that a run comes to does what the direct loop does. -/
theorem loops (hF : Follow ctx V A) (h : t.Tracked V A self Γ) (hnode : t.node = .stmt (l.stmt id)) :
    t.Loops ctx l id := by
  have hblock : l.initializer.isSome = true → ∃ body, t.node = .stmt (.block body) := by
    intro hinit
    rw [hnode, ForLoop.stmt_eq]
    rcases Option.isSome_iff_exists.1 hinit with ⟨s, hs⟩
    rw [hs]
    exact ⟨_, rfl⟩
  have hlinked := h.linked
  rw [hnode] at hlinked
  -- Both forms of the loop start in the same frames and stay abreast.
  have hsame := ForLoop.abreast_stmt (runBody_abreast hF.links t.calls) hF.links (.itself h.chain)
    hlinked t.machine t.machine (.itself h.sound)
  refine ⟨hsame.sameEnd hF.links le_rfl, ?_, ?_, l.declared?_stmt id, h.chain.lt_size_of_mem⟩
  · intro hinit u hu
    rcases hblock hinit with ⟨body, hbody⟩
    exact chain_suffix_of_block hbody hu
  · intro hinit u hu
    rcases hblock hinit with ⟨body, hbody⟩
    -- what is declared inside the block stands in the frame of the block, or further in
    have hinside : ∀ s, s.declared? ≠ none → u.node = .stmt s →
        (t.machine.store.frames.size :: t.env.chain) <:+ u.env.chain := by
      intro s hs hnode'
      rcases chain_suffix_of_block hbody hu with rfl | hsuffix
      · rw [hbody] at hnode'
        cases hnode'
        exact absurd rfl hs
      · exact hsuffix
    refine ⟨?_, ?_⟩
    · intro decl flow m' hdecl hrun
      rw [Machine.function_declared hrun]
      exact hinside _ (by simp [Stmt.declared?]) hdecl
    · intro name superclass decls flow m' hdecl hrun x f hf
      exact (hinside _ (by simp [Stmt.declared?]) hdecl).trans (Machine.methods_declared hrun hf)

/-- The same where statements follow the loop. -/
theorem loopsFirst (hF : Follow ctx V A) (h : t.Tracked V A self Γ) {ss : List Stmt}
    (hnode : t.node = .stmts (l.stmt id :: ss)) : t.LoopsFirst ctx l id ss := by
  have hlinked := h.linked
  rw [hnode] at hlinked
  rcases hlinked with ⟨hloop, hss⟩
  -- The statements behind the loop are run in step with themselves, in a scope and at the top
  -- level.
  refine ⟨?_, fun hglobals => ?_⟩
  · have hchain : Parallel t.machine.store.itself t.env.chain t.env.chain Γ := .itself h.chain
    have hbehind : Abreast A t.machine.store.itself
        (execAll ctx (runBody ctx t.calls) t.env (l.stmt id :: ss))
        (do match ← l.run ctx (runBody ctx t.calls) t.env with
          | .next => execAll ctx (runBody ctx t.calls) t.env ss
          | .returned v => return .returned v) Abreast.Equal := by
      have hrun : (runBody ctx t.calls).Abreast A := runBody_abreast hF.links t.calls
      refine (ForLoop.abreast_stmt hrun hF.links hchain hloop).bind ?_
      rintro ρ flow _ hle rfl
      have hlead := hle _ _ ⟨rfl, h.chain.lt_size⟩
      cases flow with
      | next =>
          exact abreast_execAll hrun hF.links ss ((hchain.mono hle).after fun _ => hlead) hlead hss
      | returned v => exact .pure rfl
    exact (hbehind t.machine t.machine (.itself h.sound)).sameEnd hF.links le_rfl
  · obtain rfl := h.chain.eq_nil (congrArg Env.frame hglobals)
    rw [Stmt.after_nil] at hss
    have hbehind : Abreast A t.machine.store.itself (execTopLevel ctx (l.stmt id :: ss))
        (do
          let _ ← l.run ctx (runBody ctx ctx.host.maxCalls) Machine.globals
          execTopLevel ctx ss) Abreast.Equal := by
      refine (ForLoop.abreast_stmt (runBody_abreast hF.links _) hF.links .top hloop).bind ?_
      rintro ρ _ _ hle -
      exact abreast_topLevel hF.links ss (hle _ _ ⟨rfl, h.sound.globals.lt_size⟩) hss
    exact (hbehind t.machine t.machine (.itself h.sound)).sameEnd hF.links le_rfl

end Task.Tracked

end LoxLang
