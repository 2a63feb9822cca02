import LoxLang.Proofs.Eval.Bound
import LoxLang.Proofs.Eval.Tasks

/-!
# What a task does to the globals

Running a part of a program binds a global name only where a declaration of that name stands at the
top level.

* `Node.declared` are the names that the statements of a node declare themselves, not inside of
  them.
* `Task.behind` is the machine that a task leaves behind.
* `Task.Tracked.behind_sound`: a tracked task makes no globals but the names that are declared so,
  and these only if it stands at the top level. That it unbinds none is `Task.behind_grows`.
-/

namespace LoxLang

open Exec Layer Resolver

/-- The names that the statements of a node declare. -/
def Node.declared : Node → List String
  | .stmt st => st.declared?.toList
  | .stmts ss => ss.filterMap Stmt.declared?
  | _ => []

/-- The machine that a task leaves behind, however it ends. A declaration of a function is not run
by itself. -/
def Task.behind (ctx : LoxLang.Context) (t : Task) : Machine :=
  match t.node with
  | .expr e => final (eval ctx (runBody ctx t.calls) t.env e t.machine)
  | .exprs es => final (evalAll ctx (runBody ctx t.calls) t.env es t.machine)
  | .stmt st => final (exec ctx (runBody ctx t.calls) t.env st t.machine)
  | .stmts ss => final (execAll ctx (runBody ctx t.calls) t.env ss t.machine)
  | .superclass _ ref => final (superclassOf ctx t.env (some ref) t.machine)
  | .function _ | .methods _ => t.machine

/-- A task only adds to the output, and unbinds nothing, however it ends. -/
theorem Task.behind_grows (ctx : LoxLang.Context) (t : Task) : t.machine.Grows (t.behind ctx) := by
  have hrun := runBody_grows ctx ctx.host.maxCalls t.calls
  rcases t with ⟨calls, env, node, m⟩
  cases node with
  | expr e => exact (outlasts_eval ctx ctx.host.maxCalls hrun env e).grows m
  | exprs es => exact (outlasts_evalAll ctx ctx.host.maxCalls hrun env es).grows m
  | stmt st => exact (outlasts_exec ctx ctx.host.maxCalls hrun env st).grows m
  | stmts ss => exact (outlasts_execAll ctx ctx.host.maxCalls hrun env ss).grows m
  | superclass _ ref => exact (outlasts_superclassOf ctx env (some ref)).grows m
  | function _ | methods _ => exact .refl m

/-! ## Names that become global -/

/-- An action that behaves leaves a sound machine behind, also where it fails. -/
theorem Behaves.final_sound {α : Type} {A : Addresses} {G : String → Prop} {m : Machine}
    {x : Exec α} {Q : α → Machine → Prop} (h : Behaves A G m x Q) : (final (x m)).Sound A G := by
  unfold Behaves at h
  generalize x m = r at h
  cases r with
  | ok _ m' => exact h.1
  | error _ m' => exact h.1

/-- Only at the top level there are no layers. -/
theorem Matches.env_eq {store : Store} {env : Env} (h : Matches store env.chain []) :
    env = Machine.globals := by
  rcases env with ⟨f, enclosing⟩
  cases h
  rfl

/-- Statements at the top level and elsewhere. -/
theorem behaves_statements {A : Addresses} {G : String → Prop} {ctx : LoxLang.Context}
    {run : Runner} {env : Env} (hrun : Runner.Safe A G run)
    (hlinks : ∀ id, A.find id = ctx.links[id]?) : ∀ (ss : List Stmt) {Γ : List Layer} {m : Machine},
    m.Sound A G → Matches m.store env.chain Γ → Stmt.AllLinked A Γ ss →
    (Γ = [] → ∀ x ∈ ss.filterMap Stmt.declared?, G x) →
    Behaves A G m (execAll ctx run env ss) fun _ _ => True
  | [], _, _, hm, _, _, _ => .pure hm trivial
  | st :: ss, Γ, m, hm, henv, ⟨hst, hss⟩, hG => by
      have hmay : st.MayDeclare G Γ := fun hΓ x hx =>
        hG hΓ x (List.mem_filterMap.2 ⟨st, List.mem_cons_self, hx⟩)
      refine (behaves_exec hrun hlinks st hm henv hst hmay).bind ?_
      intro flow m₁ hm₁ _ hflow
      cases flow with
      | returned v => exact .pure hm₁ trivial
      | next =>
          refine behaves_statements hrun hlinks ss hm₁ (hflow.layers rfl) hss ?_
          intro hnil x hx
          -- Where there are no layers behind a statement, there were none in front of it.
          have hΓ : Γ = [] := Decidable.byContradiction fun hne => st.after_ne_nil hne hnil
          rcases List.mem_filterMap.1 hx with ⟨st', hst', hx'⟩
          exact hG hΓ x (List.mem_filterMap.2 ⟨st', List.mem_cons_of_mem _ hst', hx'⟩)

namespace Task.Tracked

variable {ctx : LoxLang.Context} {V : Visit → Prop} {A : Addresses} {t : Task}
  {self : Option String} {Γ : List Layer} {G : String → Prop}

/-- If the names that are global already may be, and at the top level those that a task declares,
then only such names are global behind it. -/
theorem behind_sound (hF : Follow ctx V A) (h : t.Tracked V A self Γ)
    (hnow : ∀ x, t.machine.globalFrame.contains x = true → G x)
    (hown : t.env = Machine.globals → ∀ x ∈ t.node.declared, G x) : (t.behind ctx).Sound A G := by
  -- Of all that is known of a tracked machine, only the names depend on what may be global.
  have hm : t.machine.Sound A G :=
    ⟨h.sound.globals, hnow, h.sound.functions, h.sound.methods⟩
  have hdeclared : Γ = [] → ∀ x ∈ t.node.declared, G x := by
    rintro rfl
    exact hown h.chain.env_eq
  have hrun : Runner.Safe A G (runBody ctx t.calls) := runBody_safe hF.links t.calls
  rcases h.seen with ⟨_, _, _, hclear⟩
  rcases t with ⟨calls, env, node, m⟩
  have hlinked := h.linked
  cases node with
  | expr e => exact (behaves_eval hrun hF.links hclear.ne_nil e hm h.chain hlinked).final_sound
  | exprs es =>
      exact (behaves_evalAll hrun hF.links hclear.ne_nil es hm h.chain hlinked).final_sound
  | stmt st =>
      have hmay : st.MayDeclare G Γ := fun hΓ x hx => hdeclared hΓ x (Option.mem_toList.2 hx)
      exact (behaves_exec hrun hF.links st hm h.chain hlinked hmay).final_sound
  | stmts ss => exact (behaves_statements hrun hF.links ss hm h.chain hlinked hdeclared).final_sound
  | superclass name ref =>
      have hlink : ∀ ref', some ref = some ref' →
          ctx.links[ref'.id]? = depth? ref'.name.lexeme Γ := by
        rintro _ ⟨⟩
        exact (hF.links ref.id).symm.trans hlinked.find_eq
      exact (behaves_superclassOf hm h.chain hlink).final_sound
  | function _ | methods _ => exact hm

/-- A tracked task makes no globals but those it declares at the top level, and unbinds none. -/
theorem behind_names (hF : Follow ctx V A) (h : t.Tracked V A self Γ) (x : String) :
    (x ∈ (t.behind ctx).globalFrame.names → x ∈ t.machine.globalFrame.names ∨
      t.env = Machine.globals ∧ x ∈ t.node.declared) ∧
    (x ∈ t.machine.globalFrame.names → x ∈ (t.behind ctx).globalFrame.names) := by
  simp only [← Bindings.contains_iff_mem_names]
  have hsound := h.behind_sound (G := fun x => t.machine.globalFrame.contains x = true ∨
    t.env = Machine.globals ∧ x ∈ t.node.declared) hF (fun _ hx => .inl hx)
    fun htop _ hx => .inr ⟨htop, hx⟩
  exact ⟨hsound.named x, (t.behind_grows ctx).names 0 x⟩

end Task.Tracked

end LoxLang
