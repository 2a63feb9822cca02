import LoxLang.Proofs.Eval.Receiver
import LoxLang.Proofs.Session.Globals
import LoxLang.Proofs.Session.Course

/-!
# Receivers in a session

`this` and `super` belong to the place in the text where they stand, and to the object that the
method around them has been taken from.

* `Machine.Valid.get_super`: to every method of a class with a superclass, `super` is that class.
* `Session.Acts` follows an object from where a method is taken from it, through functions that are
  declared in the method and called at any time later. `Session.Acts.receives`: all along, `this` is
  that object, and `super` what it is to the method.
* `Session.receivers_static` says of a session what becomes of `this` and `super`, in whatever its
  sources lead to.
-/

namespace LoxLang

open Exec

/-- To the methods of a class, `super` is the superclass of the class. -/
theorem Machine.Valid.get_super {m : Machine} (hm : m.Valid) {c d : ClassId}
    (h : m.superclass? c = some d) {x : String} {f : Closure}
    (hf : (m.classInfo c).methods.get? x = some f) :
    m.store.get f.env "super" = .ok (.classRef d) := by
  by_cases hc : c < m.classes.size
  · rcases hm.classes c hc with ⟨superclass, env, decls, hdeclares, -⟩
    rw [hdeclares.superclass?_eq] at h
    rw [hdeclares.methods] at hf
    rw [(methodTable_shaped hdeclares.shaped hf).2.1]
    exact Store.get_of_frame (hdeclares.super d h)
  · rw [superclass?, classInfo_of_le (Nat.le_of_not_lt hc)] at h
    cases h

namespace Session

/-! ## Activations -/

/-- A task that a session comes to in a source without static errors. -/
def Reaches (ctx : Context) (t : Task) : Prop :=
  ∃ history host source, ((after history).run host source).1.exit ≠ .staticError ∧
    (after history).context host source = ctx ∧ ((after history).task host source).Leads ctx t

mutual

/-- From a machine on, a function belongs to an object, and `super` means `s` to it. A method does
once it has been taken from the object, and what it declares does as well. -/
inductive Bound : Machine → FunctionId → ObjectId → Except RuntimeFault Value → Prop where
  | accessed {ctx : Context} {t : Task} {id : NodeId} {object : Expr} {name : Token} {o : ObjectId}
      {m m' : Machine} {method : Closure} {f : FunctionId} :
      Reaches ctx t → t.node = .expr (.get id object name) →
      eval ctx (runBody ctx t.calls) t.env object t.machine = .ok (.object o) m →
      (m.object o).fields.get? name.lexeme = none →
      m.findMethod? (m.object o).classId name.lexeme = some method →
      eval ctx (runBody ctx t.calls) t.env (.get id object name) t.machine =
        .ok (.function f) m' →
      Bound m' f o (m'.store.get method.env "super")
  | inherited {ctx : Context} {t : Task} {id : NodeId} {keyword name : Token} {c : ClassId}
      {o : ObjectId} {method : Closure} {f : FunctionId} {m' : Machine} :
      Reaches ctx t → t.node = .expr (.super id keyword name) →
      t.machine.store.get t.env "super" = .ok (.classRef c) →
      t.machine.store.get t.env "this" = .ok (.object o) →
      t.machine.findMethod? c name.lexeme = some method →
      eval ctx (runBody ctx t.calls) t.env (.super id keyword name) t.machine =
        .ok (.function f) m' →
      Bound m' f o (m'.store.get method.env "super")
  | declared {ctx : Context} {t : Task} {decl : FunctionDecl} {flow : Flow} {m' : Machine}
      {o : ObjectId} {s : Except RuntimeFault Value} :
      Acts ctx t o s → t.node = .stmt (.function decl) →
      exec ctx (runBody ctx t.calls) t.env (.function decl) t.machine = .ok flow m' →
      Bound m' t.machine.functions.size o s

/-- A task belongs to a call of such a function, or of an initializer for a new object. -/
inductive Acts : Context → Task → ObjectId → Except RuntimeFault Value → Prop where
  | called {ctx : Context} {n : Nat} {env inner : Env} {id : NodeId} {callee : Expr} {paren : Token}
      {arguments : List Expr} {m m₀ m₁ m₂ m₃ m₄ : Machine} {f : FunctionId} {vs : List Value}
      {closure : Closure} {frame : Frame} {o : ObjectId} {s : Except RuntimeFault Value} :
      Bound m₀ f o s → Reaches ctx ⟨n + 1, env, .expr (.call id callee paren arguments), m⟩ →
      eval ctx (runBody ctx (n + 1)) env callee m = .ok (.function f) m₁ →
      evalAll ctx (runBody ctx (n + 1)) env arguments m₁ = .ok vs m₂ → m₀.Evolves m₂ →
      Invokes (.function f) vs m₂ closure m₃ →
      bindParameters .empty closure.decl.params vs = .ok frame →
      Exec.enter closure.env frame m₃ = .ok inner m₄ → closure.decl.body ≠ [] →
      Acts ctx ⟨n, inner, .stmts closure.decl.body, m₄⟩ o s
  | constructed {ctx : Context} {n : Nat} {env inner : Env} {id : NodeId} {callee : Expr}
      {paren : Token} {arguments : List Expr} {m m₁ m₂ m₃ m₄ : Machine} {c : ClassId}
      {vs : List Value} {closure method : Closure} {frame : Frame} :
      Reaches ctx ⟨n + 1, env, .expr (.call id callee paren arguments), m⟩ →
      eval ctx (runBody ctx (n + 1)) env callee m = .ok (.classRef c) m₁ →
      evalAll ctx (runBody ctx (n + 1)) env arguments m₁ = .ok vs m₂ →
      m₂.initializer? c = some method → Invokes (.classRef c) vs m₂ closure m₃ →
      bindParameters .empty closure.decl.params vs = .ok frame →
      Exec.enter closure.env frame m₃ = .ok inner m₄ → closure.decl.body ≠ [] →
      Acts ctx ⟨n, inner, .stmts closure.decl.body, m₄⟩ m₂.objects.size
        (m₂.store.get method.env "super")
  /-- Blocks and statements up to the next call. -/
  | within {ctx : Context} {t u : Task} {o : ObjectId} {s : Except RuntimeFault Value} :
      Acts ctx t o s → t.Next ctx u → u.calls = t.calls → Acts ctx u o s

end

/-- What a session comes to, it comes to by single steps. -/
theorem Reaches.next {ctx : Context} {t u : Task} (h : Reaches ctx t) (hnext : t.Next ctx u) :
    Reaches ctx u := by
  rcases h with ⟨history, host, source, hclean, rfl, hleads⟩
  exact ⟨history, host, source, hclean, rfl, hleads.snoc hnext⟩

/-- By induction on the way: what is reached from a task with a receiver has the same one, or one of
its own. -/
theorem Reaches.receives {ctx : Context} {t : Task} (h : Reaches ctx t) : t.Receives ctx := by
  rcases h with ⟨history, host, source, hclean, rfl, hleads⟩
  rcases leads_tracked hclean hleads with ⟨A, own, Γ, hF, htracked⟩
  exact htracked.receives hF (task_course hleads).1

mutual

/-- A function that belongs to an object keeps it for ever. -/
theorem Bound.get {m : Machine} {f : FunctionId} {o : ObjectId} {s : Except RuntimeFault Value} :
    Bound m f o s → ∀ m', m.Evolves m' →
      m'.store.get (m'.function f).env "this" = .ok (.object o) ∧
        m'.store.get (m'.function f).env "super" = s
  | .accessed hreaches hnode hobject hfield hmethod hrun, m', hm' => by
      rcases hreaches.receives.accessed _ _ _ _ _ _ hnode hobject hfield hmethod with
        ⟨g, m'', hrun', hcarries⟩
      cases hrun.symm.trans hrun'
      rcases hcarries m' hm' with ⟨-, -, hthis, hsuper⟩
      exact ⟨hthis, hsuper⟩
  | .inherited hreaches hnode hclass hobject hmethod hrun, m', hm' => by
      rcases hreaches.receives.super _ _ _ hnode with ⟨c, o, hclass', hobject', -, hfound⟩
      cases hclass.symm.trans hclass'
      cases hobject.symm.trans hobject'
      rcases hfound _ hmethod with ⟨g, m'', hrun', hcarries⟩
      cases hrun.symm.trans hrun'
      rcases hcarries m' hm' with ⟨-, -, hthis, hsuper⟩
      exact ⟨hthis, hsuper⟩
  | .declared hacts hnode hrun, m', hm' => by
      -- The function sees what the task that declares it sees.
      rcases hacts.get with ⟨hreaches, hthis, hsuper⟩
      rcases hreaches.receives.declared _ _ _ hnode hrun m' hm' with ⟨hfunction, hsame⟩
      rw [hfunction]
      exact ⟨(hsame _ fun hx => hx.1 rfl).trans hthis, (hsame _ fun hx => hx.2 rfl).trans hsuper⟩

/-- Code that acts for an object finds it under `this`, and its superclass under `super`. -/
theorem Acts.get {ctx : Context} {t : Task} {o : ObjectId} {s : Except RuntimeFault Value} :
    Acts ctx t o s → Reaches ctx t ∧ t.machine.store.get t.env "this" = .ok (.object o) ∧
      t.machine.store.get t.env "super" = s
  | .called hbound hreaches hcallee harguments hevolves hinvokes hparams henter hbody => by
      -- What a call binds was bound before it, and the parameters do not hide it.
      have hnext := hreaches.next (.body hcallee harguments hinvokes hparams henter hbody)
      have hcalled := hreaches.receives.called _ _ _ _ rfl _ _ _ _ _ _ _ _ _ hcallee harguments
        hinvokes hparams henter
      rcases hbound.get _ hevolves with ⟨hthis, hsuper⟩
      cases hinvokes
      exact ⟨hnext, (hcalled _ fun hx => hx.1 rfl).trans hthis,
        (hcalled _ fun hx => hx.2 rfl).trans hsuper⟩
  | .constructed hreaches hcallee harguments hmethod hinvokes hparams henter hbody => by
      have hnext := hreaches.next (.body hcallee harguments hinvokes hparams henter hbody)
      have hcalled := hreaches.receives.called _ _ _ _ rfl _ _ _ _ _ _ _ _ _ hcallee harguments
        hinvokes hparams henter
      -- The initializer has been attached to the new object.
      rcases hreaches.receives.constructed _ _ _ _ rfl _ _ _ _ _ _ hcallee harguments hinvokes with
        ⟨method, hmethod', -, hthis, hsuper⟩
      cases hmethod.symm.trans hmethod'
      exact ⟨hnext, (hcalled _ fun hx => hx.1 rfl).trans hthis,
        (hcalled _ fun hx => hx.2 rfl).trans hsuper⟩
  | .within hacts hnext hcalls => by
      rcases hacts.get with ⟨hreaches, hthis, hsuper⟩
      -- Inside of one call, nothing has another receiver.
      have hsame := hreaches.receives.inside _ (.single ⟨hnext, hcalls⟩)
      exact ⟨hreaches.next hnext, (hsame _ fun hx => hx.1 rfl).trans hthis,
        (hsame _ fun hx => hx.2 rfl).trans hsuper⟩

end

/-- Wherever a call for an object has led to, `this` is the object. If the method that it was taken
for has the superclass `c`, then `super` looks a method up from `c` on, and binds it to the
object. -/
theorem Acts.receives {ctx : Context} {t : Task} {o : ObjectId} {s : Except RuntimeFault Value}
    (h : Acts ctx t o s) :
    (∀ id keyword, t.node = .expr (.this id keyword) →
      eval ctx (runBody ctx t.calls) t.env (.this id keyword) t.machine =
        .ok (.object o) t.machine) ∧
    ∀ id keyword (name : Token), t.node = .expr (.super id keyword name) →
      ∃ c, s = .ok (.classRef c) ∧
        let result := eval ctx (runBody ctx t.calls) t.env (.super id keyword name) t.machine
        ((∀ d ∈ t.machine.lineage c, (t.machine.classInfo d).methods.get? name.lexeme = none) ↔
          result = .error (.error ⟨.undefinedProperty name.lexeme, name⟩) t.machine) ∧
        ∀ method, t.machine.findMethod? c name.lexeme = some method →
          ∃ f m', result = .ok (.function f) m' ∧ m'.Carries f method o := by
  rcases h.get with ⟨hreaches, hthis, hsuper⟩
  refine ⟨fun id keyword hnode => ?_, fun id keyword name hnode => ?_⟩
  · rcases hreaches.receives.this id keyword hnode with ⟨o', hthis', heval⟩
    cases hthis.symm.trans hthis'
    exact heval
  · rcases hreaches.receives.super id keyword name hnode with ⟨c, o', hsuper', hthis', hfound⟩
    cases hthis.symm.trans hthis'
    exact ⟨c, hsuper.symm.trans hsuper', hfound⟩

/-! ## Sessions -/

/-- Whatever a source leads to, `this` and `super` mean there what they mean to the method around
it: the object that the method has been taken from, and the superclass of the class that declares
it. Nothing that is run later changes them. -/
theorem receivers_static (history : List (Host × String)) (host : Host) (source : String)
    (hclean : ((after history).run host source).1.exit ≠ .staticError) :
    let ctx := (after history).context host source
    (∀ t, ((after history).task host source).Leads ctx t →
      t.Receives ctx ∧ (after history).machine.Evolves t.machine) ∧
    (∀ m, Met history m → ∀ c d, m.superclass? c = some d → ∀ x f,
      (m.classInfo c).methods.get? x = some f → m.store.get f.env "super" = .ok (.classRef d)) ∧
    ∀ more f x, f < (after history).machine.store.frames.size → ¬ IsName x →
      ((after (history ++ more)).machine.store.frame f).get? x =
        ((after history).machine.store.frame f).get? x := by
  intro ctx
  refine ⟨fun t ht => ?_, fun m hm c d hd x f hf => hm.valid.get_super hd hf, ?_⟩
  · rcases leads_tracked hclean ht with ⟨A, own, Γ, hF, htracked⟩
    rcases task_course ht with ⟨hproper, hevolves, -⟩
    exact ⟨htracked.receives hF hproper, hevolves⟩
  · intro more f x hf hx
    exact (after_evolves history more).extends.fixed f x hf hx

/-- A function that is called after the method around it has returned. The method has been taken
from an object of a class that inherits it. -/
theorem receivers_static_escaped :
    let host : Host := .standard ⟨0⟩
    let classes := "class A \x7b m() \x7b return 1; \x7d \x7d " ++
      "class B < A \x7b m() \x7b return 2; \x7d " ++
      "get() \x7b fun f() \x7b return this.v + super.m(); \x7d return f; \x7d \x7d " ++
      "class C < B \x7b m() \x7b return 3; \x7d \x7d"
    let source := "var c = C(); var f = c.get(); c.v = 7; print f();"
    let s := after [(host, classes)]
    ((s.run host source).1.exit = .ok ∧ (s.run host source).1.output = ["8"]) ∧
      (∀ t, (s.task host source).Leads (s.context host source) t →
        t.Receives (s.context host source)) ∧
      ∃ f, (s.machine.classInfo 1).methods.get? "get" = some f ∧
        s.machine.store.get f.env "super" = .ok (.classRef 0) := by
  intro host classes source s
  have hrun : (s.run host source).1.exit = .ok ∧ (s.run host source).1.output = ["8"] := by
    decide +kernel
  -- `B` is the subclass of `A`, and `get` is a method of `B`
  have hclasses : s.machine.superclass? 1 = some 0 ∧
      ((s.machine.classInfo 1).methods.get? "get").isSome = true := by
    decide +kernel
  have hclean : (s.run host source).1.exit ≠ .staticError := by
    rw [hrun.1]
    decide
  rcases receivers_static [(host, classes)] host source hclean with ⟨hreceives, hsuper, -⟩
  rcases Option.isSome_iff_exists.1 hclasses.2 with ⟨f, hf⟩
  exact ⟨hrun, fun t ht => (hreceives t ht).1, f, hf, hsuper _ .between 1 0 hclasses.1 "get" f hf⟩

end Session

end LoxLang
