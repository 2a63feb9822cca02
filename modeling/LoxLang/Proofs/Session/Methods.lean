import LoxLang.Proofs.Eval.Methods
import LoxLang.Proofs.Session.Course

/-!
# Method lookup in a session

What a session can rely on when it looks up methods and fields, whatever it has run.

* `Machine.Orderly` is what holds of the classes and objects of every machine that a session comes
  to.
* `Session.lookup_orderly` says it of every session, and also what its class declarations make.
-/

namespace LoxLang

open Exec

/-- Methods are looked up along chains of older and older classes, and fields belong to one
object. -/
structure Machine.Orderly (m : Machine) : Prop where
  /-- A superclass has been there before, and stays the superclass. -/
  older : ∀ c d, m.superclass? c = some d → d < c
  acyclic : WellFounded fun d c => m.superclass? c = some d
  stays : ∀ m', m.Evolves m' → ∀ c < m.classes.size, m'.superclass? c = m.superclass? c ∧
    m'.classInfo c = m.classInfo c
  /-- The search for a method ends, with one result. -/
  search : ∀ c name r, m.Finds name c r ↔ m.findMethod? c name = r
  chain : ∀ c, m.lineage c = c :: (m.superclass? c).elim [] m.lineage
  nearest : ∀ c name f, m.findMethod? c name = some f ↔ ∃ nearer d further,
    m.lineage c = nearer ++ d :: further ∧ (m.classInfo d).methods.get? name = some f ∧
      ∀ e ∈ nearer, (m.classInfo e).methods.get? name = none
  missing : ∀ c name, m.findMethod? c name = none ↔
    ∀ d ∈ m.lineage c, (m.classInfo d).methods.get? name = none
  /-- A class has the last method of each name among those that were declared with it. -/
  declared : ∀ c < m.classes.size, ∃ (env : Env) (decls : List FunctionDecl), ∀ name,
    (m.classInfo c).methods.get? name =
      (decls.reverse.find? fun decl => decl.name.lexeme == name).map fun decl =>
        ⟨decl, env, name == "init"⟩
  /-- A property is the field of that name, or else the method, bound to the object. -/
  field : ∀ o (name : Token) v, (m.object o).fields.get? name.lexeme = some v →
    getProperty (.object o) name m = .ok v m
  method : ∀ o (name : Token) f, (m.object o).fields.get? name.lexeme = none →
    m.findMethod? (m.object o).classId name.lexeme = some f →
    ∃ id m', getProperty (.object o) name m = .ok (.function id) m' ∧ m'.Attaches id f o
  neither : ∀ o (name : Token), (m.object o).fields.get? name.lexeme = none →
    m.findMethod? (m.object o).classId name.lexeme = none →
    getProperty (.object o) name m = .error (.error ⟨.undefinedProperty name.lexeme, name⟩) m
  /-- A field is there exactly if it has been set on the object, and nothing but setting a field of
  the object changes its fields. -/
  set : ∀ o x v, (m.object o).fields.get? x = some v →
    ∃ m₁, Machine.start.Evolves m₁ ∧ o < m₁.objects.size ∧ (m₁.put o x v).Evolves m
  kept : ∀ o x v m', o < m.objects.size → (m.put o x v).Evolves m' →
    (m'.object o).fields.contains x = true
  changes : ∀ m', m.Update m' → ∀ o, (m'.object o).fields = (m.object o).fields ∨
    ∃ x v, o < m.objects.size ∧ m' = m.put o x v
  /-- Setting a field changes no other field, no other object, and nothing else. -/
  put : ∀ o x v, o < m.objects.size → setField o x v m = .ok () (m.put o x v) ∧
    (∀ y, ((m.put o x v).object o).fields.get? y =
      if x = y then some v else (m.object o).fields.get? y) ∧
    ((m.put o x v).object o).classId = (m.object o).classId ∧
    (∀ o', o' ≠ o → (m.put o x v).object o' = m.object o') ∧
    (m.put o x v).classes = m.classes

/-- What has evolved from the start is valid, and all that is said of methods and fields follows
from that. -/
theorem Machine.Evolves.orderly {m : Machine} (h : Machine.start.Evolves m) : m.Orderly := by
  have hm := Machine.start_valid.evolves h
  exact
    { older := fun c d hsuper => hm.superclass?_lt hsuper
      acyclic := hm.wellFounded
      stays := fun m' h' c hc => ⟨h'.extends.superclass?_eq hc, h'.extends.classes c hc⟩
      search := fun c name r => hm.finds_iff
      chain := hm.lineage_eq
      nearest := fun c name f => Machine.findMethod?_eq_some_iff
      missing := fun c name => Machine.findMethod?_eq_none_iff
      declared := by
        intro c hc
        rcases hm.classes c hc with ⟨_, env, decls, hdeclares, -⟩
        refine ⟨env, decls, fun name => ?_⟩
        rw [hdeclares.methods, methodTable_get?]
      field := by
        intro o name v hv
        rw [getProperty_object, hv]
      method := by
        intro o name f hfield hmethod
        refine ⟨_, _, ?_, Machine.attaches_attach m f o⟩
        rw [getProperty_object, hfield]
        exact methodOf_of_some hmethod
      neither := by
        intro o name hfield hmethod
        rw [getProperty_object, hfield]
        exact methodOf_of_none hmethod
      set := fun o x v hv => h.exists_put rfl hv
      -- a field that has been set once is there for good
      kept := by
        intro o x v m' ho h'
        refine h'.extends.fields o x ?_
        unfold Bindings.contains
        rw [Machine.get?_put ho, if_pos rfl]
        rfl
      changes := fun m' h' o => h'.fields_eq o
      -- setting a field changes that field of that object
      put := by
        intro o x v ho
        refine ⟨rfl, fun y => Machine.get?_put ho x y v, ?_,
          fun o' hne => Machine.object_put_of_ne hne x v, rfl⟩
        unfold Machine.put
        rw [Machine.object_modify, if_pos ⟨rfl, ho⟩] }

namespace Session

/-- However a session goes on, methods are found along chains of classes that end, and fields belong
to one object. A class has the superclass that its declaration has come upon, and the methods that
the declaration holds. -/
theorem lookup_orderly (history : List (Host × String)) :
    (∀ m, Met history m → m.Orderly) ∧
      ∀ host source, ((after history).run host source).1.exit ≠ .staticError →
        let ctx := (after history).context host source
        ∀ t, ((after history).task host source).Leads ctx t → ∀ name superclass decls flow m',
          t.node = .stmt (.classDecl name superclass decls) →
          exec ctx (runBody ctx t.calls) t.env (.classDecl name superclass decls) t.machine =
            .ok flow m' →
          let new := t.machine.classes.size
          ∃ c inner, superclassOf ctx t.env superclass t.machine = .ok c t.machine ∧
            m'.classes.size = new + 1 ∧ ∀ m'', m'.Evolves m'' → m''.superclass? new = c ∧
              ∀ x, (m''.classInfo new).methods.get? x =
                (decls.reverse.find? fun decl => decl.name.lexeme == x).map fun decl =>
                  ⟨decl, inner, x == "init"⟩ := by
  refine ⟨fun m hm => hm.evolves.orderly, ?_⟩
  intro host source _ ctx t _ name superclass decls flow m' _ hrun new
  rcases Halt.bind_eq_ok hrun with ⟨_, m₁, hdeclare, ⟨⟩⟩
  rcases declareClass_ok hdeclare with ⟨c, inner, hsuperclass, hclasses, -, -⟩
  refine ⟨c, inner, hsuperclass, by simp [hclasses, new], fun m'' h'' => ?_⟩
  rcases Machine.classInfo_declared hclasses h''.extends with ⟨hsuper, hmethods⟩
  refine ⟨hsuper, fun x => ?_⟩
  rw [hmethods, methodTable_get?]

/-- A class that inherits a method which its superclass declares twice. -/
theorem lookup_orderly_inherited :
    let host : Host := .standard ⟨0⟩
    let source := "class A \x7b m() \x7b \x7d m() \x7b \x7d \x7d class B < A \x7b \x7d " ++
      "var b = B(); b.n = true;"
    let m := (after [(host, source)]).machine
    ((start.run host source).1.exit = .ok ∧ m.superclass? 1 = some 0 ∧ (m.object 0).classId = 1) ∧
      (∃ f, m.Finds "m" 1 (some f) ∧ f.decl.name.col = 19) ∧
      (∃ m₁, Machine.start.Evolves m₁ ∧ 0 < m₁.objects.size ∧
        (m₁.put 0 "n" (.bool true)).Evolves m) ∧
      ∀ t, (start.task host source).Leads (start.context host source) t →
        ∀ decls m', t.node = .stmt (.classDecl ⟨.identifier, "A", .nil, 1, 7⟩ none decls) →
          exec (start.context host source) (runBody (start.context host source) t.calls) t.env
            (.classDecl ⟨.identifier, "A", .nil, 1, 7⟩ none decls) t.machine = .ok .next m' →
          m'.classes.size = t.machine.classes.size + 1 := by
  intro host source m
  -- What the program leaves behind, found by running it.
  have hok : (start.run host source).1.exit = .ok := by decide +kernel
  have hclean : (start.run host source).1.exit ≠ .staticError := by
    rw [hok]
    decide
  have hsuper : m.superclass? 1 = some 0 := by decide +kernel
  have hclass : (m.object 0).classId = 1 := by decide +kernel
  have hfield : (m.object 0).fields.get? "n" = some (.bool true) := by decide +kernel
  have hfind : (m.findMethod? 1 "m").map (·.decl.name.col) = some 19 := by decide +kernel
  have horderly := (lookup_orderly [(host, source)]).1 m .between
  rcases Option.map_eq_some_iff.1 hfind with ⟨f, hf, hcol⟩
  refine ⟨⟨hok, hsuper, hclass⟩, ⟨f, (horderly.search 1 "m" _).2 hf, hcol⟩,
    horderly.set 0 "n" _ hfield, ?_⟩
  -- A class that is declared is one more class.
  intro t ht decls m' hnode hrun
  rcases (lookup_orderly []).2 host source hclean t ht _ _ _ _ _ hnode hrun with
    ⟨_, _, -, hsize, -⟩
  exact hsize

end Session

end LoxLang
