import LoxLang.Proofs.Parsing.Shape
import LoxLang.Proofs.Scope.Continued
import LoxLang.Proofs.Scope.Places
import LoxLang.Proofs.Token.Spelling

/-!
# What a walk finds

A walk of the resolver over a part of a program enters the addresses and finds the faults of the
places of that part, each once, and nothing else.

* `Stands known σ s`: the state `s` is as it should be at a place with the surroundings `σ`.
* `Finds known ps s s'`: between `s` and `s'` the addresses of the places `ps` were entered, and
  their faults were recorded, or put off where a later declaration may help.
* `Walks known σ σ' walk ps`: from a state that stands at `σ`, `walk` leads to one that stands at
  `σ'`, and finds what there is to be found at `ps`. The walks of the resolver are followed with it,
  one lemma for each.
-/

namespace LoxLang

open Layer

/-! ## At one place -/

namespace Place

/-- The entry that a place makes in the table of addresses. -/
def link? : Place → Option (NodeId × Nat)
  | ⟨σ, .use e⟩ => (σ.address? e).map (e.id, ·)
  | _ => none

/-- A read that may turn out to be a misuse when all of the top level is known. -/
def putOff? (known : List String) : Place → Option Token
  | ⟨σ, .use (.variable ref)⟩ =>
    if σ.self = some ref.name.lexeme ∧ (σ.scopes ≠ [] ∧ σ.function ≠ .none) ∧
        σ.Unshadowing known [] ref.name.lexeme then some ref.name
    else none
  | _ => none

/-- A misuse that is certain when a place is reached. -/
def faultAtOnce? (known : List String) (p : Place) : Option StaticError :=
  if (p.putOff? known).isSome then none else p.fault? known []

end Place

namespace Resolver

/-! ## States and surroundings -/

/-- A scope declares what a layer declares, and one name may be waiting for its initializer. -/
def Waits (self : Option String) (scope : Scope) (l : Layer) : Prop :=
  ∀ x, scope.get? x =
    if self = some x then some false else if l.declares x then some true else none

/-- The scopes around a place. Only in the innermost one a name may be waiting. -/
inductive Faces (self : Option String) : List Scope → List Layer → Prop where
  | top : Faces self [] []
  | inside {scope : Scope} {scopes : List Scope} {l : Layer} {Γ : List Layer} :
      Waits self scope l → Shows scopes Γ → Faces self (scope :: scopes) (l :: Γ)

/-- A state at a place with the given surroundings. -/
structure Stands (known : List String) (σ : Surroundings) (s : State) : Prop where
  scopes : Faces σ.self s.scopes σ.scopes
  globals : ∀ x, s.globals.get? x =
    if x ∈ known ∨ x ∈ σ.globals then some true
    else if σ.scopes = [] ∧ σ.self = some x then some false else none

/-- A scope that awaits a name contains it beside those that are declared. -/
theorem Waits.contains {self : Option String} {scope : Scope} {l : Layer} (h : Waits self scope l)
    (x : String) : scope.contains x = (decide (self = some x) || l.declares x) := by
  rw [Bindings.contains, h x]
  by_cases hself : self = some x
  · simp [hself]
  · cases l.declares x <;> simp [hself]

/-- Either this is the top level, or there is an innermost scope. -/
theorem Faces.top_or_inside {self : Option String} {scopes : List Scope} {Γ : List Layer}
    (h : Faces self scopes Γ) : (scopes = [] ∧ Γ = []) ∨
      ∃ scope outer l Γ', scopes = scope :: outer ∧ Γ = l :: Γ' ∧ Waits self scope l ∧
        Shows outer Γ' := by
  cases h with
  | top => exact .inl ⟨rfl, rfl⟩
  | inside hscope hscopes => exact .inr ⟨_, _, _, _, rfl, rfl, hscope, hscopes⟩

theorem Faces.of_shows {scopes : List Scope} {Γ : List Layer} (h : Shows scopes Γ) :
    Faces none scopes Γ := by
  cases h with
  | nil => exact .top
  | cons hscope hscopes => exact .inside hscope hscopes

theorem Faces.shows {scopes : List Scope} {Γ : List Layer} (h : Faces none scopes Γ) :
    Shows scopes Γ := by
  cases h with
  | top => exact .nil
  | inside hscope hscopes => exact .cons hscope hscopes

/-- The name that is being initialized is found at distance zero; all others where they are
declared. -/
theorem Faces.distance?_eq {self : Option String} {scopes : List Scope} {Γ : List Layer}
    (h : Faces self scopes Γ) (x : String) :
    distance? x scopes = if Γ ≠ [] ∧ self = some x then some 0 else depth? x Γ := by
  cases h with
  | top => rfl
  | @inside scope scopes l Γ hscope hscopes =>
      rw [distance?_cons, depth?_cons, Resolver.distance?_eq hscopes, hscope.contains x]
      by_cases hself : self = some x <;> simp [hself]

/-! ## What is found between two states -/

/-- The table with more entries. -/
def enterAll (links : Links) (entries : List (NodeId × Nat)) : Links :=
  entries.foldl (fun links entry => links.insert entry.1 entry.2) links

/-- What is found at some places: their entries are made in some order, and their faults are
recorded or put off. -/
structure Finds (known : List String) (ps : List Place) (s s' : State) : Prop where
  links : ∃ entries, entries.Perm (ps.filterMap Place.link?) ∧
    s'.links = enterAll s.links entries
  errors : s'.errors.Perm (s.errors ++ ps.filterMap (Place.faultAtOnce? known))
  pending : s'.pending.Perm (s.pending ++ ps.filterMap (Place.putOff? known))

/-- Nothing is to be found at a place. -/
structure Silent (known : List String) (p : Place) : Prop where
  entry : p.link? = none
  putOff : p.putOff? known = none
  fault : p.fault? known [] = none

theorem Silent.faultAtOnce {known : List String} {p : Place} (h : Silent known p) :
    p.faultAtOnce? known = none := by
  simp [Place.faultAtOnce?, h.putOff, h.fault]

namespace Finds

variable {known : List String} {ps ps' : List Place} {s s' s'' : State}

/-- Nothing is found, whatever becomes of the scopes. -/
theorem nothing (hlinks : s'.links = s.links) (herrors : s'.errors = s.errors)
    (hpending : s'.pending = s.pending) : Finds known [] s s' :=
  ⟨⟨[], .nil, hlinks⟩, by simp [herrors], by simp [hpending]⟩

/-- Findings add up. -/
theorem append (h : Finds known ps s s') (h' : Finds known ps' s' s'') :
    Finds known (ps ++ ps') s s'' := by
  rcases h.links with ⟨entries, hentries, hlinks⟩
  rcases h'.links with ⟨entries', hentries', hlinks'⟩
  refine ⟨⟨entries ++ entries', ?_, ?_⟩, ?_, ?_⟩
  · rw [List.filterMap_append]
    exact hentries.append hentries'
  · rw [hlinks', hlinks, enterAll, enterAll, enterAll, List.foldl_append]
  · rw [List.filterMap_append, ← List.append_assoc]
    exact h'.errors.trans (h.errors.append_right _)
  · rw [List.filterMap_append, ← List.append_assoc]
    exact h'.pending.trans (h.pending.append_right _)

/-- The order of the places does not matter. -/
theorem perm (h : Finds known ps s s') (hperm : ps.Perm ps') : Finds known ps' s s' := by
  rcases h.links with ⟨entries, hentries, hlinks⟩
  refine ⟨⟨entries, hentries.trans (hperm.filterMap _), hlinks⟩, ?_, ?_⟩
  · exact h.errors.trans ((hperm.filterMap _).append_left _)
  · exact h.pending.trans ((hperm.filterMap _).append_left _)

/-- One place is found by one entry, one error or one read that is put off, or by nothing at all. -/
theorem single {p : Place} (hlinks : s'.links = enterAll s.links p.link?.toList)
    (herrors : s'.errors = s.errors ++ (p.faultAtOnce? known).toList)
    (hpending : s'.pending = s.pending ++ (p.putOff? known).toList) : Finds known [p] s s' := by
  have hone : ∀ {β : Type} (f : Place → Option β), [p].filterMap f = (f p).toList := by
    intro β f
    cases h : f p <;> simp [h]
  refine ⟨⟨p.link?.toList, .of_eq (hone _).symm, hlinks⟩, .of_eq ?_, .of_eq ?_⟩
  · rw [herrors, hone]
  · rw [hpending, hone]

/-- At a place without an address nothing is done but to report its misuse, if it is one. -/
theorem reported {p : Place} (hlink : p.link? = none) (hput : p.putOff? known = none)
    (h : s' = { s with errors := s.errors ++ (p.fault? known []).toList }) :
    Finds known [p] s s' := by
  have hfault : p.faultAtOnce? known = p.fault? known [] := by rw [Place.faultAtOnce?, hput]; rfl
  subst h
  refine .single (by rw [hlink]; rfl) (by rw [hfault]) ?_
  rw [hput]
  exact (List.append_nil _).symm

/-- A place without a name or a fault leaves the state as it is. -/
theorem silent {p : Place} (h : Silent known p) (s : State) : Finds known [p] s s :=
  single (by rw [h.entry]; rfl) (by rw [h.faultAtOnce]; simp) (by rw [h.putOff]; simp)

end Finds

/-- What a walk does from one place to another. -/
def Walks (known : List String) (σ σ' : Surroundings) (walk : Resolver Unit) (ps : List Place) :
    Prop :=
  ∀ s, Stands known σ s → Stands known σ' (walk s).2 ∧ Finds known ps s (walk s).2

namespace Walks

variable {known : List String} {σ σ' σ'' : Surroundings} {walk : Resolver Unit}
  {ps ps' : List Place}

theorem pure : Walks known σ σ (Pure.pure ()) [] := fun _ hs => ⟨hs, .nothing rfl rfl rfl⟩

/-- Two walks find what the first one finds and then what the second one finds. -/
theorem bind {rest : Unit → Resolver Unit} (h : Walks known σ σ' walk ps)
    (hrest : Walks known σ' σ'' (rest ()) ps') : Walks known σ σ'' (walk >>= rest) (ps ++ ps') := by
  intro s hs
  have hfirst := h s hs
  have hsecond := hrest (walk s).2 hfirst.1
  exact ⟨hsecond.1, hfirst.2.append hsecond.2⟩

/-- In what order the places are listed does not matter. -/
theorem perm (h : Walks known σ σ' walk ps) (hperm : ps.Perm ps') : Walks known σ σ' walk ps' :=
  fun s hs => ⟨(h s hs).1, (h s hs).2.perm hperm⟩

/-- A place where nothing is to be found. -/
theorem concat (h : Walks known σ σ' walk ps) {p : Place} (hp : Silent known p) :
    Walks known σ σ' walk (ps ++ [p]) :=
  fun s hs => ⟨(h s hs).1, (h s hs).2.append (Finds.silent hp _)⟩

/-- What the statements at hand are the body of makes no difference to a state. -/
theorem context (h : Walks known σ σ' walk ps) (c c' : Context) :
    Walks known { σ with toContext := c } { σ' with toContext := c' } walk ps := by
  intro s hs
  have hwalk := h s ⟨hs.scopes, hs.globals⟩
  exact ⟨⟨hwalk.1.scopes, hwalk.1.globals⟩, hwalk.2⟩

end Walks

/-! ## Single steps -/

/-- Where there is no fault, reporting it changes nothing. -/
theorem report_nothing (s : State) :
    { s with errors := s.errors ++ (none : Option StaticError).toList } = s :=
  congrArg (fun errors => { s with errors }) (List.append_nil _)

theorem link_run (id : NodeId) (name : String) (s : State) :
    (link id name s).2 =
      { s with links := enterAll s.links ((distance? name s.scopes).map (id, ·)).toList } := by
  change (record id (distance? name s.scopes) s).2 = _
  cases distance? name s.scopes <;> rfl

/-- At the top level a name is bound to a global, and only reading one that is not ready is at
fault. -/
theorem read_top {s : State} (ctx : Context) (ref : Reference) (h : s.scopes = []) :
    (read ctx ref s).2 = if s.globals.get? ref.name.lexeme = some false
      then { s with errors := s.errors ++ [.atToken (.resolve .readInOwnInitializer) ref.name] }
      else s := by
  rcases s with ⟨links, errors, scopes, globals, pending⟩
  cases h
  simp only [read, get_bind_run]
  split <;> rfl

/-- A read in its own initializer whose outer name is global is judged by what is known of that
global. -/
theorem linkShadowed_global {s : State} {outer : List Scope} (ctx : Context) (ref : Reference)
    (h : distance? ref.name.lexeme outer = none) :
    (linkShadowed ctx ref outer s).2 =
      if s.globals.get? ref.name.lexeme = some true then s
      else if ctx.function = .none then
        { s with errors := s.errors ++ [.atToken (.resolve .readInOwnInitializer) ref.name] }
      else { s with pending := s.pending ++ [ref.name] } := by
  unfold linkShadowed
  rw [h]
  change ((if s.globals.get? ref.name.lexeme = some true then _ else _ : Resolver Unit) s).2 = _
  split
  · rfl
  · split <;> rfl

/-! ## Expressions -/

theorem Stands.of_eq {known : List String} {σ : Surroundings} {s s' : State}
    (h : Stands known σ s) (hscopes : s'.scopes = s.scopes) (hglobals : s'.globals = s.globals) :
    Stands known σ s' :=
  ⟨hscopes ▸ h.scopes, hglobals ▸ h.globals⟩

/-- A walk that leaves scopes and globals alone is known by what it finds. -/
theorem Walks.of_mild {known : List String} {σ : Surroundings} {walk : Resolver Unit}
    {ps : List Place} (hmild : Mild walk)
    (h : ∀ s, Stands known σ s → Finds known ps s (walk s).2) : Walks known σ σ walk ps :=
  fun s hs => ⟨hs.of_eq (hmild.scopes s) (hmild.globals s), h s hs⟩

/-- Outside a class nothing declares `this`, and only a name has an initializer. -/
structure Proper (σ : Surroundings) : Prop where
  this : σ.classKind = .none → depth? "this" σ.scopes = none
  self : ∀ x, σ.self = some x → IsName x

section Expressions

variable {known : List String} {σ : Surroundings}

/-- What `this` and `super` mean is not hidden by a variable that waits for its initializer. -/
theorem Proper.distance?_eq (hσ : Proper σ) {s : State} (hs : Stands known σ s) {x : String}
    (hx : ¬ IsName x) : distance? x s.scopes = depth? x σ.scopes := by
  rw [hs.scopes.distance?_eq, if_neg]
  exact fun h => hx (hσ.self x h.2)

/-- An assignment is bound where its name is declared. -/
theorem walks_link_assign (id : NodeId) (name : Token) (value : Expr) :
    Walks known σ σ (link id name.lexeme) [⟨σ, .use (.assign id name value)⟩] := by
  refine .of_mild (Mild.link _ _) fun s hs => ?_
  rw [link_run, hs.scopes.distance?_eq]
  exact .single rfl (List.append_nil _).symm (List.append_nil _).symm

theorem walks_useThis (hσ : Proper σ) (id : NodeId) (keyword : Token) :
    Walks known σ σ (useThis σ.toContext id keyword) [⟨σ, .use (.this id keyword)⟩] := by
  refine .of_mild (Mild.useThis _ _ _) fun s hs => ?_
  by_cases hkind : σ.classKind = .none
  · have haddress : (⟨σ, .use (.this id keyword)⟩ : Place).link? = none := by
      simp [Place.link?, Surroundings.address?, hσ.this hkind]
    refine .reported haddress rfl ?_
    rw [useThis, Place.fault?, if_pos hkind, if_pos hkind]
    rfl
  · have hfault : (⟨σ, .use (.this id keyword)⟩ : Place).faultAtOnce? known = none := if_neg hkind
    unfold useThis
    rw [if_neg hkind, link_run, hσ.distance?_eq hs (by simp [IsName])]
    exact .single rfl (by simp [hfault]) (List.append_nil _).symm

theorem walks_useSuper (hσ : Proper σ) (id : NodeId) (keyword method : Token) :
    Walks known σ σ (useSuper σ.toContext id keyword) [⟨σ, .use (.super id keyword method)⟩] := by
  refine .of_mild (Mild.useSuper _ _ _) fun s hs => ?_
  have hcheck : (checkSuper σ.toContext keyword s).2 = { s with
      errors := s.errors ++
        ((⟨σ, .use (.super id keyword method)⟩ : Place).faultAtOnce? known).toList } := by
    simp only [checkSuper, Place.faultAtOnce?, Place.putOff?, Place.fault?, Option.isSome_none,
      Bool.false_eq_true, if_false]
    cases σ.classKind with
    | none => rfl
    | base => rfl
    | derived => exact (report_nothing s).symm
  -- Whatever the check has found, the keyword is linked like a name.
  have hrun : (useSuper σ.toContext id keyword s).2 =
      (link id "super" (checkSuper σ.toContext keyword s).2).2 := rfl
  rw [hrun, link_run, hcheck, hσ.distance?_eq hs (by simp [IsName])]
  exact .single rfl rfl (List.append_nil _).symm

/-- A read at the top level. -/
theorem finds_read_top (ref : Reference) {s : State} (hs : Stands known σ s)
    (hscopes : s.scopes = []) (hΓ : σ.scopes = []) :
    Finds known [⟨σ, .use (.variable ref)⟩] s (read σ.toContext ref s).2 := by
  have hglobals := hs.globals ref.name.lexeme
  have hlink : (⟨σ, .use (.variable ref)⟩ : Place).link? = none := by
    simp [Place.link?, Surroundings.address?, hΓ, depth?]
  have hput : (⟨σ, .use (.variable ref)⟩ : Place).putOff? known = none := by
    simp [Place.putOff?, hΓ]
  have hfault : (⟨σ, .use (.variable ref)⟩ : Place).fault? known [] =
      if s.globals.get? ref.name.lexeme = some false
        then some (.atToken (.resolve .readInOwnInitializer) ref.name) else none := by
    grind [Place.fault?, Surroundings.Unshadowing]
  refine .reported hlink hput ?_
  rw [read_top _ _ hscopes, hfault]
  split
  · rfl
  · exact (report_nothing s).symm

/-- A read of a local variable in its own initializer. -/
theorem finds_read_waiting (ref : Reference) {s : State} (hs : Stands known σ s)
    {outer : List Scope} {l : Layer} {Γ : List Layer} (hΓ : σ.scopes = l :: Γ)
    (houter : Shows outer Γ) (hself : σ.self = some ref.name.lexeme) :
    Finds known [⟨σ, .use (.variable ref)⟩] s (linkShadowed σ.toContext ref outer s).2 := by
  have hglobals := hs.globals ref.name.lexeme
  have hdistance := distance?_eq houter ref.name.lexeme
  have hentry : (⟨σ, .use (.variable ref)⟩ : Place).link? =
      (depth? ref.name.lexeme Γ).map fun d => (ref.id, d + 1) := by
    simp [Place.link?, Surroundings.address?, hself, hΓ, Expr.id]
    rfl
  have hunshadowing := Surroundings.unshadowing_nil_iff hΓ known ref.name.lexeme
  -- Either an outer scope has the name, or it is left to the top level.
  cases hdepth : depth? ref.name.lexeme Γ with
  | some d =>
      rw [hdepth] at hdistance hentry hunshadowing
      have hput : (⟨σ, .use (.variable ref)⟩ : Place).putOff? known = none := by
        simp [Place.putOff?, hunshadowing]
      have hfault : (⟨σ, .use (.variable ref)⟩ : Place).faultAtOnce? known = none := by
        simp [Place.faultAtOnce?, hput, Place.fault?, hunshadowing]
      rw [linkShadowed_some _ _ hdistance]
      exact .single (by rw [hentry]; rfl) (by rw [hfault]; exact (List.append_nil _).symm)
        (by rw [hput]; exact (List.append_nil _).symm)
  | none =>
      rw [hdepth] at hdistance hentry hunshadowing
      have hvalue : s.globals.get? ref.name.lexeme = some true ↔
          ref.name.lexeme ∈ known ∨ ref.name.lexeme ∈ σ.globals := by
        rw [hglobals]
        split <;> simp_all
      have hput : (⟨σ, .use (.variable ref)⟩ : Place).putOff? known =
          if σ.function ≠ .none ∧ ¬ (ref.name.lexeme ∈ known ∨ ref.name.lexeme ∈ σ.globals)
            then some ref.name else none := by
        grind [Place.putOff?]
      have hfault : (⟨σ, .use (.variable ref)⟩ : Place).faultAtOnce? known =
          if σ.function = .none ∧ ¬ (ref.name.lexeme ∈ known ∨ ref.name.lexeme ∈ σ.globals)
            then some (.atToken (.resolve .readInOwnInitializer) ref.name) else none := by
        grind [Place.faultAtOnce?, Place.fault?]
      rw [linkShadowed_global _ _ hdistance]
      simp only [← hvalue] at hput hfault
      by_cases hdeclared : s.globals.get? ref.name.lexeme = some true
      · simp only [hdeclared, not_true_eq_false, and_false, if_false, if_true] at hput hfault ⊢
        exact .single (by rw [hentry]; rfl) (by rw [hfault]; simp) (by rw [hput]; simp)
      · by_cases hfunction : σ.function = .none
        · simp only [hdeclared, hfunction, not_false_eq_true, and_true, if_true, if_false, ne_eq,
            not_true_eq_false] at hput hfault ⊢
          exact .single (by rw [hentry]; rfl) (by rw [hfault]; rfl) (by rw [hput]; simp)
        · simp only [hdeclared, hfunction, not_false_eq_true, and_true, if_true, if_false, ne_eq]
            at hput hfault ⊢
          exact .single (by rw [hentry]; rfl) (by rw [hfault]; simp) (by rw [hput]; rfl)

/-- A read of a local variable elsewhere. -/
theorem finds_read_local (ref : Reference) {s : State} (hs : Stands known σ s)
    (hself : σ.self ≠ some ref.name.lexeme) :
    Finds known [⟨σ, .use (.variable ref)⟩] s (link ref.id ref.name.lexeme s).2 := by
  rw [link_run, hs.scopes.distance?_eq]
  refine .single ?_ ?_ ?_
  · simp [Place.link?, Surroundings.address?, hself, Expr.id]
  · simp [Place.faultAtOnce?, Place.putOff?, Place.fault?, hself]
  · simp [Place.putOff?, hself]

/-- The three cases of a read: at the top level, in its own initializer, and anywhere else. -/
theorem walks_read (ref : Reference) :
    Walks known σ σ (read σ.toContext ref) [⟨σ, .use (.variable ref)⟩] := by
  refine .of_mild (Mild.read _ _) fun s hs => ?_
  rcases hs.scopes.top_or_inside with
    ⟨hscopes, hΓ⟩ | ⟨scope, outer, l, Γ, hscopes, hΓ, hscope, houter⟩
  · exact finds_read_top ref hs hscopes hΓ
  · have hname := hscope ref.name.lexeme
    by_cases hself : σ.self = some ref.name.lexeme
    · rw [if_pos hself] at hname
      rw [read_waiting _ _ hscopes hname]
      exact finds_read_waiting ref hs hΓ houter hself
    · rw [read_local _ _ hscopes (by rw [hname, if_neg hself]; split <;> simp)]
      exact finds_read_local ref hs hself

/-- An expression without a name of its own finds nothing. -/
theorem silent_use {e : Expr} (h : e.name? = none) : Silent known ⟨σ, .use e⟩ := by
  cases e with
  | assign | super | this | «variable» => cases h
  | _ => exact ⟨rfl, rfl, rfl⟩

/-- An expression that uses no name itself. -/
theorem Walks.node {walk : Resolver Unit} {e : Expr} (he : e.name? = none)
    (h : Walks known σ σ walk (e.parts.map fun part => ⟨σ, .use part⟩)) :
    Walks known σ σ walk (e.placed σ) := by
  rw [Expr.placed, Expr.nodes, List.map_append]
  exact h.concat (silent_use he)

mutual

/-- By induction on the expression: its walk finds its places. -/
theorem walks_expr (hσ : Proper σ) : ∀ e : Expr,
    Walks known σ σ (expr σ.toContext e) (e.placed σ)
  | .assign id name value => by
      have hplaced : (Expr.assign id name value).placed σ =
          value.placed σ ++ [⟨σ, .use (.assign id name value)⟩] := List.map_append
      rw [hplaced]
      exact (walks_expr hσ value).bind (walks_link_assign id name value)
  | .binary id left operator right => .node rfl <| by
      have hleft := walks_expr hσ left
      rw [Expr.parts, List.map_append]
      exact hleft.bind (walks_expr hσ right)
  | .logical id left operator right => .node rfl <| by
      have hleft := walks_expr hσ left
      rw [Expr.parts, List.map_append]
      exact hleft.bind (walks_expr hσ right)
  | .set id object name value => .node rfl <| by
      -- The value is looked at first, though it stands behind the object.
      have hvalue := walks_expr hσ value
      rw [Expr.parts, List.map_append]
      exact (hvalue.bind (walks_expr hσ object)).perm List.perm_append_comm
  | .call id callee paren arguments => .node rfl <| by
      have hcallee := walks_expr hσ callee
      rw [Expr.parts, List.map_append]
      exact hcallee.bind (walks_exprs hσ arguments)
  | .get id object name => .node rfl (walks_expr hσ object)
  | .grouping id inner => .node rfl (walks_expr hσ inner)
  | .unary id operator right => .node rfl (walks_expr hσ right)
  | .literal id value => .node rfl .pure
  | .super id keyword method => walks_useSuper hσ id keyword method
  | .this id keyword => walks_useThis hσ id keyword
  | .variable ref => walks_read ref

theorem walks_exprs (hσ : Proper σ) : ∀ es : List Expr,
    Walks known σ σ (exprs σ.toContext es) (Expr.allPlaced σ es)
  | [] => .pure
  | e :: es => by
      rw [Expr.allPlaced, Expr.allNodes, List.map_append]
      exact (walks_expr hσ e).bind (walks_exprs hσ es)

end

theorem walks_expr? (hσ : Proper σ) (e : Option Expr) :
    Walks known σ σ (expr? σ.toContext e) (Expr.allPlaced σ e.toList) := by
  cases e with
  | none => exact .pure
  | some e =>
      rw [Option.toList_some, Expr.allPlaced, Expr.allNodes_singleton]
      exact walks_expr hσ e

end Expressions

/-! ## Declarations -/

/-- No initializer is on the way, and outside a class nothing declares `this`. -/
structure Calm (σ : Surroundings) : Prop where
  this : σ.classKind = .none → depth? "this" σ.scopes = none
  self : σ.self = none

/-- A place for a statement: the innermost scope is one that takes declarations. -/
structure AtStatement (σ : Surroundings) : Prop extends Calm σ where
  inner : ∀ l ∈ σ.scopes.head?, ∃ xs, l = .names xs

theorem Calm.proper {σ : Surroundings} (h : Calm σ) : Proper σ :=
  ⟨h.this, fun x hx => absurd (h.self.symm.trans hx) (Option.some_ne_none x).symm⟩

/-- In the initializer of a variable. -/
theorem Calm.initializer {σ : Surroundings} (h : Calm σ) {x : String} (hx : IsName x) :
    Proper { σ with self := some x } :=
  ⟨h.this, fun _ hy => Option.some.inj hy ▸ hx⟩

/-- After a name has been declared, statements may go on. -/
theorem AtStatement.declare {σ : Surroundings} (h : AtStatement σ) {x : String} (hx : IsName x) :
    AtStatement (σ.declare x) where
  this hkind := by
    have hthis := depth?_add_of_ne hx.1.symm σ.scopes
    exact hthis.trans (h.this hkind)
  self := h.self
  inner := by
    have hinner := h.inner
    rcases σ with ⟨context, _ | ⟨l, Γ⟩, globals, self⟩
    · exact nofun
    · rcases hinner l rfl with ⟨xs, rfl⟩
      rintro _ ⟨⟩
      exact ⟨xs ++ [x], rfl⟩

section Declarations

variable {known : List String} {σ : Surroundings}

/-- From its declaration on a name is awaited, until its initializer is over. -/
theorem walks_declare (hσ : Calm σ) (name : Token) :
    Walks known σ { σ with self := some name.lexeme } (declare name)
      [⟨σ, .declaration name⟩] := by
  intro s hs
  have hglobals := hs.globals
  simp only [hσ.self, reduceCtorEq, and_false, if_false] at hglobals
  have hfault : (⟨σ, .declaration name⟩ : Place).faultAtOnce? known =
      if σ.Declares name.lexeme then some (.atToken (.resolve .alreadyDeclared) name)
      else none := rfl
  rcases hs.scopes.top_or_inside with
    ⟨hscopes, hΓ⟩ | ⟨scope, outer, l, Γ, hscopes, hΓ, hscope, houter⟩
  · -- At the top level a name may be declared again, and one that has a value keeps it.
    have hquiet : ¬ σ.Declares name.lexeme := by simp [Surroundings.Declares, hΓ]
    have hfinds : ∀ globals : Scope,
        Finds known [⟨σ, .declaration name⟩] s { s with globals } := fun _ =>
      .single rfl (by rw [hfault, if_neg hquiet]; simp) (List.append_nil _).symm
    have hfaces : Faces (some name.lexeme) s.scopes σ.scopes := by
      rw [hscopes, hΓ]
      exact .top
    have hname := hglobals name.lexeme
    rw [declare_global name hscopes]
    split
    · refine ⟨⟨hfaces, fun y => ?_⟩, hfinds s.globals⟩
      grind [Bindings.contains]
    · refine ⟨⟨hfaces, fun y => ?_⟩, hfinds _⟩
      grind [Bindings.contains, Bindings.get?_insert]
  · have hdeclares : σ.Declares name.lexeme ↔ scope.contains name.lexeme = true := by
      rw [hscope.contains, hσ.self]
      simp [Surroundings.Declares, hΓ]
    rw [declare_local name hscopes]
    refine ⟨⟨?_, fun y => ?_⟩, .single rfl ?_ (List.append_nil _).symm⟩
    · dsimp only
      rw [hΓ]
      refine .inside (fun y => ?_) houter
      have hy := hscope y
      rw [hσ.self] at hy
      grind [Bindings.get?_insert]
    · simpa [hΓ] using hglobals y
    · rw [hfault]
      simp only [hdeclares]
      split <;> simp

/-- A name that was awaited is declared. -/
theorem walks_define (hσ : AtStatement σ) (name : Token) :
    Walks known { σ with self := some name.lexeme } (σ.declare name.lexeme) (define name) [] := by
  intro s hs
  have hglobals := hs.globals
  have hself := hσ.self
  rcases hs.scopes.top_or_inside with
    ⟨hscopes, hΓ⟩ | ⟨scope, outer, l, Γ, hscopes, hΓ, hscope, houter⟩
  -- at the top level the name becomes a global
  · dsimp only at hΓ
    rw [define_global name hscopes]
    refine ⟨⟨?_, fun y => ?_⟩, .nothing rfl rfl rfl⟩
    · dsimp only [Surroundings.declare]
      rw [hscopes, hΓ]
      exact .top
    · have hy := hglobals y
      grind [Surroundings.declare, Bindings.get?_insert]
  -- inside a scope it joins the innermost layer
  · dsimp only at hΓ
    rcases hσ.inner l (by rw [hΓ]; rfl) with ⟨xs, rfl⟩
    rw [define_local name hscopes]
    refine ⟨⟨?_, fun y => ?_⟩, .nothing rfl rfl rfl⟩
    · dsimp only [Surroundings.declare]
      rw [hΓ, hself]
      refine .inside (fun y => ?_) houter
      have hy := hscope y
      grind [Bindings.get?_insert, Layer.declares]
    · have hy := hglobals y
      simp only [hΓ, Surroundings.declare] at hy ⊢
      simpa [Layer.add] using hy

theorem walks_introduce (hσ : AtStatement σ) (name : Token) :
    Walks known σ (σ.declare name.lexeme) (introduce name) [⟨σ, .declaration name⟩] :=
  (walks_declare hσ.toCalm name).bind (walks_define hσ name)

/-- Parameters are declared one after the other, so the later of two with one name is at fault. -/
theorem walks_parameters : ∀ {σ : Surroundings}, AtStatement σ → ∀ params : List Token,
    (∀ param ∈ params, IsName param.lexeme) →
    Walks known σ (σ.declareAll (params.map Token.lexeme)) (parameters params)
      (parametersPlaced σ params)
  | _, _, [], _ => .pure
  | _, hσ, param :: params, h => by
      rcases List.forall_mem_cons.1 h with ⟨hparam, hparams⟩
      exact (walks_introduce hσ param).bind (walks_parameters (hσ.declare hparam) params hparams)

end Declarations

/-! ## Scopes -/

/-- Inside a scope for names, with `outer` around it. -/
structure Inside (outer σ : Surroundings) : Prop where
  scopes : ∃ xs, σ.scopes = .names xs :: outer.scopes
  globals : σ.globals = outer.globals

/-- Declaring a name in an inner scope leaves the outer ones alone. -/
theorem Inside.declare {outer σ : Surroundings} (h : Inside outer σ) (x : String) :
    Inside outer (σ.declare x) := by
  rcases h.scopes with ⟨xs, hxs⟩
  refine ⟨⟨xs ++ [x], ?_⟩, ?_⟩
  · simp [Surroundings.declare, hxs, Layer.add]
  · simp [Surroundings.declare, hxs, h.globals]

theorem Inside.declareAll {outer : Surroundings} : ∀ {σ : Surroundings}, Inside outer σ →
    ∀ xs : List String, Inside outer (σ.declareAll xs)
  | _, h, [] => h
  | _, h, x :: xs => (h.declare x).declareAll xs

theorem Inside.after {outer σ : Surroundings} (h : Inside outer σ) (s : Stmt) :
    Inside outer (σ.after s) := by
  unfold Surroundings.after
  split
  · exact h.declare _
  · exact h

theorem Inside.afterAll {outer : Surroundings} : ∀ {σ : Surroundings}, Inside outer σ →
    ∀ ss : List Stmt, Inside outer (σ.afterAll ss)
  | _, h, [] => h
  | _, h, s :: ss => (h.after s).afterAll ss

section Scopes

variable {known : List String} {σ σ' : Surroundings} {walk : Resolver Unit} {ps : List Place}

/-- A scope is left as it was entered: what was declared in it is gone. -/
theorem Walks.inScope {scope : Scope} {l l' : Layer} (hself : σ.self = none)
    (hscope : ScopeShows scope l) (h : Walks known (σ.enter l) σ' walk ps)
    (hscopes : σ'.scopes = l' :: σ.scopes) (hglobals : σ'.globals = σ.globals) :
    Walks known σ σ (inScope scope walk) ps := by
  intro s hs
  have hinside : Stands known (σ.enter l) { s with scopes := scope :: s.scopes } := by
    have hΓ := hs.scopes
    have hvalues := hs.globals
    rw [hself] at hΓ
    simp only [hself, reduceCtorEq, and_false, if_false] at hvalues
    refine ⟨?_, fun x => ?_⟩
    · dsimp only [Surroundings.enter]
      rw [hself]
      exact .inside hscope hΓ.shows
    · simpa [Surroundings.enter] using hvalues x
  have hrun := h _ hinside
  -- Inside a scope nothing is declared at the top level, so only the scope has to be left.
  have hvalues := hrun.1.globals
  simp only [hscopes, reduceCtorEq, false_and, if_false, hglobals] at hvalues
  refine ⟨⟨?_, fun x => ?_⟩, ⟨hrun.2.links, hrun.2.errors, hrun.2.pending⟩⟩
  · rcases hrun.1.scopes.top_or_inside with
      ⟨-, hΓ⟩ | ⟨scope', outer, l'', Γ, houter, hΓ, -, hshows⟩
    · rw [hscopes] at hΓ
      cases hΓ
    · rw [hscopes] at hΓ
      cases hΓ
      change Faces σ.self (walk { s with scopes := scope :: s.scopes }).2.scopes.tail σ.scopes
      rw [houter, hself]
      exact .of_shows hshows
  · change (walk { s with scopes := scope :: s.scopes }).2.globals.get? x = _
    simpa [hself] using hvalues x

theorem walks_checkReturn (keyword : Token) (value : Option Expr) :
    Walks known σ σ (checkReturn σ.toContext keyword value) [⟨σ, .returned keyword value⟩] := by
  refine .of_mild (Mild.checkReturn _ _ _) fun s _ => .reported rfl rfl ?_
  rw [checkReturn, Place.fault?]
  split
  · rfl
  · split
    · rfl
    · exact (report_nothing s).symm

theorem walks_checkInheritance (name : Token) (ref : Reference) :
    Walks known σ σ (checkInheritance name ref) [⟨σ, .inheritance name ref⟩] := by
  refine .of_mild (Mild.checkInheritance _ _) fun s _ => .reported rfl rfl ?_
  rw [checkInheritance, Place.fault?]
  split
  · rfl
  · exact (report_nothing s).symm

end Scopes

/-! ## Statements -/

theorem Calm.enter {σ : Surroundings} (h : Calm σ) (l : Layer)
    (hl : σ.classKind = .none → l.declares "this" = false) : Calm (σ.enter l) where
  this hkind := by
    have hthis := depth?_cons_of_not_declares σ.scopes (hl hkind)
    exact hthis.trans (by rw [h.this hkind]; rfl)
  self := h.self

theorem Calm.enterClass {σ : Surroundings} (h : Calm σ) (kind : ClassKind) (hkind : kind ≠ .none) :
    Calm (σ.enterClass kind) := by
  cases kind with
  | none => exact absurd rfl hkind
  | base => exact ⟨nofun, h.self⟩
  | derived => exact ⟨nofun, h.self⟩

/-- The scope of a function begins empty, so statements may follow. -/
theorem Calm.enterFunction {σ : Surroundings} (h : Calm σ) (kind : FunctionKind) :
    AtStatement (σ.enterFunction kind) :=
  { h.enter (.names []) fun _ => rfl with inner := fun _ hl => ⟨[], (Option.some.inj hl).symm⟩ }

theorem AtStatement.declareAll : ∀ {σ : Surroundings}, AtStatement σ → ∀ {xs : List String},
    (∀ x ∈ xs, IsName x) → AtStatement (σ.declareAll xs)
  | _, h, [], _ => h
  | _, h, x :: xs, hxs => by
      rcases List.forall_mem_cons.1 hxs with ⟨hx, hrest⟩
      exact (h.declare hx).declareAll hrest

theorem Surroundings.after_eq {σ : Surroundings} {s : Stmt} (h : s.declared? = none) :
    σ.after s = σ := by
  unfold Surroundings.after
  rw [h]

theorem Surroundings.after_toContext (σ : Surroundings) (s : Stmt) :
    (σ.after s).toContext = σ.toContext := by
  unfold Surroundings.after
  split <;> rfl

theorem Surroundings.declareAll_toContext : ∀ (σ : Surroundings) (xs : List String),
    (σ.declareAll xs).toContext = σ.toContext
  | _, [] => rfl
  | σ, x :: xs => Surroundings.declareAll_toContext (σ.declare x) xs

/-- After a statement another one may follow. -/
theorem AtStatement.after {σ : Surroundings} (h : AtStatement σ) {s : Stmt} (hs : s.Shaped Named) :
    AtStatement (σ.after s) := by
  cases s with
  | classDecl name superclass methods => exact h.declare hs.1
  | function decl =>
      cases decl
      exact h.declare hs.1
  | varDecl name value => exact h.declare hs.1
  | _ => exact h

variable {known : List String}

mutual

/-- By induction on the statement: its walk finds its places, and ends in the surroundings behind
it. -/
theorem walks_stmt : ∀ {σ : Surroundings}, AtStatement σ → ∀ s : Stmt, s.Shaped Named →
    Walks known σ (σ.after s) (stmt σ.toContext s) (s.placed σ)
  | σ, hσ, .block body, h => by
      have hat : AtStatement (σ.enter (.names [])) := hσ.toCalm.enterFunction σ.function
      have hinside : Inside σ (σ.enter (.names [])) := ⟨⟨[], rfl⟩, rfl⟩
      rcases hinside.afterAll body with ⟨⟨xs, hscopes⟩, hglobals⟩
      exact .inScope hσ.self scopeShows_empty (walks_stmts hat body h) hscopes hglobals
  | σ, hσ, .classDecl name none decls, h => by
      have hdeclared := hσ.declare (x := name.lexeme) h.1
      have hbody := walks_methods (hdeclared.toCalm.enterClass .base nofun) decls h.2.2
      refine (walks_introduce hσ name).bind ?_
      exact .inScope hdeclared.self scopeShows_this
        (hbody.context σ.toContext σ.toContext) rfl rfl
  | σ, hσ, .classDecl name (some ref) decls, h => by
      have hdeclared := hσ.declare (x := name.lexeme) h.1
      have hbody := walks_methods (hdeclared.toCalm.enterClass .derived nofun) decls h.2.2
      refine (walks_introduce hσ name).bind ?_
      refine (walks_checkInheritance name ref).bind ?_
      refine (walks_read ref).bind ?_
      have hsuper : ∀ walk ps, Walks known ((σ.declare name.lexeme).enter .super)
          ((σ.declare name.lexeme).enter .super) walk ps → Walks known (σ.declare name.lexeme)
            (σ.declare name.lexeme) (inScope superScope walk) ps :=
        fun _ _ h => .inScope hdeclared.self scopeShows_super h rfl rfl
      exact hsuper _ _ (.inScope hdeclared.self scopeShows_this
        (hbody.context σ.toContext σ.toContext) rfl rfl)
  | σ, hσ, .expression e, _ => walks_expr hσ.toCalm.proper e
  | σ, hσ, .print e, _ => walks_expr hσ.toCalm.proper e
  | σ, hσ, .function decl, h => by
      have hname : IsName decl.name.lexeme := by
        cases decl
        exact h.1
      have hbody := walks_function (hσ.declare hname).toCalm .function decl h
      exact (walks_introduce hσ decl.name).bind hbody
  | σ, hσ, .ifElse condition thenBranch none, ⟨_, hdeclared, hthen⟩ => by
      -- A branch declares nothing, so what is behind it is as in front of it.
      have hbranch := walks_stmt hσ thenBranch hthen
      rw [Surroundings.after_eq hdeclared] at hbranch
      exact (walks_expr hσ.toCalm.proper condition).bind hbranch
  | σ, hσ, .ifElse condition thenBranch (some elseBranch),
      ⟨_, ⟨hdeclared, hthen⟩, hdeclared', helse⟩ => by
      have hbranch := walks_stmt hσ thenBranch hthen
      have hbranch' := walks_stmt hσ elseBranch helse
      rw [Surroundings.after_eq hdeclared] at hbranch
      rw [Surroundings.after_eq hdeclared'] at hbranch'
      exact (walks_expr hσ.toCalm.proper condition).bind (hbranch.bind hbranch')
  | σ, hσ, .returnValue keyword value, _ =>
      (walks_checkReturn keyword value).bind (walks_expr? hσ.toCalm.proper value)
  | σ, hσ, .varDecl name value, h => by
      -- The name waits while its initializer is walked through, and is declared behind it.
      have hvalue : Walks known _ _ _ _ := walks_expr? (hσ.toCalm.initializer h.1) value
      have hrest : Walks known _ _ (expr? _ value >>= fun _ => define name) _ :=
        hvalue.bind (walks_define hσ name)
      rw [List.append_nil] at hrest
      exact (walks_declare hσ.toCalm name).bind hrest
  | σ, hσ, .whileLoop condition body, ⟨_, hdeclared, h⟩ => by
      have hbody := walks_stmt hσ body h
      rw [Surroundings.after_eq hdeclared] at hbody
      exact (walks_expr hσ.toCalm.proper condition).bind hbody

/-- By induction on the statements: each is walked in the surroundings that those before it
leave. -/
theorem walks_stmts : ∀ {σ : Surroundings}, AtStatement σ →
    ∀ ss : List Stmt, Stmt.AllShaped Named ss →
      Walks known σ (σ.afterAll ss) (stmts σ.toContext ss) (Stmt.allPlaced σ ss)
  | _, _, [], _ => .pure
  | σ, hσ, s :: ss, ⟨h, hrest⟩ => by
      have hnext := walks_stmts (hσ.after h) ss hrest
      rw [Surroundings.after_toContext] at hnext
      exact (walks_stmt hσ s h).bind hnext

/-- The parameters and the body share one scope. -/
theorem walks_function : ∀ {σ : Surroundings}, Calm σ → ∀ (kind : FunctionKind)
    (decl : FunctionDecl), decl.Shaped Named →
    Walks known σ σ (function { σ.toContext with function := kind } decl) (decl.placed σ kind)
  | σ, hσ, kind, ⟨_, params, body⟩, ⟨_, hparams, h⟩ => by
      have hat := hσ.enterFunction kind
      have hinside : Inside σ (σ.enterFunction kind) := ⟨⟨[], rfl⟩, rfl⟩
      have hnames : ∀ x ∈ params.map Token.lexeme, IsName x := by
        simpa using hparams
      have hstmts := walks_stmts (hat.declareAll hnames) body h
      rw [Surroundings.declareAll_toContext] at hstmts
      rcases (hinside.declareAll (params.map Token.lexeme)).afterAll body with
        ⟨⟨xs, hscopes⟩, hglobals⟩
      -- The parameters and the body share one scope.
      have hbody : Walks known _ _
          (parameters params >>= fun _ => stmts { σ.toContext with function := kind } body) _ :=
        (walks_parameters hat params hparams).bind hstmts
      exact .inScope hσ.self scopeShows_empty (hbody.context σ.toContext σ.toContext) hscopes
        hglobals

theorem walks_methods : ∀ {σ : Surroundings}, Calm σ → ∀ decls : List FunctionDecl,
    FunctionDecl.AllShaped Named decls →
    Walks known σ σ (methods σ.toContext decls) (FunctionDecl.allPlaced σ decls)
  | _, _, [], _ => .pure
  | _, hσ, decl :: decls, ⟨h, hrest⟩ =>
      (walks_function hσ (methodKind decl.name) decl h).bind (walks_methods hσ decls hrest)

end

/-! ## Programs -/

theorem atStatement_top : AtStatement .top := ⟨⟨fun _ => rfl, rfl⟩, nofun⟩

/-- The walk of a program begins at the top, with the globals it was told of. -/
theorem stands_start : Stands known .top (start known) := by
  refine ⟨.top, fun x => ?_⟩
  change (Bindings.ofNames known true).get? x = _
  rw [Bindings.get?_ofNames]
  simp [Surroundings.top]

/-- The whole of a program is walked through from its start. -/
theorem walks_program {ss : List Stmt} (h : Stmt.AllShaped Named ss) (known : List String) :
    let s := (stmts ⟨.none, .none⟩ ss (start known)).2
    Stands known (Surroundings.top.afterAll ss) s ∧
      Finds known (Stmt.allPlaced .top ss) (start known) s :=
  walks_stmts atStatement_top ss h (start known) stands_start

end Resolver

/-- No name in a source is a keyword. -/
theorem Program.shaped_ofSource (source : String) (firstId : NodeId) :
    Stmt.AllShaped Resolver.Named (ofSource source firstId).statements := by
  rcases Token.scan_eq_append source with ⟨ts, eof, hscan, heof, hts⟩
  have hnames : Parser.Names Resolver.Named (Token.scan source).1 := by
    intro t ht hkind
    rw [hscan] at ht
    rcases List.mem_append.1 ht with ht | ht
    · exact (hts t ht).1.name hkind
    · rw [List.mem_singleton.1 ht, heof] at hkind
      cases hkind
  exact shaped_ofTokens hnames firstId

end LoxLang
