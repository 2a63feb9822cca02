import LoxLang.Proofs.Scope.Walk

/-!
# Resolved programs are linked

A program that is resolved without a fault is linked by the distances that were found. The walk
enters distances only for the numbers of what it walks over, and only once for each, so the
distances found for one part of a program are still there when all parts are behind.
-/

namespace LoxLang

namespace Resolver

open Layer

/-! ## Class bodies -/

/-- The layers around a place where a class body of some kind is the nearest. -/
inductive Fits : ClassKind → List Layer → Prop where
  | none {Γ : List Layer} : Fits .none Γ
  | base {Γ : List Layer} : Fits .base (.this :: Γ)
  | derived {Γ : List Layer} : Fits .derived (.this :: .super :: Γ)
  | names {kind : ClassKind} {xs : List String} {Γ : List Layer} :
      (∀ x ∈ xs, IsName x) → Fits kind Γ → Fits kind (.names xs :: Γ)

/-- Names are neither `this` nor `super`, so no layer of names hides those. -/
theorem not_declares_names {xs : List String} (h : ∀ x ∈ xs, IsName x) :
    (Layer.names xs).declares "this" = false ∧ (Layer.names xs).declares "super" = false := by
  have hthis : "this" ∉ xs := fun hmem => (h _ hmem).1 rfl
  have hsuper : "super" ∉ xs := fun hmem => (h _ hmem).2 rfl
  simp [declares, hthis, hsuper]

/-- Inside a class there is a layer that declares `this`. -/
theorem Fits.thisAt {kind : ClassKind} {Γ : List Layer} (h : Fits kind Γ) (hkind : kind ≠ .none) :
    ∃ d, ThisAt Γ d := by
  induction h with
  | none => exact absurd rfl hkind
  | base | derived => exact ⟨0, rfl, rfl⟩
  | names hxs _ ih =>
      rcases ih hkind with ⟨d, hd⟩
      exact ⟨d + 1, hd.cons (not_declares_names hxs).1⟩

/-- Inside a class with a superclass, `super` is declared one layer outside of `this`. -/
theorem Fits.superAt {Γ : List Layer} (h : Fits .derived Γ) :
    ∃ d, ThisAt Γ d ∧ SuperAt Γ (d + 1) := by
  generalize hkind : ClassKind.derived = kind at h
  induction h with
  | none | base => cases hkind
  | derived => exact ⟨0, ⟨rfl, rfl⟩, rfl, rfl⟩
  | names hxs _ ih =>
      rcases ih hkind with ⟨d, hthis, hsuper⟩
      have hnames := not_declares_names hxs
      exact ⟨d + 1, hthis.cons hnames.1, hsuper.cons hnames.2⟩

theorem Fits.add {kind : ClassKind} {Γ : List Layer} {x : String} (h : Fits kind Γ)
    (hx : IsName x) : Fits kind (add x Γ) := by
  cases h with
  | none => exact .none
  | base => exact .base
  | derived => exact .derived
  | names hxs h =>
      refine .names ?_ h
      simpa [or_imp, forall_and] using ⟨hxs, hx⟩

/-! ## Distances that have been found -/

def State.addresses (s : State) (i j : Nat) : Addresses :=
  ⟨fun id => s.links[id]?, i, j, fun _ _ => True⟩

/-- No distance has been found for any number of a range. -/
def Unlinked (s : State) (i j : Nat) : Prop := ∀ id : Nat, i ≤ id → id < j → s.links[id]? = none

/-- Distances have been entered for numbers of a range only. -/
def LinksWithin (i j : Nat) (s s' : State) : Prop :=
  ∀ id : Nat, id < i ∨ j ≤ id → s'.links[id]? = s.links[id]?

theorem LinksWithin.refl (i j : Nat) (s : State) : LinksWithin i j s s := fun _ _ => rfl

/-- What two walks enter in a range is entered in that range. -/
theorem LinksWithin.trans {i j : Nat} {s s' s'' : State} (h : LinksWithin i j s s')
    (h' : LinksWithin i j s' s'') : LinksWithin i j s s'' :=
  fun id hid => (h' id hid).trans (h id hid)

theorem LinksWithin.mono {i i' j j' : Nat} {s s' : State} (h : LinksWithin i j s s')
    (hi : i' ≤ i) (hj : j ≤ j') : LinksWithin i' j' s s' :=
  fun id hid => h id (by omega)

theorem LinksWithin.of_eq {i j : Nat} {s s' : State} (h : s'.links = s.links) :
    LinksWithin i j s s' := fun id _ => by rw [h]

/-- What is entered elsewhere does not touch a range. -/
theorem LinksWithin.unlinked {i j k l : Nat} {s s' : State} (h : LinksWithin i j s s')
    (hrange : Unlinked s k l) (hapart : j ≤ k ∨ l ≤ i) : Unlinked s' k l := by
  intro id hk hl
  rw [h id (by omega)]
  exact hrange id hk hl

/-- What is entered outside of a range adds to the addresses of a wider one. -/
theorem LinksWithin.addresses_le {i j k k' l l' : Nat} {s s' : State}
    (h : LinksWithin i j s s') (hapart : j ≤ k ∨ l ≤ i) (hk : k' ≤ k) (hl : l ≤ l') :
    s.addresses k l ≤ s'.addresses k' l' := by
  refine ⟨hk, hl, ?_, fun _ _ h => h⟩
  intro (id : Nat) (hfirst : k ≤ id) (hnext : id < l)
  exact h id (by omega)

theorem Unlinked.mono {i i' j j' : Nat} {s : State} (h : Unlinked s i j) (hi : i ≤ i')
    (hj : j' ≤ j) : Unlinked s i' j' := fun id hfirst hnext => h id (by omega) (by omega)

theorem addresses_le {i i' j j' : Nat} (s : State) (hi : i' ≤ i) (hj : j ≤ j') :
    s.addresses i j ≤ s.addresses i' j' := ⟨hi, hj, fun _ _ _ => rfl, fun _ _ h => h⟩

/-! ## What a walk enters -/

/-- A property of addresses that is kept when their range gets wider. -/
def Lasting (L : Addresses → Prop) : Prop := ∀ {A A' : Addresses}, A ≤ A' → L A → L A'

/-- A walk enters distances for a range only, and those found behind it satisfy `L`. -/
structure Enters (i j : Nat) (walk : Resolver Unit) (s : State) (L : Addresses → Prop) :
    Prop where
  links : LinksWithin i j s (walk s).2
  linked : L ((walk s).2.addresses i j)

/-- What holds of the addresses of a range holds of those of a wider one. -/
theorem Enters.mono {i i' j j' : Nat} {walk : Resolver Unit} {s : State} {L : Addresses → Prop}
    (h : Enters i j walk s L) (hL : Lasting L) (hi : i' ≤ i) (hj : j ≤ j') :
    Enters i' j' walk s L :=
  ⟨h.links.mono hi hj, hL (addresses_le _ hi hj) h.linked⟩

/-- Two walks whose ranges are apart: the second one leaves what the first one has found. -/
theorem Enters.bind {i j k l : Nat} {walk : Resolver Unit} {rest : Unit → Resolver Unit}
    {s : State} {L L' : Addresses → Prop} (h : Enters i j walk s L)
    (h' : Enters k l (rest ()) (walk s).2 L') (hL : Lasting L) (hL' : Lasting L')
    (hapart : j ≤ k ∨ l ≤ i) {first next : Nat} (hi : first ≤ i) (hk : first ≤ k) (hj : j ≤ next)
    (hl : l ≤ next) : Enters first next (walk >>= rest) s fun A => L A ∧ L' A where
  links := (h.links.mono hi hj).trans (h'.links.mono hk hl)
  linked := ⟨hL (h'.links.addresses_le (by omega) hi hj) h.linked,
    hL' (addresses_le _ hk hl) h'.linked⟩

/-! ## Single uses of names -/

/-- A distance is entered for one number, if it had none. -/
theorem record_links (id : Nat) (distance : Option Nat) (s : State) :
    LinksWithin id (id + 1) s (record id distance s).2 ∧
      (s.links[id]? = none → (record id distance s).2.links[id]? = distance) := by
  cases distance with
  | none => exact ⟨.refl _ _ s, fun h => h⟩
  | some d =>
      constructor
      · intro other hother
        change (s.links.insert id d)[other]? = _
        rw [Std.TreeMap.getElem?_insert, if_neg]
        intro heq
        rcases Nat.compare_eq_eq.1 heq with rfl
        exact absurd hother (by omega)
      · intro _
        exact Std.TreeMap.getElem?_insert_self

/-- A use that is linked to some distance. -/
theorem enters_link {i j id : Nat} {s : State} {self : Option String} {Γ : List Layer}
    (x : String) (hfirst : i ≤ id) (hnext : id < j) (hview : Views self s.scopes Γ)
    (hunlinked : Unlinked s i j) :
    Enters i j (link id x) s
      fun A => A.Has id (if self = some x then some 0 else depth? x Γ) := by
  have hrecord := record_links id (distance? x s.scopes) s
  refine ⟨hrecord.1.mono hfirst hnext, hfirst, hnext, ?_⟩
  rw [← hview.distance?_eq]
  exact hrecord.2 (hunlinked id hfirst hnext)

/-! ## Expressions -/

/-- The number of a read gets the distance to where its name is declared. -/
theorem enters_read {ctx : Context} {i j : Nat} {ref : Reference} {s : State}
    {self : Option String} {Γ : List Layer} (hfirst : i ≤ ref.id) (hnext : ref.id < j)
    (hview : Views self s.scopes Γ) (hunlinked : Unlinked s i j) :
    Enters i j (read ctx ref) s fun A => ref.Linked A Γ := by
  have hid := hunlinked ref.id hfirst hnext
  -- Where nothing is entered, there is nothing to find either.
  have hnone : (read ctx ref s).2.links = s.links → depth? ref.name.lexeme Γ = none →
      Enters i j (read ctx ref) s fun A => ref.Linked A Γ := by
    intro hlinks hdepth
    refine ⟨.of_eq hlinks, hfirst, hnext, ?_⟩
    change (read ctx ref s).2.links[ref.id]? = _
    rw [hlinks, hid, hdepth]
  -- Elsewhere it is an ordinary link, unless the name waits for its initializer.
  have hlink : read ctx ref s = link ref.id ref.name.lexeme s → self ≠ some ref.name.lexeme →
      Enters i j (read ctx ref) s fun A => ref.Linked A Γ := by
    intro hread hself
    have henters := enters_link ref.name.lexeme hfirst hnext hview hunlinked
    simp only [if_neg hself] at henters
    exact ⟨hread ▸ henters.links, hread ▸ henters.linked⟩
  generalize hscopes : s.scopes = scopes at hview
  cases hview with
  | plain hshows =>
      cases hshows with
      | nil => exact hnone (read_global ctx ref hscopes) rfl
      | cons hscope _ =>
          refine hlink (read_local ctx ref hscopes ?_) nofun
          rw [hscope]
          split <;> decide
  -- The innermost name is waiting: a read of it goes on to the outer layers.
  | @initializer x xs scope outer Γ _ hfresh hscope houter =>
      by_cases hx : ref.name.lexeme = x
      · have hwaiting : (scope.insert x false).get? ref.name.lexeme = some false := by
          simp [hx]
        have hdepth : depth? ref.name.lexeme (.names xs :: Γ) =
            (depth? ref.name.lexeme Γ).map (· + 1) :=
          depth?_cons_of_not_declares Γ (by simpa [declares, hx] using hfresh)
        have hread := read_waiting ctx ref hscopes hwaiting
        cases hdistance : distance? ref.name.lexeme outer with
        | none =>
            refine hnone ?_ ?_
            · rw [hread]
              exact linkShadowed_none ctx ref hdistance
            · rw [hdepth, ← distance?_eq houter, hdistance]
              rfl
        | some d =>
            have hrecord := record_links ref.id (some (d + 1)) s
            rw [← linkShadowed_some ctx ref hdistance, ← hread] at hrecord
            refine ⟨hrecord.1.mono hfirst hnext, hfirst, hnext, ?_⟩
            rw [hdepth, ← distance?_eq houter, hdistance]
            exact hrecord.2 hid
      · refine hlink (read_local ctx ref hscopes ?_) (by simpa using Ne.symm hx)
        rw [Bindings.get?_insert_of_ne _ _ (Ne.symm hx), hscope]
        split <;> decide

theorem lasting_has (id : NodeId) (distance : Option Nat) :
    Lasting fun A => A.Has id distance := fun hle h => h.mono hle

theorem lasting_expr (Γ : List Layer) (self : Option String) (e : Expr) :
    Lasting fun A => e.Linked A Γ self := fun hle h => Expr.linked_mono hle.within e h

theorem lasting_exprs (Γ : List Layer) (self : Option String) (es : List Expr) :
    Lasting fun A => Expr.AllLinked A Γ self es := fun hle h => Expr.allLinked_mono hle.within es h

/-- A name that a class body binds is no variable that waits for its initializer. -/
theorem Views.self_ne {self : Option String} {scopes : List Scope} {Γ : List Layer} {x : String}
    (h : Views self scopes Γ) (hx : ¬ IsName x) : self ≠ some x := by
  cases h with
  | plain _ => exact nofun
  | initializer hname _ _ _ =>
      rintro heq
      cases heq
      exact hx hname

/-- The number of a `this` gets the distance to the class around it. -/
theorem enters_this {ctx : Context} {i j id : Nat} {keyword : Token} {s : State}
    {self : Option String} {Γ : List Layer} (hfirst : i ≤ id) (hnext : id < j)
    (hview : Views self s.scopes Γ) (hfits : Fits ctx.classKind Γ) (hunlinked : Unlinked s i j)
    (hquiet : Quiet (useThis ctx id keyword) s) :
    Enters i j (useThis ctx id keyword) s fun A => ∃ d, A.Has id (some d) ∧ ThisAt Γ d := by
  -- Outside a class the keyword would be reported.
  by_cases hkind : ctx.classKind = .none
  · unfold useThis at hquiet
    rw [if_pos hkind] at hquiet
    exact absurd hquiet not_quiet_report
  · rcases hfits.thisAt hkind with ⟨d, hd⟩
    have hself : self ≠ some "this" := hview.self_ne fun h => h.1 rfl
    have henters := enters_link "this" hfirst hnext hview hunlinked
    unfold useThis
    rw [if_neg hkind]
    refine ⟨henters.links, d, ?_, hd⟩
    simpa [hself, hd.1] using henters.linked

/-- The number of a `super` gets the distance to the layer outside of that of `this`. -/
theorem enters_super {ctx : Context} {i j id : Nat} {keyword : Token} {s : State}
    {self : Option String} {Γ : List Layer} (hfirst : i ≤ id) (hnext : id < j)
    (hview : Views self s.scopes Γ) (hfits : Fits ctx.classKind Γ) (hunlinked : Unlinked s i j)
    (hquiet : Quiet (useSuper ctx id keyword) s) :
    Enters i j (useSuper ctx id keyword) s
      fun A => ∃ d, A.Has id (some (d + 1)) ∧ ThisAt Γ d ∧ SuperAt Γ (d + 1) := by
  have hcheck := (hquiet.of_bind (Mild.checkSuper ctx keyword).adds (Mild.link _ _).adds).1
  unfold checkSuper at hcheck
  cases hkind : ctx.classKind with
  | none | base =>
      simp only [hkind, superFault?] at hcheck
      exact absurd hcheck not_quiet_report
  | derived =>
      rw [hkind] at hfits
      rcases hfits.superAt with ⟨d, hthis, hsuper⟩
      have hself : self ≠ some "super" := hview.self_ne fun h => h.2 rfl
      have henters := enters_link "super" hfirst hnext hview hunlinked
      have hwalk : useSuper ctx id keyword s = link id "super" s := by
        change link id "super" (checkSuper ctx keyword s).2 = _
        simp only [checkSuper, hkind, superFault?]
        rfl
      refine ⟨hwalk ▸ henters.links, d, ?_, hthis, hsuper⟩
      rw [hwalk]
      simpa [hself, hsuper.1] using henters.linked

/-! ## Whole walks -/

/-- From scopes that satisfy `pre`, a quiet walk leads to scopes that satisfy `post`, and enters
distances for a range that satisfy `L`. -/
def Resolves (pre post : List Scope → Prop) (i j : Nat) (walk : Resolver Unit)
    (L : Addresses → Prop) : Prop :=
  ∀ s, pre s.scopes → Unlinked s i j → Quiet walk s →
    post (walk s).2.scopes ∧ Enters i j walk s L

namespace Resolves

variable {pre mid post : List Scope → Prop} {i j k l : Nat} {L L' : Addresses → Prop}
  {walk : Resolver Unit}

/-- A walk may be said to resolve a wider range than its own. -/
theorem mono {i' j' : Nat} (h : Resolves pre post i j walk L) (hL : Lasting L) (hi : i' ≤ i)
    (hj : j ≤ j') : Resolves pre post i' j' walk L := by
  intro s hpre hunlinked hquiet
  rcases h s hpre (hunlinked.mono hi hj) hquiet with ⟨hpost, henters⟩
  exact ⟨hpost, henters.mono hL hi hj⟩

/-- The distances that a walk enters say nothing about functions beyond what is linked. -/
theorem weaken_known (h : Resolves pre post i j walk L)
    (hL : ∀ A, (∀ Γ decl, A.known Γ decl) → L A → L' A) : Resolves pre post i j walk L' := by
  intro s hpre hunlinked hquiet
  rcases h s hpre hunlinked hquiet with ⟨hpost, henters⟩
  exact ⟨hpost, henters.links, hL _ (fun _ _ => trivial) henters.linked⟩

theorem weaken (h : Resolves pre post i j walk L) (hL : ∀ A, L A → L' A) :
    Resolves pre post i j walk L' := h.weaken_known fun A _ => hL A

/-- One walk behind the other, with ranges that are apart. -/
theorem bind {rest : Resolver Unit} (h : Resolves pre mid i j walk L)
    (h' : Resolves mid post k l rest L') (hwalk : Adds walk) (hrest : Adds rest)
    (hL : Lasting L) (hL' : Lasting L') (hapart : j ≤ k ∨ l ≤ i) {first next : Nat}
    (hi : first ≤ i) (hk : first ≤ k) (hj : j ≤ next) (hl : l ≤ next) :
    Resolves pre post first next (walk >>= fun _ => rest) fun A => L A ∧ L' A := by
  intro s hpre hunlinked hquiet
  have hquiet' := hquiet.of_bind hwalk hrest
  rcases h s hpre (hunlinked.mono hi hj) hquiet'.1 with ⟨hmid, henters⟩
  have hunlinked' : Unlinked (walk s).2 k l :=
    henters.links.unlinked (hunlinked.mono hk hl) hapart
  rcases h' _ hmid hunlinked' hquiet'.2 with ⟨hpost, henters'⟩
  exact ⟨hpost, henters.bind henters' hL hL' hapart hi hk hj hl⟩

/-- One walk behind the other, with the later range behind the earlier one. -/
theorem seq {rest : Resolver Unit} (h : Resolves pre mid i k walk L)
    (h' : Resolves mid post k j rest L') (hwalk : Adds walk) (hrest : Adds rest)
    (hL : Lasting L) (hL' : Lasting L') (hi : i ≤ k) (hj : k ≤ j) :
    Resolves pre post i j (walk >>= fun _ => rest) fun A => L A ∧ L' A :=
  h.bind h' hwalk hrest hL hL' (.inl (Nat.le_refl k)) (Nat.le_refl i) hi hj (Nat.le_refl j)

/-- Two walks over parts that are apart, in whichever order they are numbered. -/
theorem apart {P Q : NodeId → NodeId → Prop} {rest : Resolver Unit} (hapart : Apart P Q i j)
    (h : ∀ {i j : Nat}, P i j → Resolves pre mid i j walk L)
    (h' : ∀ {i j : Nat}, Q i j → Resolves mid post i j rest L') (hwalk : Adds walk)
    (hrest : Adds rest) (hL : Lasting L) (hL' : Lasting L') (hP : ∀ {i j}, P i j → i ≤ j)
    (hQ : ∀ {i j}, Q i j → i ≤ j) :
    Resolves pre post i j (walk >>= fun _ => rest) fun A => L A ∧ L' A := by
  rcases hapart with ⟨k, ⟨hfirst, hsecond⟩ | ⟨hsecond, hfirst⟩⟩
  · exact (h hfirst).seq (h' hsecond) hwalk hrest hL hL' (hP hfirst) (hQ hsecond)
  · exact (h hfirst).bind (h' hsecond) hwalk hrest hL hL' (.inr (Nat.le_refl k)) (hQ hsecond)
      (Nat.le_refl i) (Nat.le_refl j) (hP hfirst)

/-- A walk that changes no scope. -/
theorem of_mild (hwalk : Mild walk)
    (h : ∀ s, pre s.scopes → Unlinked s i j → Quiet walk s → Enters i j walk s L) :
    Resolves pre pre i j walk L := by
  intro s hpre hunlinked hquiet
  exact ⟨by simpa [hwalk.scopes] using hpre, h s hpre hunlinked hquiet⟩

/-- A check that enters no distance. -/
theorem of_check (hwalk : Mild walk) (hlinks : ∀ s, (walk s).2.links = s.links) (i : Nat) :
    Resolves pre pre i i walk fun _ => True :=
  of_mild hwalk fun s _ _ _ => ⟨.of_eq (hlinks s), trivial⟩

theorem pure (i j : Nat) : Resolves pre pre i j (Pure.pure ()) fun _ => True :=
  fun s hpre _ _ => ⟨hpre, .refl i j s, trivial⟩

end Resolves

mutual

/-- By induction on the expression: each part enters the distances of its own range. -/
theorem resolves_expr (ctx : Context) (self : Option String) {Γ : List Layer}
    (hfits : Fits ctx.classKind Γ) : ∀ (e : Expr) {i j : NodeId}, e.Formed i j →
    Resolves (Views self · Γ) (Views self · Γ) i j (expr ctx e) fun A => e.Linked A Γ self
  | .assign id name value, i, j, ⟨hname, hvalue, hid⟩ => by
      have hlink : Resolves (Views self · Γ) (Views self · Γ) id j (link id name.lexeme) _ :=
        .of_mild (Mild.link _ _) fun s hview hunlinked _ =>
          enters_link name.lexeme (Nat.le_refl id) hid hview hunlinked
      have hboth := (resolves_expr ctx self hfits value hvalue).bind hlink (Mild.expr ctx value).adds
        (Mild.link _ _).adds (lasting_expr _ _ _) (lasting_has _ _) (.inl (Nat.le_refl id))
        (Nat.le_refl i) hvalue.le (Nat.le_of_lt hid) (Nat.le_refl j)
      exact hboth.weaken fun A h => ⟨h.1, hname, h.2⟩
  | .binary id left _ right, i, j, ⟨k, hleft, hright, hid⟩
  | .logical id left _ right, i, j, ⟨k, hleft, hright, hid⟩ => by
      have hfirst := resolves_expr ctx self hfits left hleft
      have hsecond := resolves_expr ctx self hfits right hright
      exact hfirst.bind hsecond (Mild.expr ctx left).adds (Mild.expr ctx right).adds
        (lasting_expr _ _ _) (lasting_expr _ _ _) (.inl (Nat.le_refl k)) (Nat.le_refl i) hleft.le
        (Nat.le_trans hright.le (Nat.le_of_lt hid)) (Nat.le_of_lt hid)
  | .set id object _ value, i, j, ⟨k, hobject, hvalue, hid⟩ => by
      -- The value is walked over first, although its numbers are the later ones.
      have hboth := (resolves_expr ctx self hfits value hvalue).bind
        (resolves_expr ctx self hfits object hobject) (Mild.expr ctx value).adds
        (Mild.expr ctx object).adds (lasting_expr _ _ _) (lasting_expr _ _ _)
        (.inr (Nat.le_refl k)) hobject.le (Nat.le_refl i) (Nat.le_of_lt hid)
        (Nat.le_trans hvalue.le (Nat.le_of_lt hid))
      exact hboth.weaken fun A h => ⟨h.2, h.1⟩
  | .call id callee _ arguments, i, j, ⟨k, hcallee, harguments, hid⟩ => by
      have hfirst := resolves_expr ctx self hfits callee hcallee
      have hsecond := resolves_exprs ctx self hfits arguments harguments
      have hkj := Nat.le_trans (Expr.le_of_allFormed harguments) (Nat.le_of_lt hid)
      exact hfirst.bind hsecond (Mild.expr ctx callee).adds (Mild.exprs ctx arguments).adds
        (lasting_expr _ _ _) (lasting_exprs _ _ _) (.inl (Nat.le_refl k)) (Nat.le_refl i) hcallee.le
        hkj (Nat.le_of_lt hid)
  | .get id e _, i, j, ⟨he, hid⟩ | .grouping id e, i, j, ⟨he, hid⟩
  | .unary id _ e, i, j, ⟨he, hid⟩ => by
      have hinner := resolves_expr ctx self hfits e he
      exact hinner.mono (lasting_expr _ _ e) (Nat.le_refl i) (Nat.le_of_lt hid)
  | .literal _ _, i, j, _ => .pure i j
  | .super id keyword _, i, j, ⟨hfirst, hnext⟩ => by
      refine .of_mild (Mild.useSuper _ _ _) fun s hview hunlinked hquiet => ?_
      exact enters_super hfirst hnext hview hfits hunlinked hquiet
  | .this id keyword, i, j, ⟨hkeyword, hfirst, hnext⟩ => by
      have hthis : Resolves (Views self · Γ) (Views self · Γ) i j (useThis ctx id keyword) _ :=
        .of_mild (Mild.useThis _ _ _) fun s hview hunlinked hquiet =>
          enters_this hfirst hnext hview hfits hunlinked hquiet
      exact hthis.weaken fun A h => ⟨hkeyword, h⟩
  | .variable ref, i, j, ⟨hfirst, hnext⟩ => by
      refine .of_mild (Mild.read _ _) fun s hview hunlinked _ => ?_
      exact enters_read hfirst hnext hview hunlinked

theorem resolves_exprs (ctx : Context) (self : Option String) {Γ : List Layer}
    (hfits : Fits ctx.classKind Γ) : ∀ (es : List Expr) {i j : NodeId}, Expr.AllFormed es i j →
    Resolves (Views self · Γ) (Views self · Γ) i j (exprs ctx es)
      fun A => Expr.AllLinked A Γ self es
  | [], i, j, _ => .pure i j
  | e :: es, _, _, ⟨_, he, hes⟩ => by
      have hfirst := resolves_expr ctx self hfits e he
      have hrest := resolves_exprs ctx self hfits es hes
      exact hfirst.seq hrest (Mild.expr ctx e).adds (Mild.exprs ctx es).adds (lasting_expr _ _ _)
        (lasting_exprs _ _ _) he.le (Expr.le_of_allFormed hes)

end

/-! ## Declarations -/

/-- Layers in which statements stand. -/
def Open : List Layer → Prop
  | .this :: _ | .super :: _ => False
  | _ => True

theorem Open.add {Γ : List Layer} (h : Open Γ) (x : String) : Open (add x Γ) := by
  match Γ with
  | [] => exact h
  | .names xs :: Γ => trivial

theorem Open.after {Γ : List Layer} (h : Open Γ) (st : Stmt) : Open (st.after Γ) := by
  unfold Stmt.after
  split
  · exact h.add _
  · exact h

/-- A name that is declared has not been declared in the innermost layer, or there would be an
error. -/
theorem resolves_declare {Γ : List Layer} (hopen : Open Γ) (i : Nat) {name : Token}
    (hname : IsName name.lexeme) :
    Resolves (Shows · Γ) (Views (Layer.self Γ name.lexeme) · Γ) i i (declare name)
      fun _ => Fresh name.lexeme Γ := by
  intro s hshows _ hquiet
  generalize hscopes : s.scopes = scopes at hshows
  cases hshows with
  | nil =>
      have hdeclared : (declare name s).2.scopes = [] ∧ (declare name s).2.links = s.links := by
        rw [declare_global name hscopes]
        split <;> exact ⟨hscopes, rfl⟩
      rw [hdeclared.1]
      exact ⟨.plain .nil, .of_eq hdeclared.2, trivial⟩
  | @cons scope outer l Γ hscope houter =>
      match l with
      | .names xs =>
          have hrun := declare_local name hscopes
          -- A name that is declared twice would have been reported.
          have hfresh : name.lexeme ∉ xs := by
            intro hmem
            have hcontains : scope.contains name.lexeme = true := by
              rw [hscope.contains]
              simpa [declares] using hmem
            unfold Quiet at hquiet
            rw [hrun, if_pos hcontains] at hquiet
            exact absurd hquiet (by simp)
          rw [hrun]
          refine ⟨?_, .of_eq (by rw [hrun]), hfresh⟩
          simpa [Layer.self] using Views.initializer hname hfresh hscope houter

/-- A name that was awaited is one of the layer from here on. -/
theorem resolves_define {Γ : List Layer} (i : Nat) (name : Token) :
    Resolves (Views (Layer.self Γ name.lexeme) · Γ) (Shows · (add name.lexeme Γ)) i i (define name)
      fun _ => True := by
  intro s hview _ _
  generalize hscopes : s.scopes = scopes at hview
  generalize hself : Layer.self Γ name.lexeme = self at hview
  -- At the top level there is no scope to fill in; in a local one the name is waiting for its
  -- value.
  cases hview with
  | plain hshows =>
      cases hshows with
      | cons _ _ => cases hself
      | nil =>
          have hrun := define_global name hscopes
          rw [hrun]
          exact ⟨hscopes ▸ .nil, .of_eq (by rw [hrun]), trivial⟩
  | @initializer x xs scope outer Γ _ _ hscope houter =>
      cases hself
      have hrun := define_local name hscopes
      rw [hrun]
      refine ⟨.cons ?_ houter, .of_eq (by rw [hrun]), trivial⟩
      have hinsert := hscope.insert name.lexeme
      intro x
      rw [← hinsert x]
      by_cases hx : name.lexeme = x <;> simp [Bindings.get?_insert, hx]

theorem resolves_introduce {Γ : List Layer} (hopen : Open Γ) (i : Nat) {name : Token}
    (hname : IsName name.lexeme) :
    Resolves (Shows · Γ) (Shows · (add name.lexeme Γ)) i i (introduce name)
      fun _ => Fresh name.lexeme Γ := by
  have hboth := (resolves_declare hopen i hname).seq (resolves_define i name)
    (Adds.declare name) (Adds.define name) (fun _ h => h) (fun _ h => h) (Nat.le_refl i)
    (Nat.le_refl i)
  exact hboth.weaken fun _ h => h.1

/-- Parameters join the layer one by one, and none twice. -/
theorem resolves_parameters {Γ : List Layer} (i : Nat) : ∀ (params : List Token)
    {xs : List String}, (∀ param ∈ params, IsName param.lexeme) →
    Resolves (Shows · (.names xs :: Γ)) (Shows · (.names (xs ++ params.map Token.lexeme) :: Γ)) i i
      (parameters params) fun _ => xs.Nodup → (xs ++ params.map Token.lexeme).Nodup
  | [], xs, _ => by
      rw [List.map_nil, List.append_nil]
      exact (Resolves.pure i i).weaken fun _ _ h => h
  | param :: params, xs, hparams => by
      rcases List.forall_mem_cons.1 hparams with ⟨hparam, hparams⟩
      have hopen : Open (.names xs :: Γ) := trivial
      have hboth := (resolves_introduce hopen i hparam).seq
        (resolves_parameters i params hparams) (adds.introduce param) (adds.parameters params)
        (fun _ h => h) (fun _ h => h) (Nat.le_refl i) (Nat.le_refl i)
      rw [List.append_assoc] at hboth
      refine hboth.weaken fun _ h hxs => h.2 ?_
      have hfresh : param.lexeme ∉ xs := h.1
      exact List.nodup_append.2 ⟨hxs, by simp, by rintro a ha _ hb rfl; simp_all⟩

/-! ## Statements -/

/-- A statement that is linked stays so as more of the program is resolved. -/
theorem lasting_stmt (Γ : List Layer) (st : Stmt) : Lasting fun A => st.Linked A Γ :=
  fun hle h => Stmt.linked_mono hle st h

theorem lasting_stmts (Γ : List Layer) (ss : List Stmt) : Lasting fun A => Stmt.AllLinked A Γ ss :=
  fun hle h => Stmt.allLinked_mono hle ss h

theorem lasting_function (Γ : List Layer) (decl : FunctionDecl) :
    Lasting fun A => decl.Linked A Γ := fun hle h => FunctionDecl.linked_mono hle decl h

theorem lasting_methods (Γ : List Layer) (decls : List FunctionDecl) :
    Lasting fun A => FunctionDecl.AllLinked A Γ decls :=
  fun hle h => FunctionDecl.allLinked_mono hle decls h

/-- A walk inside a scope of its own leaves the scopes around it. -/
theorem Resolves.inScope {Γ : List Layer} {l l' : Layer} {i j : Nat} {scope : Scope}
    {walk : Resolver Unit} {L : Addresses → Prop} (hscope : ScopeShows scope l)
    (h : Resolves (Shows · (l :: Γ)) (Shows · (l' :: Γ)) i j walk L) :
    Resolves (Shows · Γ) (Shows · Γ) i j (inScope scope walk) L := by
  intro s hshows hunlinked hquiet
  rcases h { s with scopes := scope :: s.scopes } (.cons hscope hshows) hunlinked hquiet with
    ⟨hpost, henters⟩
  refine ⟨?_, henters.links, henters.linked⟩
  change Shows (walk { s with scopes := scope :: s.scopes }).2.scopes.tail Γ
  generalize (walk { s with scopes := scope :: s.scopes }).2.scopes = scopes at hpost
  cases hpost with
  | cons _ houter => exact houter

/-- An expression outside of initializers. -/
theorem resolves_plain (ctx : Context) {Γ : List Layer} (hfits : Fits ctx.classKind Γ) (e : Expr)
    {i j : NodeId} (h : e.Formed i j) :
    Resolves (Shows · Γ) (Shows · Γ) i j (expr ctx e) fun A => e.Linked A Γ none := by
  intro s hshows hunlinked hquiet
  rcases resolves_expr ctx none hfits e h s (.plain hshows) hunlinked hquiet with ⟨hview, henters⟩
  cases hview with
  | plain hshows' => exact ⟨hshows', henters⟩

/-- The layers of a function body, from those around the function. -/
theorem Fits.params {kind : ClassKind} {Γ : List Layer} (h : Fits kind Γ) {params : List Token}
    (hparams : ∀ param ∈ params, IsName param.lexeme) :
    Fits kind (.names (params.map Token.lexeme) :: Γ) := by
  refine .names ?_ h
  intro x hx
  rcases List.mem_map.1 hx with ⟨param, hparam, rfl⟩
  exact hparams param hparam

theorem Fits.after {kind : ClassKind} {Γ : List Layer} (h : Fits kind Γ) {st : Stmt}
    {i j : NodeId} (hst : st.Formed i j) : Fits kind (st.after Γ) := by
  unfold Stmt.after
  cases st with
  | classDecl name superclass methods =>
      cases superclass with
      | none => exact h.add hst.1
      | some ref => exact h.add hst.1
  | function decl => exact h.add hst.1
  | varDecl name initializer =>
      cases initializer with
      | none => exact h.add hst.1
      | some e => exact h.add hst.1
  | _ => exact h

theorem resolves_read (ctx : Context) {Γ : List Layer} {ref : Reference} {i j : NodeId}
    (h : i ≤ ref.id ∧ ref.id < j) :
    Resolves (Shows · Γ) (Shows · Γ) i j (read ctx ref) fun A => ref.Linked A Γ :=
  .of_mild (Mild.read _ _) fun _ hshows hunlinked _ =>
    enters_read h.1 h.2 (.plain hshows) hunlinked

/-- A class that names itself as its superclass would be an error. -/
theorem resolves_checkInheritance {pre : List Scope → Prop} (name : Token) (ref : Reference)
    (i : Nat) : Resolves pre pre i i (checkInheritance name ref)
      fun _ => ref.name.lexeme ≠ name.lexeme := by
  refine .of_mild (Mild.checkInheritance name ref) fun s _ _ hquiet => ?_
  unfold checkInheritance at hquiet ⊢
  split at hquiet
  · exact absurd hquiet not_quiet_report
  · rename_i hne
    rw [if_neg hne]
    exact ⟨.refl i i s, hne⟩

theorem links_checkReturn (ctx : Context) (keyword : Token) (value : Option Expr) (s : State) :
    (checkReturn ctx keyword value s).2.links = s.links := by
  unfold checkReturn
  split
  · rfl
  · split <;> rfl

theorem lasting_ref (Γ : List Layer) (ref : Reference) : Lasting fun A => ref.Linked A Γ :=
  fun hle h => h.mono hle

/-- Whether the superclass is looked up in front of the name of the class or behind it makes no
difference, since a class does not inherit from itself. -/
theorem Reference.linked_of_add {A : Addresses} {Γ : List Layer} {ref : Reference} {x : String}
    (h : ref.Linked A (add x Γ)) (hne : ref.name.lexeme ≠ x) : ref.Linked A Γ := by
  unfold Reference.Linked at h ⊢
  rwa [depth?_add_of_ne hne] at h

/-- A class that names a superclass, and then whatever is walked over inside of its scopes. -/
theorem resolves_subclass (ctx : Context) {Γ : List Layer} (hopen : Open Γ) {name : Token}
    {ref : Reference} {i k j : NodeId} (hname : IsName name.lexeme)
    (href : i ≤ ref.id ∧ ref.id < k) (hkj : k ≤ j) {body : Resolver Unit} {L : Addresses → Prop}
    (hbody : Resolves (Shows · (add name.lexeme Γ)) (Shows · (add name.lexeme Γ)) k j body L)
    (hadds : Adds body) (hL : Lasting L) :
    Resolves (Shows · Γ) (Shows · (add name.lexeme Γ)) i j
      (introduce name >>= fun _ => checkInheritance name ref >>= fun _ =>
        read ctx ref >>= fun _ => body)
      fun A => Fresh name.lexeme Γ ∧ ref.Linked A Γ ∧ L A := by
  have hik : i ≤ k := Nat.le_trans href.1 (Nat.le_of_lt href.2)
  have hread := (resolves_read ctx href).seq hbody (Mild.read ctx ref).adds hadds
    (lasting_ref _ _) hL hik hkj
  have hlasting : Lasting fun A => ref.Linked A (add name.lexeme Γ) ∧ L A :=
    fun hle h => ⟨lasting_ref _ _ hle h.1, hL hle h.2⟩
  have hcheck := (resolves_checkInheritance name ref i).seq hread
    (Mild.checkInheritance name ref).adds ((Mild.read ctx ref).adds.bind hadds) (fun _ h => h)
    hlasting (Nat.le_refl i) (Nat.le_trans hik hkj)
  have hall := (resolves_introduce hopen i hname).seq hcheck (adds.introduce name)
    ((Mild.checkInheritance name ref).adds.bind ((Mild.read ctx ref).adds.bind hadds))
    (fun _ h => h) (fun hle h => ⟨h.1, hlasting hle h.2⟩) (Nat.le_refl i) (Nat.le_trans hik hkj)
  -- The class is in scope when its superclass is looked up, but that has another name.
  exact hall.weaken fun _ h => ⟨h.1, Reference.linked_of_add h.2.2.1 h.2.1, h.2.2.2⟩

mutual

/-- By induction on the statement. Its parts have ranges that are apart, so what one of them enters
leaves the others alone. -/
theorem resolves_stmt (ctx : Context) {Γ : List Layer} (hopen : Open Γ)
    (hfits : Fits ctx.classKind Γ) : ∀ (st : Stmt) {i j : NodeId}, st.Formed i j →
    Resolves (Shows · Γ) (Shows · (st.after Γ)) i j (stmt ctx st) fun A => st.Linked A Γ
  | .block body, i, j, h => by
      have hopen' : Open (.names [] :: Γ) := trivial
      have hbody := resolves_stmts ctx hopen' (.names nofun hfits) body h
      rcases Stmt.afterAll_names Γ body [] with ⟨ys, hys⟩
      rw [hys] at hbody
      exact hbody.inScope scopeShows_empty
  | .classDecl name none methods, i, j, ⟨hname, hmethods⟩ => by
      have hfits' : Fits .base (.this :: add name.lexeme Γ) := .base
      have hbody := (resolves_methods { ctx with classKind := .base } hfits' methods
        hmethods).inScope scopeShows_this
      have hboth := (resolves_introduce hopen i hname).seq hbody (adds.introduce name)
        (adds.inScope _ (adds.methods _ methods)) (fun _ h => h) (lasting_methods _ _)
        (Nat.le_refl i) (FunctionDecl.le_of_allFormed hmethods)
      exact hboth.weaken fun _ h => ⟨hname, h⟩
  | .classDecl name (some ref) methods, i, j, ⟨hname, k, href, hmethods⟩ => by
      have hfits' : Fits .derived (.this :: .super :: add name.lexeme Γ) := .derived
      have hbody := ((resolves_methods { ctx with classKind := .derived } hfits' methods
        hmethods).inScope scopeShows_this).inScope scopeShows_super
      have hmethods' := adds.methods { ctx with classKind := .derived } methods
      have hadds := adds.inScope superScope (adds.inScope thisScope hmethods')
      have hall := resolves_subclass ctx hopen hname href (FunctionDecl.le_of_allFormed hmethods)
        hbody hadds (lasting_methods _ _)
      exact hall.weaken fun _ h => ⟨hname, h⟩
  | .expression e, i, j, h => resolves_plain ctx hfits e h
  | .print e, i, j, h => resolves_plain ctx hfits e h
  | .function decl, i, j, ⟨hname, hdecl⟩ => by
      have hbody := resolves_function { ctx with function := .function } (hfits.add hname) decl
        hdecl
      have hboth := (resolves_introduce hopen i hname).seq hbody (adds.introduce decl.name)
        (adds.function _ decl) (fun _ h => h) (lasting_function _ _) (Nat.le_refl i)
        (FunctionDecl.le_of_formed hdecl)
      exact hboth.weaken fun _ h => ⟨hname, h⟩
  | .ifElse condition thenBranch none, i, j, ⟨hdeclared, k, hcondition, hthen⟩ => by
      have hbranch := resolves_stmt ctx hopen hfits thenBranch hthen
      rw [Stmt.after_eq hdeclared] at hbranch
      have hboth := (resolves_plain ctx hfits condition hcondition).seq hbranch
        (Mild.expr ctx condition).adds (adds.stmt ctx thenBranch) (lasting_expr _ _ _)
        (lasting_stmt _ _) hcondition.le (Stmt.le_of_formed hthen)
      exact hboth.weaken fun _ h => ⟨h.1, h.2, hdeclared⟩
  | .ifElse condition thenBranch (some elseBranch), i, j,
      ⟨hdeclared, hdeclared', k, l, hcondition, hthen, helse⟩ => by
      have hbranch := resolves_stmt ctx hopen hfits thenBranch hthen
      rw [Stmt.after_eq hdeclared] at hbranch
      have hbranch' := resolves_stmt ctx hopen hfits elseBranch helse
      rw [Stmt.after_eq hdeclared'] at hbranch'
      have hbranches := hbranch.seq hbranch' (adds.stmt ctx thenBranch) (adds.stmt ctx elseBranch)
        (lasting_stmt _ _) (lasting_stmt _ _) (Stmt.le_of_formed hthen) (Stmt.le_of_formed helse)
      have hall := (resolves_plain ctx hfits condition hcondition).seq hbranches
        (Mild.expr ctx condition).adds ((adds.stmt ctx thenBranch).bind (adds.stmt ctx elseBranch))
        (lasting_expr _ _ _) (fun hle h => ⟨lasting_stmt _ _ hle h.1, lasting_stmt _ _ hle h.2⟩)
        hcondition.le (Nat.le_trans (Stmt.le_of_formed hthen) (Stmt.le_of_formed helse))
      exact hall.weaken fun _ h => ⟨h.1, ⟨h.2.1, hdeclared⟩, h.2.2, hdeclared'⟩
  | .returnValue keyword none, i, j, h => by
      have hcheck : Resolves (Shows · Γ) (Shows · Γ) i i (checkReturn ctx keyword none) _ :=
        .of_check (Mild.checkReturn ctx keyword none) (links_checkReturn ctx keyword none) i
      have hboth := hcheck.seq (.pure i j) (Mild.checkReturn ctx keyword none).adds Mild.pure.adds
        (fun _ h => h) (fun _ h => h) (Nat.le_refl i) h
      exact hboth.weaken fun _ _ => trivial
  | .returnValue keyword (some e), i, j, h => by
      have hcheck : Resolves (Shows · Γ) (Shows · Γ) i i (checkReturn ctx keyword (some e)) _ :=
        .of_check (Mild.checkReturn ctx keyword (some e))
          (links_checkReturn ctx keyword (some e)) i
      have hboth := hcheck.seq (resolves_plain ctx hfits e h)
        (Mild.checkReturn ctx keyword (some e)).adds (Mild.expr ctx e).adds
        (fun _ h => h) (lasting_expr _ _ _) (Nat.le_refl i) (Expr.Formed.le h)
      exact hboth.weaken fun _ h => h.2
  | .varDecl name none, i, j, ⟨hname, hle⟩ => by
      have hintroduce := (resolves_introduce hopen i hname).mono (fun _ h => h) (Nat.le_refl i) hle
      exact hintroduce.weaken fun _ h => ⟨hname, h⟩
  | .varDecl name (some e), i, j, ⟨hname, he⟩ => by
      -- Between its declaration and its definition the name waits.
      have hvalue := (resolves_expr ctx (Layer.self Γ name.lexeme) hfits e he).seq
        (resolves_define j name) (Mild.expr ctx e).adds (Adds.define name) (lasting_expr _ _ _)
        (fun _ h => h) he.le (Nat.le_refl j)
      have hall := (resolves_declare hopen i hname).seq hvalue (Adds.declare name)
        ((Mild.expr ctx e).adds.bind (Adds.define name)) (fun _ h => h)
        (fun hle h => ⟨lasting_expr _ _ _ hle h.1, trivial⟩) (Nat.le_refl i) he.le
      exact hall.weaken fun _ h => ⟨hname, h.1, h.2.1⟩
  | .whileLoop condition body, i, j, ⟨hdeclared, h⟩ => by
      have hboth := Resolves.apart h (resolves_plain ctx hfits condition)
        (resolves_stmt ctx hopen hfits body) (Mild.expr ctx condition).adds (adds.stmt ctx body)
        (lasting_expr _ _ _) (lasting_stmt _ _) Expr.Formed.le Stmt.le_of_formed
      rw [Stmt.after_eq hdeclared] at hboth
      exact hboth.weaken fun _ h => ⟨h.1, h.2, hdeclared⟩

/-- By induction on the statements: each is resolved where those before it are declared. -/
theorem resolves_stmts (ctx : Context) {Γ : List Layer} (hopen : Open Γ)
    (hfits : Fits ctx.classKind Γ) : ∀ (ss : List Stmt) {i j : NodeId}, Stmt.AllFormed ss i j →
    Resolves (Shows · Γ) (Shows · (Stmt.afterAll Γ ss)) i j (stmts ctx ss)
      fun A => Stmt.AllLinked A Γ ss
  | [], i, j, _ => .pure i j
  | st :: ss, i, j, h => by
      have hfits' : Fits ctx.classKind (st.after Γ) := by
        rcases h with ⟨k, h | h⟩
        · exact hfits.after h.1
        · exact hfits.after h.2
      exact Resolves.apart h (resolves_stmt ctx hopen hfits st)
        (resolves_stmts ctx (hopen.after st) hfits' ss) (adds.stmt ctx st) (adds.stmts ctx ss)
        (lasting_stmt _ _) (lasting_stmts _ _) Stmt.le_of_formed Stmt.le_of_allFormed

/-- A body is resolved in one layer with the parameters, inside of all that is around the
function. -/
theorem resolves_function (ctx : Context) {Γ : List Layer} (hfits : Fits ctx.classKind Γ) :
    ∀ (decl : FunctionDecl) {i j : NodeId}, decl.Formed i j →
    Resolves (Shows · Γ) (Shows · Γ) i j (function ctx decl) fun A => decl.Linked A Γ
  | ⟨name, params, body⟩, i, j, ⟨hparams, hbody⟩ => by
      have hopen : Open (.names ([] ++ params.map Token.lexeme) :: Γ) := trivial
      have hboth := (resolves_parameters i params hparams).seq
        (resolves_stmts ctx hopen (hfits.params hparams) body hbody) (adds.parameters params)
        (adds.stmts ctx body) (fun _ h => h) (lasting_stmts _ _) (Nat.le_refl i)
        (Stmt.le_of_allFormed hbody)
      rcases Stmt.afterAll_names Γ body ([] ++ params.map Token.lexeme) with ⟨ys, hys⟩
      rw [hys] at hboth
      exact (hboth.inScope scopeShows_empty).weaken_known fun _ hknown h =>
        ⟨hparams, h.1 List.nodup_nil, h.2, fun _ => hknown _ _⟩

theorem resolves_methods (ctx : Context) {Γ : List Layer} (hfits : Fits ctx.classKind Γ) :
    ∀ (decls : List FunctionDecl) {i j : NodeId}, FunctionDecl.AllFormed decls i j →
    Resolves (Shows · Γ) (Shows · Γ) i j (methods ctx decls)
      fun A => FunctionDecl.AllLinked A Γ decls
  | [], i, j, _ => .pure i j
  | decl :: decls, _, _, ⟨_, hdecl, hdecls⟩ => by
      have hfirst := resolves_function { ctx with function := methodKind decl.name } hfits decl hdecl
      have hrest := resolves_methods ctx hfits decls hdecls
      exact hfirst.seq hrest (adds.function _ decl) (adds.methods ctx decls) (lasting_function _ _)
        (lasting_methods _ _) (FunctionDecl.le_of_formed hdecl) (FunctionDecl.le_of_allFormed hdecls)

end

end Resolver

def Resolution.addresses (r : Resolution) (i j : NodeId) : Addresses :=
  ⟨fun id => r.links[id]?, i, j, fun _ _ => True⟩

/-- A program that is resolved without a fault is linked, and only its own numbers have
distances. -/
theorem resolve_linked {statements : List Stmt} {knownGlobals : List String} {i j : NodeId}
    (hformed : Stmt.AllFormed statements i j) (h : (resolve statements knownGlobals).errors = []) :
    Stmt.AllLinked ((resolve statements knownGlobals).addresses i j) [] statements ∧
      ∀ id, id < i ∨ j ≤ id → (resolve statements knownGlobals).links[id]? = none := by
  have hlength := congrArg List.length h
  simp only [resolve, List.length_mergeSort, List.length_append, List.length_nil] at hlength
  have hopen : Resolver.Open [] := trivial
  have hresolves := Resolver.resolves_stmts ⟨.none, .none⟩ hopen .none statements hformed
  have hempty : ∀ id : NodeId, (∅ : Links)[id]? = none := fun id => by simp
  rcases hresolves (Resolver.start knownGlobals) .nil (fun id _ _ => hempty id)
    (Nat.le_of_eq (Nat.eq_zero_of_add_eq_zero_right hlength)) with ⟨-, henters⟩
  exact ⟨henters.linked, fun id hid => (henters.links id hid).trans (hempty id)⟩

end LoxLang
