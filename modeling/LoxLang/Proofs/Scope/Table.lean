import LoxLang.Proofs.Parsing.Numbering
import LoxLang.Proofs.Scope.Findings

/-!
# The table of addresses

What the table holds when a program has been resolved: for each expression that uses a name the
nearest scope in which that name is bound, and nothing else. Faults make no difference to it, and
neither do the globals that are known.

* `Resolver.links_eq_some_iff_mem`: the table of a program holds the entries of its places.
* `Program.links_eq_address?`: an expression finds its address there.
* `Program.links_lexical`: the table says how names are bound.
-/

namespace LoxLang

/-! ## Entries -/

/-- An entry is made for an expression with an address. -/
theorem Place.link?_eq_some {p : Place} {entry : NodeId × Nat} (h : p.link? = some entry) :
    ∃ e, p.use? = some e ∧ e.id = entry.1 ∧ p.around.address? e = some entry.2 := by
  rcases p with ⟨σ, e | _ | _ | _⟩
  · rcases Option.map_eq_some_iff.1 h with ⟨d, haddress, rfl⟩
    exact ⟨e, rfl, rfl, haddress⟩
  all_goals cases h

namespace Resolver

/-- What is in a table behind some entries, each for a number of its own. -/
theorem enterAll_eq_some_iff {id : NodeId} {d : Nat} {entries : List (NodeId × Nat)} :
    ∀ {links : Links}, (entries.map Prod.fst).Nodup →
      ((enterAll links entries)[id]? = some d ↔
        (id, d) ∈ entries ∨ id ∉ entries.map Prod.fst ∧ links[id]? = some d) := by
  induction entries with
  | nil => simp [enterAll]
  | cons entry entries ih =>
      intro links hnodup
      rcases entry with ⟨k, d'⟩
      rcases List.nodup_cons.1 hnodup with ⟨hk, hrest⟩
      have hfold : enterAll links ((k, d') :: entries) = enterAll (links.insert k d') entries := rfl
      rw [hfold, ih hrest, Std.TreeMap.getElem?_insert]
      -- No later entry is for the number of the first one.
      by_cases hkey : k = id
      · subst hkey
        have hfresh : (k, d) ∉ entries := fun h => hk (List.mem_map.2 ⟨_, h, rfl⟩)
        simp [hk, hfresh, eq_comm]
      · have hne : compare k id ≠ .eq := fun h => hkey (Nat.compare_eq_eq.1 h)
        have hne' : id ≠ k := fun h => hkey h.symm
        simp [hne, hne']

/-- The entries of some places are for numbers of expressions that are used there. -/
theorem sublist_entries (ps : List Place) :
    ((ps.filterMap Place.link?).map Prod.fst).Sublist
      ((ps.filterMap Place.use?).map Expr.id) := by
  induction ps with
  | nil => exact .refl _
  | cons p ps ih =>
      cases hentry : p.link? with
      | none =>
          rw [List.filterMap_cons_none hentry]
          exact ih.trans (((List.sublist_cons_self p ps).filterMap _).map _)
      | some entry =>
          rcases Place.link?_eq_some hentry with ⟨e, he, hid, -⟩
          rw [List.filterMap_cons_some hentry, List.filterMap_cons_some he, List.map_cons,
            List.map_cons, hid]
          exact ih.cons_cons _

/-- The table of a program holds the entries of its places, whatever globals are known. -/
theorem links_eq_some_iff_mem {ss : List Stmt} (hshaped : Stmt.AllShaped Named ss)
    (hnodup : ((Stmt.allNodes ss).map Expr.id).Nodup) (known : List String) {id : NodeId}
    {d : Nat} :
    (resolve ss known).links[id]? = some d ↔
      (id, d) ∈ (Stmt.allPlaced .top ss).filterMap Place.link? := by
  rcases (walks_program hshaped known).2.links with ⟨entries, hentries, hlinks⟩
  -- No entry is overwritten, since the expressions have different numbers.
  have hkeys : (entries.map Prod.fst).Nodup := by
    rw [(hentries.map Prod.fst).nodup_iff]
    refine (sublist_entries _).nodup ?_
    rwa [Stmt.uses_allPlaced]
  have htable : (resolve ss known).links = enterAll ∅ entries := hlinks
  rw [htable, enterAll_eq_some_iff hkeys, ← hentries.mem_iff]
  simp

end Resolver

/-! ## Addresses -/

/-- Places where expressions of the same number are used are the same. -/
theorem Place.eq_of_id_eq {ps : List Place}
    (hnodup : ((ps.filterMap Place.use?).map Expr.id).Nodup) {p p' : Place} (hp : p ∈ ps)
    (hp' : p' ∈ ps) {e e' : Expr} (he : p.use? = some e) (he' : p'.use? = some e')
    (hid : e.id = e'.id) : p = p' := by
  induction ps with
  | nil => cases hp
  | cons q ps ih =>
      -- An expression at `q` has a number that is not given out again.
      have hfirst : ∀ {q' : Place} {e e' : Expr}, q' ∈ ps → q.use? = some e →
          q'.use? = some e' → e.id ≠ e'.id := by
        intro q' e e' hq' he he' hid
        rw [List.filterMap_cons_some he] at hnodup
        refine (List.nodup_cons.1 hnodup).1 ?_
        exact List.mem_map.2 ⟨e', List.mem_filterMap.2 ⟨q', hq', he'⟩, hid.symm⟩
      have hrest : ((ps.filterMap Place.use?).map Expr.id).Nodup :=
        (((List.sublist_cons_self q ps).filterMap _).map _).nodup hnodup
      rcases List.mem_cons.1 hp with rfl | hmem <;> rcases List.mem_cons.1 hp' with rfl | hmem'
      · rfl
      · exact absurd hid (hfirst hmem' he he')
      · exact absurd hid.symm (hfirst hmem he' he)
      · exact ih hrest hmem hmem'

/-- Where a name is bound at all, there is a nearest scope in which it is. -/
theorem Surroundings.Binds.exists_nearest {σ : Surroundings} {e : Expr} {x : String} {d : Nat}
    (h : σ.Binds e x d) : ∃ d, σ.Binds e x d ∧ ∀ d' < d, ¬ σ.Binds e x d' := by
  induction d using Nat.strongRecOn with
  | ind d ih =>
      by_cases hnearer : ∃ d' < d, σ.Binds e x d'
      · rcases hnearer with ⟨d', hd', hbinds⟩
        exact ih d' hd' hbinds
      · exact ⟨d, h, fun d' hd' hbinds => hnearer ⟨d', hd', hbinds⟩⟩

/-- Outside of initializers no assignment is left out. -/
theorem Surroundings.not_assignsSelf {σ : Surroundings} (h : σ.self = none) (e : Expr) :
    ¬ σ.AssignsSelf e := by
  cases e with
  | assign id name value =>
      rintro ⟨-, hself⟩
      rw [h] at hself
      cases hself
  | _ => exact not_false

namespace Program

/-- The expressions of a source have different numbers. -/
theorem nodup_ofSource (source : String) (firstId : NodeId) :
    ((ofSource source firstId).nodes.map Expr.id).Nodup := by
  rcases numbered (Token.scan source).1 firstId with ⟨_, _, _, hnumbered⟩
  exact hnumbered.nodup

/-- The entry of an expression is its address. -/
theorem links_eq_address? (source : String) (firstId : NodeId) (known : List String)
    {σ : Surroundings} {e : Expr}
    (h : ⟨σ, .use e⟩ ∈ Stmt.allPlaced .top (ofSource source firstId).statements) :
    (resolve (ofSource source firstId).statements known).links[e.id]? = σ.address? e := by
  have hnodup := nodup_ofSource source firstId
  ext d
  rw [Resolver.links_eq_some_iff_mem (shaped_ofSource source firstId) hnodup known,
    List.mem_filterMap]
  constructor
  · rintro ⟨p, hp, hentry⟩
    rcases Place.link?_eq_some hentry with ⟨e', he', hid, haddress⟩
    -- The entry was made at the same place, since the number is used nowhere else.
    rw [nodes, ← Stmt.uses_allPlaced .top] at hnodup
    cases Place.eq_of_id_eq hnodup hp h he' rfl hid
    cases he'
    exact haddress
  · intro haddress
    exact ⟨_, h, by rw [Place.link?, haddress]; rfl⟩

/-- The entry of an expression is the distance of the nearest scope in which its name is bound. -/
theorem links_eq_some_iff_binds (source : String) (firstId : NodeId) (known : List String)
    {σ : Surroundings} {e : Expr} {d : Nat}
    (h : ⟨σ, .use e⟩ ∈ Stmt.allPlaced .top (ofSource source firstId).statements)
    (hself : ¬ σ.AssignsSelf e) :
    (resolve (ofSource source firstId).statements known).links[e.id]? = some d ↔
      ∃ x, e.name? = some x ∧ σ.Binds e x d ∧ ∀ d' < d, ¬ σ.Binds e x d' := by
  rw [links_eq_address? source firstId known h]
  exact Surroundings.address?_eq_some_iff hself

/-- There are entries for expressions of the program only. -/
theorem exists_node_of_mem_links {source : String} {firstId : NodeId} {known : List String}
    {id : NodeId} (h : id ∈ (resolve (ofSource source firstId).statements known).links) :
    ∃ e ∈ (ofSource source firstId).nodes, e.id = id := by
  rw [Std.TreeMap.mem_iff_isSome_getElem?, Option.isSome_iff_exists] at h
  rcases h with ⟨d, hd⟩
  have hmem := (Resolver.links_eq_some_iff_mem (shaped_ofSource source firstId)
    (nodup_ofSource source firstId) known).1 hd
  have huse := (Resolver.sublist_entries _).mem (List.mem_map_of_mem hmem)
  rw [Stmt.uses_allPlaced] at huse
  exact List.mem_map.1 huse

/-- The table of addresses is lexical scope. Every expression of a program has its place. It has an
entry just if it uses a name that is bound around its place, and the entry says how far out the
nearest scope is that binds it; an assignment to a local variable in its own initializer is left
out. There are no other entries, whether or not the program has faults, and the globals that are
known make no difference. -/
theorem links_lexical (source : String) (firstId : NodeId) (known : List String) :
    let p := ofSource source firstId
    let places := Stmt.allPlaced .top p.statements
    let links := (resolve p.statements known).links
    places.filterMap Place.use? = p.nodes ∧
      (∀ σ e, ⟨σ, .use e⟩ ∈ places → ¬ σ.AssignsSelf e →
        (e.id ∈ links ↔ ∃ x d, e.name? = some x ∧ σ.Binds e x d) ∧
        ∀ d, links[e.id]? = some d →
          ∃ x, e.name? = some x ∧ σ.Binds e x d ∧ ∀ d' < d, ¬ σ.Binds e x d') ∧
      (∀ id ∈ links, ∃ e ∈ p.nodes, e.id = id) ∧
      ∀ (known' : List String) (id : NodeId),
        (resolve p.statements known').links[id]? = links[id]? := by
  intro p places links
  refine ⟨Stmt.uses_allPlaced _ _, fun σ e h hself => ?_, fun id => exists_node_of_mem_links,
    fun known' id => ?_⟩
  -- an entry is the least distance at which the name is bound
  · have hentry : ∀ d, links[e.id]? = some d ↔ _ := fun d =>
      links_eq_some_iff_binds source firstId known h hself
    refine ⟨?_, fun d => (hentry d).1⟩
    rw [Std.TreeMap.mem_iff_isSome_getElem?, Option.isSome_iff_exists]
    constructor
    · rintro ⟨d, hd⟩
      rcases (hentry d).1 hd with ⟨x, hx, hbinds, -⟩
      exact ⟨x, d, hx, hbinds⟩
    · rintro ⟨x, d, hx, hbinds⟩
      rcases hbinds.exists_nearest with ⟨d, hnearest⟩
      exact ⟨d, (hentry d).2 ⟨x, hx, hnearest⟩⟩
  -- the places are the same whatever is known, and so are the entries
  · have hshaped := shaped_ofSource source firstId
    have hnodup := nodup_ofSource source firstId
    ext d
    rw [Resolver.links_eq_some_iff_mem hshaped hnodup known',
      Resolver.links_eq_some_iff_mem hshaped hnodup known]

/-- The name that is printed is bound one scope out, and nowhere nearer. -/
theorem links_lexical_outer :
    let p := ofSource "\x7b var a = 1; \x7b print a; \x7d \x7d" 0
    let links := (resolve p.statements []).links
    ∃ σ e, ⟨σ, .use e⟩ ∈ Stmt.allPlaced .top p.statements ∧ ¬ σ.AssignsSelf e ∧ e.id ∈ links ∧
      links[e.id]? = some 1 ∧
        ∃ x, e.name? = some x ∧ σ.Binds e x 1 ∧ ∀ d' < 1, ¬ σ.Binds e x d' := by
  intro p links
  -- the `print` reads node 1, which is not being initialized there
  have hread : (Stmt.allPlaced .top p.statements).any (fun place =>
      place.use?.any fun e => e.id == 1 && place.around.self == none) = true := by decide +kernel
  have hentry : links[1]? = some 1 := by decide +kernel
  rcases List.any_eq_true.1 hread with ⟨⟨σ, what⟩, hmem, hwhat⟩
  cases what with
  | use e =>
      have hwhere : (e.id == 1 && σ.self == none) = true := hwhat
      simp only [Bool.and_eq_true, beq_iff_eq] at hwhere
      have hself : ¬ σ.AssignsSelf e := Surroundings.not_assignsSelf hwhere.2 e
      have hlink : links[e.id]? = some 1 := hwhere.1 ▸ hentry
      have hplace := (links_lexical _ 0 []).2.1 σ e hmem hself
      rcases hplace.2 1 hlink with ⟨x, hx, hbinds, hfirst⟩
      exact ⟨σ, e, hmem, hself, hplace.1.2 ⟨x, 1, hx, hbinds⟩, hlink, x, hx, hbinds, hfirst⟩
  | _ => cases hwhat

end Program

end LoxLang
