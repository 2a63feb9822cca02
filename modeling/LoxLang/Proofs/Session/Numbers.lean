import LoxLang.Proofs.Parsing.Numbering
import LoxLang.Proofs.Session.Scoped

/-!
# Numbers of a session

Expressions that are read one after the other all have numbers of their own, so the addresses of one
source are never those of another one.

* `Program.readAll` reads token lists in turn, with one numbering for all of them.
* `Session.links_run`: a run only ever adds addresses.
* `Session.numbers_distinct` puts together what readings and runs do to the numbering.
-/

namespace LoxLang

/-! ## Readings -/

namespace Program

/-- Reads token lists one after the other, each one numbered from where the last one stopped. -/
def readAll : List (List Token) → NodeId → List Program
  | [], _ => []
  | tokens :: more, firstId =>
    ofTokens tokens firstId :: readAll more (ofTokens tokens firstId).nextId

/-- By induction on the lists: each one is numbered from where the one before it ended. -/
theorem numbered_readAll (lists : List (List Token)) (firstId : NodeId) :
    ∃ next, Numbered ((readAll lists firstId).flatMap nodes) firstId next := by
  induction lists generalizing firstId with
  | nil => exact ⟨firstId, .nil (Nat.le_refl firstId)⟩
  | cons tokens more ih =>
      rcases numbered tokens firstId with ⟨-, -, -, hfirst⟩
      rcases ih (ofTokens tokens firstId).nextId with ⟨next, hmore⟩
      exact ⟨next, hfirst.append hmore⟩

/-- What a reading gives out, to expressions that are kept and to others, is behind all that was
given out before it, and in front of all that is given out after it. -/
theorem gives_between (tokens : List Token) (firstId : NodeId) :
    (∃ ids, Gives tokens firstId ids) ∧ ∀ ids, Gives tokens firstId ids →
      (∀ e ∈ (ofTokens tokens firstId).nodes, e.id ∈ ids) ∧
      ∀ id ∈ ids, firstId ≤ id ∧ id < (ofTokens tokens firstId).nextId := by
  rcases numbered tokens firstId with ⟨count, hnext, hgives, hnumbered⟩
  refine ⟨⟨_, (hgives _).2 rfl⟩, ?_⟩
  intro ids hids
  have hmem : ∀ id, id ∈ ids ↔ firstId ≤ id ∧ id < (ofTokens tokens firstId).nextId := by
    intro id
    rw [(hgives ids).1 hids, List.mem_range'_1, hnext]
  exact ⟨fun e he => (hmem e.id).2 (hnumbered.range e he), fun id => (hmem id).1⟩

end Program

/-! ## Addresses -/

namespace Session

/-- The addresses of a source are entered if it has no static errors, and none of them is there
already. -/
theorem links_run {s : Session} (h : s.Sound) (host : Host) (source : String) :
    let run := s.run host source
    let links := (resolve (s.reads source) s.globals.names).links
    (run.1.exit = .staticError ∧ run.2.links = s.links) ∨
      run.2.links = s.links ∪ links ∧ ∀ id ∈ links, id ∉ s.links := by
  intro run links
  rcases s.run_cases host source with
    ⟨errors, stages, j, herrors, -, hrun⟩ | ⟨ts, ss, j, stages, haccepts, hrun⟩
  · have hexit : run.1.exit = .staticError := by
      simp [run, hrun, Report.exit, Report.rejected, herrors]
    exact .inl ⟨hexit, congrArg (fun run => run.2.links) hrun⟩
  · have hlinks : links = (resolve ss s.globals.names).links := by
      change (resolve (s.reads source) _).links = _
      rw [haccepts.reads_eq]
    refine .inr ⟨?_, ?_⟩
    · rw [hlinks]
      exact congrArg (fun run => run.2.links) hrun
    · intro id hid hold
      rw [Std.TreeMap.mem_iff_isSome_getElem?] at hid hold
      rw [hlinks] at hid
      -- The source has addresses from the next number on, and the session only below it.
      have hunlinked := (resolve_linked haccepts.formed haccepts.resolved).2 id
      by_cases hlt : id < s.nextId
      · simp [hunlinked (.inl hlt)] at hid
      · simp [h.unlinked id (Nat.le_of_not_lt hlt)] at hold

/-- An address that has been entered stays. -/
theorem links_run_of_some {s : Session} (h : s.Sound) (host : Host) (source : String) {id : NodeId}
    {distance : Nat} (hid : s.links[id]? = some distance) :
    (s.run host source).2.links[id]? = some distance := by
  rcases links_run h host source with ⟨-, hlinks⟩ | ⟨hlinks, hnew⟩
  · rw [hlinks, hid]
  · rw [hlinks, Std.TreeMap.getElem?_union, hid]
    have hold : id ∈ s.links := Std.TreeMap.mem_iff_isSome_getElem?.2 (by simp [hid])
    rw [Std.TreeMap.getElem?_eq_none fun hmem => hnew id hmem hold, Option.none_or]

/-- No two expressions that are read in turn have the same number, whatever faults the token lists
have, and each has a greater number than its parts; what a reading gives out lies between the next
numbers before and behind it, also where it is thrown away. So a run of a session adds the addresses
of its source to others, replaces none, and has addresses only for numbers that have been given
out. -/
theorem numbers_distinct (lists : List (List Token)) (firstId : NodeId)
    (history : List (Host × String)) (host : Host) (source : String) :
    let es := (Program.readAll lists firstId).flatMap Program.nodes
    let s := after history
    let run := s.run host source
    let links := (resolve (s.reads source) s.globals.names).links
    ((es.map Expr.id).Nodup ∧ ∀ e ∈ es, ∀ part ∈ e.parts, part.id < e.id) ∧
    (∀ tokens i, (∃ ids, Program.Gives tokens i ids) ∧ ∀ ids, Program.Gives tokens i ids →
      (∀ e ∈ (Program.ofTokens tokens i).nodes, e.id ∈ ids) ∧
      ∀ id ∈ ids, i ≤ id ∧ id < (Program.ofTokens tokens i).nextId) ∧
    ((run.1.exit = .staticError ∧ run.2.links = s.links) ∨
      run.2.links = s.links ∪ links ∧ ∀ id ∈ links, id ∉ s.links) ∧
    (∀ (id : NodeId) (distance : Nat),
      s.links[id]? = some distance → run.2.links[id]? = some distance) ∧
    ∀ id ∈ run.2.links, id < run.2.nextId := by
  intro es s run links
  rcases Program.numbered_readAll lists firstId with ⟨next, hes⟩
  have hsound : s.Sound := after_sound history
  refine ⟨⟨hes.nodup, hes.below⟩, Program.gives_between, links_run hsound host source,
    fun _ _ => links_run_of_some hsound host source, ?_⟩
  intro id hid
  refine Nat.lt_of_not_le fun hle => ?_
  -- no entry is made for a number that has not been given out
  have hnone : run.2.links[id]? = none := (run_sound hsound host source).1.unlinked id hle
  simp [Std.TreeMap.mem_iff_isSome_getElem?, hnone] at hid

/-- Two token lists, of which the first one has a faulty statement, a target that is replaced and a
loop without a condition; and two blocks whose variables get addresses of their own. -/
theorem numbers_distinct_faulty :
    let lists := [(Token.scan "1 + 2 = 3; a b; c.d = 4; for (;;) e;").1, (Token.scan "-f;").1]
    let es := (Program.readAll lists 0).flatMap Program.nodes
    let host : Host := .standard ⟨0⟩
    let s := after [(host, "\x7b var a = 1; print a; \x7d")]
    let run := s.run host "\x7b var b = 2; print b; \x7d"
    (es.map Expr.id = [0, 1, 2, 5, 7, 8, 10, 9, 11, 12] ∧ (es.map Expr.id).Nodup) ∧
      s.links[1]? = some 0 ∧ run.2.links[1]? = some 0 ∧ run.2.links[3]? = some 0 := by
  intro lists es host s run
  -- the numbers of what was thrown away are missing
  have hids : es.map Expr.id = [0, 1, 2, 5, 7, 8, 10, 9, 11, 12] := by decide +kernel
  have hold : s.links[1]? = some 0 := by decide +kernel
  have hnew : run.2.links[3]? = some 0 := by decide +kernel
  rcases numbers_distinct lists 0 [(host, "\x7b var a = 1; print a; \x7d")] host
    "\x7b var b = 2; print b; \x7d" with ⟨⟨hnodup, -⟩, -, -, hkept, -⟩
  exact ⟨⟨hids, hnodup⟩, hold, hkept 1 0 hold, hnew⟩

end Session

end LoxLang
