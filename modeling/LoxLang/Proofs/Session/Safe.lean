import LoxLang.Proofs.Eval.Safe
import LoxLang.Proofs.Session.Basic

/-!
# Sessions do not fail

Whatever has been run in a session before, a source that passes all checks is executed without a
failure that the checks rule out.

A session stays sound: its machine is sound for the addresses of all programs that were run in it,
and no number that is still to be given out has an address. Programs have ranges of numbers of their
own, so the addresses of a new one are in nobody's way, and a run that was aborted leaves functions
behind that are as good as any.
-/

namespace LoxLang

/-- A machine on which nothing has run is sound, whatever the addresses are. -/
theorem Machine.start_sound (A : Addresses) : Machine.start.Sound A fun _ => True := by
  have hglobals : FrameOk Machine.start.store 0 (.names []) := ⟨by decide, fun _ hx => by cases hx⟩
  refine ⟨hglobals, fun _ _ => trivial, ?_, ?_⟩
  · intro id
    exact ⟨[], .top hglobals, FunctionDecl.linked_default A [], fun h => by cases h⟩
  · intro id name f hf
    cases hf

namespace Session

/-- The distances of all names in the programs that were run, with what is known of their
functions. -/
def addresses (K : List Layer → FunctionDecl → Prop) (s : Session) : Addresses :=
  ⟨fun id => s.links[id]?, 0, s.nextId, K⟩

structure SoundFor (K : List Layer → FunctionDecl → Prop) (s : Session) : Prop where
  machine : s.machine.Sound (s.addresses K) fun _ => True
  unlinked : ∀ id, s.nextId ≤ id → s.links[id]? = none

/-- A session that is sound, whatever its functions are. -/
abbrev Sound (s : Session) : Prop := s.SoundFor fun _ _ => True

variable {K K' : List Layer → FunctionDecl → Prop}

/-- A new session has no functions and no entries, so nothing can be wrong with it. -/
theorem start_sound : start.SoundFor K := ⟨Machine.start_sound _, fun id _ => by simp [start]⟩

/-- A program that is not run leaves a gap in the numbering only. -/
theorem SoundFor.skip {s : Session} (h : s.SoundFor K) (hK : ∀ Γ decl, K Γ decl → K' Γ decl)
    {j : NodeId} (hj : s.nextId ≤ j) : SoundFor K' { s with nextId := j } := by
  have hle : s.addresses K ≤ addresses K' { s with nextId := j } :=
    ⟨Nat.le_refl 0, hj, fun _ _ _ => rfl, hK⟩
  exact ⟨h.machine.mono hle, fun id hid => h.unlinked id (Nat.le_trans hj hid)⟩

/-- The addresses of a program are new. -/
theorem links_union {s : Session} (h : s.SoundFor K) {r : Links} {j : NodeId}
    (hr : ∀ id, id < s.nextId ∨ j ≤ id → r[id]? = none) (id : NodeId) :
    (s.links ∪ r)[id]? = if id < s.nextId then s.links[id]? else r[id]? := by
  rw [Std.TreeMap.getElem?_union]
  split
  · rename_i hid
    rw [hr id (.inl hid), Option.none_or]
  · rename_i hid
    rw [h.unlinked id (Nat.le_of_not_lt hid), Option.or_none]

/-- The session in which the addresses of a program have been entered. -/
def enter (s : Session) (j : NodeId) (links : Links) : Session :=
  { s with nextId := j, links := s.links ∪ links }

/-- A program that is accepted is linked, and the machine that it runs on stays sound. -/
theorem enter_sound {s : Session} (h : s.SoundFor K) (hK : ∀ Γ decl, K Γ decl → K' Γ decl)
    {source : String} {ts : List Token} {ss : List Stmt} {j : NodeId}
    (haccepts : s.Accepts source ts ss j)
    (hlinked : Stmt.AllLinked
      { (resolve ss s.globals.names).addresses s.nextId j with known := K' } [] ss) :
    (s.enter j (resolve ss s.globals.names).links).SoundFor K' ∧
      Stmt.AllLinked ((s.enter j (resolve ss s.globals.names).links).addresses K') [] ss := by
  have hij : s.nextId ≤ j := Stmt.le_of_allFormed haccepts.formed
  have hunlinked := (resolve_linked haccepts.formed haccepts.resolved).2
  generalize resolve ss s.globals.names = r at hlinked hunlinked ⊢
  have hunion := links_union h hunlinked
  have hold : s.addresses K ≤ (s.enter j r.links).addresses K' := by
    refine ⟨Nat.le_refl 0, hij, ?_, hK⟩
    intro id _ hid
    exact (hunion id).trans (if_pos hid)
  have hnew : { r.addresses s.nextId j with known := K' } ≤ (s.enter j r.links).addresses K' := by
    refine ⟨Nat.zero_le _, Nat.le_refl j, ?_, fun _ _ h => h⟩
    intro id hid _
    exact (hunion id).trans (if_neg (Nat.not_lt.2 hid))
  refine ⟨⟨h.machine.mono hold, ?_⟩, Stmt.allLinked_mono hnew ss hlinked⟩
  intro id (hid : j ≤ id)
  refine (hunion id).trans ?_
  rw [if_neg (Nat.not_lt.2 (Nat.le_trans hij hid)), hunlinked id (.inr hid)]

/-- A program that is accepted runs on a sound machine. -/
theorem execute_safe {s : Session} (h : s.SoundFor K) (hK : ∀ Γ decl, K Γ decl → K' Γ decl)
    {source : String} {ts : List Token} {ss : List Stmt} {j : NodeId}
    (haccepts : s.Accepts source ts ss j)
    (hlinked : Stmt.AllLinked
      { (resolve ss s.globals.names).addresses s.nextId j with known := K' } [] ss)
    (host : Host) (stages : List Stage) :
    let run := { s with nextId := j }.execute host ss (resolve ss s.globals.names).links stages
    run.2.SoundFor K' ∧ (∀ reason, run.1.ending = .halted reason → reason.Allowed) ∧
      (∀ x, run.2.globals.contains x = true →
        s.globals.contains x = true ∨ x ∈ ss.filterMap Stmt.declared?) ∧
      (run.1.ending = .completed → ∀ x, run.2.globals.contains x = true ↔
        s.globals.contains x = true ∨ x ∈ ss.filterMap Stmt.declared?) := by
  rcases enter_sound h hK haccepts hlinked with ⟨hentered, hall⟩
  generalize hr : resolve ss s.globals.names = r at hentered hall
  let A : Addresses := (s.enter j r.links).addresses K'
  let G : String → Prop := fun x => s.globals.contains x = true ∨ x ∈ ss.filterMap Stmt.declared?
  have hm : Machine.Sound A G { s.machine with output := #[] } :=
    ⟨hentered.machine.globals, fun _ hx => .inl hx, hentered.machine.functions,
      hentered.machine.methods⟩
  have hlinks : ∀ id, A.find id = (Context.mk (s.links ∪ r.links) host).links[id]? := fun _ => rfl
  rcases Machine.execute_safe hlinks hm hall fun _ hx => .inr hx with
    ⟨hsound, hallowed, hcompleted⟩
  refine ⟨⟨{ hsound with named := fun _ _ => trivial }, hentered.unlinked⟩, hallowed,
    fun x => hsound.named x, ?_⟩
  intro hend x
  rcases hcompleted hend with ⟨hkeeps, hdeclared⟩
  refine ⟨hsound.named x, ?_⟩
  -- Nothing is ever unbound, so it is enough that the name was bound at some time.
  have hbound : ∀ store : Store, FrameOk store 0 (.names [x]) →
      (store.frame 0).contains x = true := by
    intro store hframe
    rcases hframe.binds x (by simp) with ⟨v, hv⟩
    simp [Bindings.contains, hv]
  rintro (hx | hx)
  · refine hbound _ (hkeeps.frames _ _ ⟨hm.globals.lt_size, ?_⟩)
    intro y hy
    rw [List.mem_singleton.1 hy]
    exact Option.isSome_iff_exists.1 hx
  · exact hbound _ (hdeclared x hx)

/-- The same of any session, where nothing is asked of functions. -/
theorem Accepts.execute_safe {s : Session} (h : s.Sound) {source : String} {ts : List Token}
    {ss : List Stmt} {j : NodeId} (haccepts : s.Accepts source ts ss j) (host : Host)
    (stages : List Stage) :
    let run := { s with nextId := j }.execute host ss (resolve ss s.globals.names).links stages
    run.2.Sound ∧ (∀ reason, run.1.ending = .halted reason → reason.Allowed) ∧
      (∀ x, run.2.globals.contains x = true →
        s.globals.contains x = true ∨ x ∈ ss.filterMap Stmt.declared?) ∧
      (run.1.ending = .completed → ∀ x, run.2.globals.contains x = true ↔
        s.globals.contains x = true ∨ x ∈ ss.filterMap Stmt.declared?) :=
  Session.execute_safe h (fun _ _ h => h) haccepts
    (resolve_linked haccepts.formed haccepts.resolved).1 host stages

/-- One line keeps the session sound, and halts for no other reason than those allowed. -/
theorem run_sound {s : Session} (h : s.Sound) (host : Host) (source : String) :
    (s.run host source).2.Sound ∧
      ∀ reason, (s.run host source).1.ending = .halted reason → reason.Allowed := by
  rcases s.run_cases host source with
    ⟨errors, stages, j, _, hj, hrun⟩ | ⟨ts, ss, j, stages, haccepts, hrun⟩
  · rw [hrun]
    exact ⟨h.skip (fun _ _ h => h) hj, fun _ hhalted => by cases hhalted⟩
  · rw [hrun]
    rcases haccepts.execute_safe h host stages with ⟨hsound, hallowed, -⟩
    exact ⟨hsound, hallowed⟩

/-- By induction on the history. -/
theorem after_sound (history : List (Host × String)) : (after history).Sound :=
  after_induction start_sound (fun _ host source h => (run_sound h host source).1) history

/-- However many sources have been run in a session, and however they ended: the next one is
executed to its end, or halts with an error of the language, or keeps a loop running. -/
theorem run_safe (history : List (Host × String)) (host : Host) (source : String) :
    let ending := ((after history).run host source).1.ending
    ending = .completed ∨ ending = .halted .unfinished ∨
      ∃ e, ending = .halted (.error e) ∧ ∀ name, e.fault ≠ .undefinedClass name := by
  intro ending
  have hallowed := (run_sound (after_sound history) host source).2
  cases hending : ending with
  | completed => exact .inl rfl
  | halted reason =>
      -- a reason that is allowed is no defect, and an error that is allowed is about no missing
      -- class
      have hreason := hallowed reason hending
      cases reason with
      | unfinished => exact .inr (.inl rfl)
      | defect d => exact hreason.elim
      | error e =>
          refine .inr (.inr ⟨e, rfl, ?_⟩)
          intro name hfault
          change e.fault.Allowed at hreason
          rwa [hfault] at hreason

end Session

end LoxLang
