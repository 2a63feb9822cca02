import LoxLang.Proofs.Scope.Continued
import LoxLang.Proofs.Session.Alike

/-!
# Sources that are rejected

A source with a static error leaves no trace in a session but a gap in the numbering. So a session
cannot be told from one in which the source was never given.

* `Session.runs` are the runs of some sources, one after the other, and `Session.kept` the sources
  that are not rejected.
* `Session.Mirrors`: two sessions that differ in their numbering only. Functions that were made in
  both of them have different numbers there, with the same addresses.
* `run_mirrors`: a source that is accepted does the same in both sessions.
* `Session.runs_kept`: without the rejected sources all others run as before.
-/

namespace LoxLang

theorem Stmt.AllAlike.length_eq {T : Token → Token → Prop} {R : NodeId → NodeId → Prop} :
    ∀ {ss ss' : List Stmt}, Stmt.AllAlike T R ss ss' → ss'.length = ss.length
  | [], [], .nil => rfl
  | _ :: _, _ :: _, .cons _ hs => congrArg (· + 1) hs.length_eq

namespace Session

/-! ## Histories -/

/-- The runs of some sources, one after the other: how each one went, and what it left behind. -/
def runs (s : Session) : List (Host × String) → List (Report × Session)
  | [] => []
  | line :: lines =>
    let run := s.run line.1 line.2
    run :: runs run.2 lines

/-- The sources that are not rejected when all of them are run. -/
def kept (s : Session) : List (Host × String) → List (Host × String)
  | [] => []
  | line :: lines =>
    let run := s.run line.1 line.2
    if run.1.exit = .staticError then kept run.2 lines else line :: kept run.2 lines

/-- What can be seen of a run: the report, the globals that it leaves, and how many addresses are
known behind it. -/
def seen (run : Report × Session) : Report × List (String × String) × Nat :=
  (run.1, run.2.shown, run.2.links.size)

/-! ## Sessions with different numbers -/

/-- Numbers of two sessions with the same address, or with none. -/
def SameAddress (s s' : Session) (id id' : NodeId) : Prop :=
  id < s.nextId ∧ id' < s'.nextId ∧ s'.links[id']? = s.links[id]?

structure Mirrors (s s' : Session) : Prop where
  sound : s.Sound
  sound' : s'.Sound
  machine : s.machine.Alike Eq (SameAddress s s') [] s'.machine
  size : s'.links.size = s.links.size

theorem start_mirrors : Mirrors start start := by
  refine ⟨start_sound, start_sound, ?_, rfl⟩
  exact ⟨rfl, rfl, fun _ => ⟨.mk rfl rfl .nil, rfl, rfl⟩, rfl, fun _ => ⟨rfl, rfl, fun _ => .none⟩,
    rfl, rfl, rfl⟩

/-- A source that is rejected makes a gap in one of the sessions. -/
theorem Mirrors.skip {s s' : Session} (h : Mirrors s s') {j : NodeId} (hj : s.nextId ≤ j) :
    Mirrors { s with nextId := j } s' := by
  refine ⟨h.sound.skip (fun _ _ h => h) hj, h.sound', ?_, h.size⟩
  exact h.machine.mono (fun _ _ ht => ht) fun _ _ hid => ⟨Nat.lt_of_lt_of_le hid.1 hj, hid.2⟩

/-- Sessions that mirror each other differ in no global. -/
theorem Mirrors.globals_eq {s s' : Session} (h : Mirrors s s') : s'.globals = s.globals := by
  simp [globals, Machine.globalFrame, h.machine.store]

/-! ## A source that is accepted -/

/-- Numbers that are as far from two places. -/
def AsFar (i i' id id' : Nat) : Prop := id + i' = id' + i

/-- Numbers that are as far from the two beginnings stay so as both go on. -/
theorem inStep_asFar (i i' : NodeId) : InStep (AsFar i i') := by
  intro id id' h
  unfold AsFar at h ⊢
  omega

/-- To be as far from the two beginnings pairs each number with one. -/
theorem paired_asFar (i i' : NodeId) : Resolver.Paired (AsFar i i') := by
  intro a a' b b' ha hb
  unfold AsFar at ha hb
  constructor
  · rintro rfl
    exact Nat.add_right_cancel (ha.symm.trans hb)
  · rintro rfl
    exact Nat.add_right_cancel (ha.trans hb.symm)

/-- A range of numbers, as far from the other place. -/
theorem AsFar.range {i i' j j' id id' : Nat} (hj : AsFar i i' j j') (hid : AsFar i i' id id')
    (hle : i ≤ id) (hlt : id < j) : i' ≤ id' ∧ id' < j' := by
  unfold AsFar at hj hid
  omega

theorem sameWord_of_eq (t t' : Token) (h : t = t') : t.SameWord t' := h ▸ ⟨rfl, rfl⟩

/-- The other session accepts the source as well, with the numbers that it has come to. -/
theorem Accepts.mirrored {s s' : Session} (h : Mirrors s s') {source : String} {ts : List Token}
    {ss : List Stmt} {j : NodeId} (haccepts : s.Accepts source ts ss j) :
    ∃ ss' j', s'.Accepts source ts ss' j' ∧ AsFar s.nextId s'.nextId j j' ∧
      Stmt.AllAlike Eq (AsFar s.nextId s'.nextId) ss ss' := by
  have hstart : AsFar s.nextId s'.nextId s.nextId s'.nextId := Nat.add_comm _ _
  rcases haccepts.reading.relabel relabels_id (inStep_asFar _ _) hstart
    (fun t _ => (rfl : t = id t)) with ⟨ss', j', hread, hj, halike⟩
  rw [List.map_id] at hread
  have hresolved := (resolve_alike sameWord_of_eq (paired_asFar _ _) halike haccepts.resolved).1
  rw [← h.globals_eq] at hresolved
  exact ⟨ss', j', ⟨haccepts.scan_eq, haccepts.spelled, hread, hresolved⟩, hj, halike⟩

/-- The addresses of a program come on top of those that are known. -/
theorem size_links {s : Session} (h : s.Sound) {r : Links} {j : NodeId}
    (hr : ∀ id, id < s.nextId ∨ j ≤ id → r[id]? = none) :
    (s.links ∪ r).size = s.links.size + r.size := by
  refine Std.TreeMap.size_union_of_not_mem ?_
  intro id hid
  rw [Std.TreeMap.mem_iff_isSome_getElem?] at hid ⊢
  by_cases hlt : id < s.nextId
  · simp [hr id (.inl hlt)]
  · simp [h.unlinked id (Nat.le_of_not_lt hlt)] at hid

/-- Runs at the same tokens that do not fail in a way that is ruled out end in the same way. -/
theorem eq_of_alike {ending ending' : Ending} (h : Ending.Alike Eq ending ending')
    (hallowed : ∀ reason, ending = .halted reason → reason.Allowed) : ending' = ending := by
  cases h with
  | completed => rfl
  | halted hreason =>
      cases hreason with
      | error htoken => rw [htoken]
      | defect => exact (hallowed _ rfl).elim
      | unfinished => rfl

/-- A line that is accepted does the same in both sessions, whatever numbers its nodes get. -/
theorem run_mirrors {s s' : Session} (h : Mirrors s s') {source : String} {ts : List Token}
    {ss : List Stmt} {j : NodeId} (haccepts : s.Accepts source ts ss j) (host : Host) :
    seen (s'.run host source) = seen (s.run host source) ∧
      Mirrors (s.run host source).2 (s'.run host source).2 := by
  rcases haccepts.mirrored h with ⟨ss', j', haccepts', hj, halike⟩
  rcases resolve_alike sameWord_of_eq (paired_asFar _ _) halike haccepts.resolved with
    ⟨-, hsize, hlinks⟩
  rcases resolve_linked haccepts.formed haccepts.resolved with ⟨hlinked, hunlinked⟩
  rcases resolve_linked haccepts'.formed haccepts'.resolved with ⟨-, hunlinked'⟩
  have hsound := run_sound h.sound host source
  have hsound' := run_sound h.sound' host source
  rw [run_of_accepts haccepts] at hsound ⊢
  rw [run_of_accepts haccepts'] at hsound' ⊢
  rw [h.globals_eq] at hunlinked' hsound' ⊢
  generalize resolve ss s.globals.names = r at *
  generalize resolve ss' s.globals.names = r' at *
  -- Two numbers correspond if they have the same address once the tables are joined: the old ones
  -- because they did before, the new ones because they are resolved alike.
  let R (id id' : NodeId) : Prop :=
    id < j ∧ id' < j' ∧ (s'.links ∪ r'.links)[id']? = (s.links ∪ r.links)[id]?
  have hold : ∀ id id', SameAddress s s' id id' → R id id' := by
    rintro id id' ⟨hid, hid', heq⟩
    refine ⟨Nat.lt_of_lt_of_le hid (Stmt.le_of_allFormed haccepts.formed),
      Nat.lt_of_lt_of_le hid' (Stmt.le_of_allFormed haccepts'.formed), ?_⟩
    rw [links_union h.sound hunlinked, links_union h.sound' hunlinked', if_pos hid, if_pos hid', heq]
  have hnew : (r.addresses s.nextId j).Refines (AsFar s.nextId s'.nextId) R := by
    intro id id' distance hhas hid
    have hfirst : s.nextId ≤ id := hhas.first_le
    have hnext : id < j := hhas.lt_next
    rcases hj.range hid hfirst hnext with ⟨hfirst', hnext'⟩
    refine ⟨hnext, hnext', ?_⟩
    rw [links_union h.sound hunlinked, links_union h.sound' hunlinked', if_neg (Nat.not_lt.2 hfirst),
      if_neg (Nat.not_lt.2 hfirst'), hlinks id id' hid]
  rcases execute_alike sameWord_of_eq { s with nextId := j } { s' with nextId := j' }
    (h.machine.mono (fun _ _ ht => ht) hold) (fun _ _ hid => hid.2.2) (halike.restrict hnew hlinked)
    host with ⟨houtput, hending, hmachine⟩
  have hending' := eq_of_alike hending hsound.2
  have hsize' : (s'.links ∪ r'.links).size = (s.links ∪ r.links).size := by
    rw [size_links h.sound hunlinked, size_links h.sound' hunlinked', h.size, hsize]
  refine ⟨Prod.ext ?_ (Prod.ext hmachine.shown_eq hsize'), hsound.1, hsound'.1, hmachine, hsize'⟩
  change Report.mk _ _ _ _ = Report.mk _ _ _ _
  rw [Report.mk.injEq]
  exact ⟨houtput, rfl, hending', by rw [halike.length_eq, hsize]⟩

/-! ## Whole histories -/

/-- By induction on the history: a rejected line is dropped from one side, and the sessions mirror
each other as before. -/
theorem runs_kept_of_mirrors (history : List (Host × String)) {s s' : Session} (h : Mirrors s s') :
    (s'.runs (s.kept history)).map seen =
      ((s.runs history).filter fun run => run.1.exit ≠ .staticError).map seen := by
  induction history generalizing s s' with
  | nil => rfl
  | cons line history ih =>
      rcases s.run_cases line.1 line.2 with
        ⟨errors, stages, j, herrors, hj, hrun⟩ | ⟨ts, ss, j, stages, haccepts, hrun⟩
      -- a rejected line is dropped: the other session has not moved
      · have hexit : (s.run line.1 line.2).1.exit = .staticError := by
          simp [hrun, Report.exit, Report.rejected, herrors]
        have hrest : Mirrors (s.run line.1 line.2).2 s' := by
          rw [hrun]
          exact h.skip hj
        simp [runs, kept, hexit, ih hrest]
      -- a line that is run does the same in both
      · have hexit : (s.run line.1 line.2).1.exit ≠ .staticError := by
          rw [hrun]
          exact Report.exit_ne_staticError rfl
        rcases run_mirrors h haccepts line.1 with ⟨hseen, hrest⟩
        simp [runs, kept, hexit, hseen, ih hrest]

/-- However many of the sources that are given to a session have static errors: each of the others
runs, and leaves the session, as it does when the faulty ones are left out. -/
theorem runs_kept (history : List (Host × String)) :
    (start.runs (start.kept history)).map seen =
      ((start.runs history).filter fun run => run.1.exit ≠ .staticError).map seen :=
  runs_kept_of_mirrors history start_mirrors

end Session

end LoxLang
