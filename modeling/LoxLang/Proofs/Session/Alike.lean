import LoxLang.Proofs.Eval.Twin
import LoxLang.Proofs.Grammar.Relabel
import LoxLang.Proofs.Session.Safe

/-!
# Sessions that are alike

Two sessions whose programs differ in their tokens and numbers, side by side.

* `Session.shown` is what can be seen of the globals: their names, and the texts of their values.
* `Ending.Alike.error?`: runs that are alike end with the same error, or neither has one.
* `Accepts.relabel`: the same source with other tokens or other numbers reads as a program that is
  alike.
* `Session.execute_alike`: such programs print the same.
-/

namespace LoxLang

/-- The names of the globals and the texts of their values, in the order in which they were made. -/
def Session.shown (s : Session) : List (String × String) :=
  s.globals.entries.map fun entry => (entry.1, s.machine.text entry.2)

variable {T : Token → Token → Prop} {R : NodeId → NodeId → Prop}

/-- Machines that are alike show the same globals. -/
theorem Machine.Alike.shown_eq {before : List String} {s s' : Session}
    (h : s.machine.Alike T R before s'.machine) : s'.shown = s.shown := by
  have hglobals : s'.globals = s.globals := by
    simp [Session.globals, Machine.globalFrame, h.store]
  unfold Session.shown
  rw [hglobals]
  refine List.map_congr_left ?_
  intro entry _
  rw [h.text_eq]

/-- What was printed before a run makes no difference to it. -/
theorem Machine.Alike.silence {before : List String} {m m' : Machine} (h : m.Alike T R before m') :
    Machine.Alike T R m'.output.toList { m with output := #[] } m' :=
  ⟨h.store, h.size_functions, h.functions, h.size_classes, h.classes, h.objects, by simp,
    h.readings⟩

/-- What was printed before a line plays no part in it. -/
theorem Machine.Alike.silence_both {before : List String} {m m' : Machine}
    (h : m.Alike T R before m') :
    Machine.Alike T R [] { m with output := #[] } { m' with output := #[] } :=
  ⟨h.store, h.size_functions, h.functions, h.size_classes, h.classes, h.objects, rfl,
    h.readings⟩

/-! ## How runs end -/

/-- Two errors with one message, at tokens that are related. -/
def RuntimeError.Alike (T : Token → Token → Prop) (e e' : RuntimeError) : Prop :=
  e'.fault = e.fault ∧ T e.token e'.token

theorem Ending.Alike.error? {ending ending' : Ending} (h : Ending.Alike T ending ending') :
    Option.Rel (RuntimeError.Alike T) ending.error? ending'.error? := by
  cases h with
  | completed => exact .none
  | halted hreason =>
      cases hreason with
      | error htoken => exact .some ⟨rfl, htoken⟩
      | defect => exact .none
      | unfinished => exact .none

/-- Whether a run completes. -/
theorem Ending.Alike.completed_iff {ending ending' : Ending} (h : Ending.Alike T ending ending') :
    ending' = .completed ↔ ending = .completed := by
  cases h with
  | completed => exact Iff.rfl
  | halted _ => exact ⟨nofun, nofun⟩

/-- Runs that end alike are reported alike. -/
theorem Report.exit_eq_of_alike {r r' : Report} (hr : r.staticErrors = [])
    (hr' : r'.staticErrors = []) (h : Ending.Alike T r.ending r'.ending) : r'.exit = r.exit := by
  unfold Report.exit
  rw [hr, hr']
  generalize r.ending = ending at h
  generalize r'.ending = ending' at h
  cases h with
  | completed => rfl
  | halted _ => rfl

theorem Report.ending_of_ok {r : Report} (h : r.exit = .ok) : r.ending = .completed := by
  unfold Report.exit at h
  split at h
  · cases h
  · split at h
    · assumption
    · cases h

namespace Session

/-- A source that is not rejected passes all checks. -/
theorem accepts_of_exit {s : Session} {host : Host} {source : String}
    (h : (s.run host source).1.exit ≠ .staticError) :
    ∃ ts ss j, s.Accepts source ts ss j := by
  rcases s.run_cases host source with
    ⟨errors, stages, j, herrors, _, hrun⟩ | ⟨ts, ss, j, _, haccepts, _⟩
  · rw [hrun] at h
    exact absurd (by simp [Report.exit, Report.rejected, herrors]) h
  · exact ⟨ts, ss, j, haccepts⟩

/-! ## Reading -/

/-- Other tokens for the same words give a program that is alike, with the same numbers. -/
theorem Accepts.relabel {f : Token → Token} (hf : Relabels f) {s : Session} {source : String}
    {ts : List Token} {ss : List Stmt} {j : NodeId} (h : s.Accepts source ts ss j)
    (hts : ∀ t ∈ ts, T t (f t)) :
    ∃ ss', Reading.Declarations (ts.map f) s.nextId ss' j ∧ Stmt.AllAlike T Eq ss ss' := by
  rcases h.reading.relabel hf inStep_eq rfl hts with ⟨ss', j', hread, rfl, halike⟩
  exact ⟨ss', hread, halike⟩

/-! ## Executing -/

/-- Programs that are alike, executed on machines that are alike, print the same and end alike. -/
theorem execute_alike (hT : ∀ t t', T t t' → t.SameWord t') (s s' : Session) {before : List String}
    (hm : s.machine.Alike T R before s'.machine) {links links' : Links}
    (hlinks : ∀ id id', R id id' → (s'.links ∪ links')[id']? = (s.links ∪ links)[id]?)
    {ss ss' : List Stmt} (hss : Stmt.AllAlike T R ss ss') (host : Host)
    {stages stages' : List Stage} :
    let run := s.execute host ss links stages
    let run' := s'.execute host ss' links' stages'
    run'.1.output = run.1.output ∧ Ending.Alike T run.1.ending run'.1.ending ∧
      run.2.machine.Alike T R [] run'.2.machine := by
  have hctx : Context.Agrees R ⟨s.links ∪ links, host⟩ ⟨s'.links ∪ links', host⟩ := ⟨hlinks, rfl⟩
  rcases Machine.execute_alike hT hctx hm.silence_both hss with ⟨hending, hmachine⟩
  exact ⟨hmachine.output, hending, hmachine⟩

end Session

end LoxLang
