import LoxLang.Proofs.Eval.Course
import LoxLang.Proofs.Scope.Findings
import LoxLang.Proofs.Session.Scoped

/-!
# The course of a session

How the machines of a session follow from one another.

* `Session.start_evolves`: the machine of a session has come out of the first one by single changes,
  and is valid.
* `Session.Met` are the machines between the sources of a session, and those that it comes to while
  it runs a source.
* `Session.task_course`: whatever a source leads to is a proper task. What is left behind by it goes
  on to the machines of the sources behind (`Session.behind_evolves`).
-/

namespace LoxLang

open Exec

namespace Session

variable {history : List (Host × String)} {host : Host} {source : String}

/-! ## Sources -/

/-- What a session reads declares names that are names. -/
theorem reads_shaped (s : Session) (source : String) :
    Stmt.AllShaped Resolver.Named (s.reads source) := Program.shaped_ofSource source s.nextId

/-- The output of the source before is forgotten. -/
theorem task_evolves (s : Session) (host : Host) (source : String) :
    s.machine.Evolves (s.task host source).machine := .of_update .output

/-- Running a line is a run of single changes. -/
theorem run_evolves {s : Session} (hs : s.machine.Valid) (host : Host) (source : String) :
    s.machine.Evolves (s.run host source).2.machine := by
  rcases s.run_cases host source with
    ⟨errors, stages, j, -, -, hrun⟩ | ⟨ts, ss, j, stages, haccepts, hrun⟩
  · rw [hrun]
    exact .refl s.machine
  · rw [hrun]
    have hshaped := s.reads_shaped source
    rw [haccepts.reads_eq] at hshaped
    have hstart : s.machine.Evolves { s.machine with output := #[] } := .of_update .output
    exact hstart.trans ((hs.evolves hstart).execute _ hshaped)

/-! ## Sessions -/

/-- By induction on the history: all that a session has come to came about by single changes. -/
theorem start_evolves (history : List (Host × String)) :
    Machine.start.Evolves (after history).machine := by
  refine after_induction (P := fun s => Machine.start.Evolves s.machine) (.refl _) ?_ history
  intro s host source h
  have hvalid := Machine.start_valid.evolves h
  exact h.trans (run_evolves hvalid host source)

theorem after_valid (history : List (Host × String)) : (after history).machine.Valid :=
  Machine.start_valid.evolves (start_evolves history)

theorem after_evolves (history more : List (Host × String)) :
    (after history).machine.Evolves (after (history ++ more)).machine := by
  rw [after_append]
  have hvalid := after_valid history
  generalize after history = s at hvalid
  induction more generalizing s with
  | nil => exact .refl s.machine
  | cons line more ih =>
      have hrun := run_evolves hvalid line.1 line.2
      exact hrun.trans (ih _ (hvalid.evolves hrun))

/-! ## Tasks -/

/-- Whatever a source leads to is a proper task. -/
theorem task_course {t : Task}
    (ht : ((after history).task host source).Leads ((after history).context host source) t) :
    t.Proper ∧ (after history).machine.Evolves t.machine ∧
      t.machine.Evolves (t.behind ((after history).context host source)) := by
  have hstart := (after history).task_evolves host source
  have hvalid := (after_valid history).evolves hstart
  have hshaped := (after history).reads_shaped source
  rcases Task.Proper.leads_topLevel hvalid hshaped ht with ⟨hproper, hevolves, -⟩
  exact ⟨hproper, hstart.trans hevolves, hproper.evolves_behind⟩

/-- Unless the source is cut off in a loop, what a task leaves behind goes on to all later machines
of the session. -/
theorem behind_evolves {t : Task}
    (hclean : ((after history).run host source).1.exit ≠ .staticError)
    (ht : ((after history).task host source).Leads ((after history).context host source) t)
    (hinner : t.Inner)
    (hfinished : ((after history).run host source).1.ending ≠ .halted .unfinished)
    (more : List (Host × String)) :
    (t.behind ((after history).context host source)).Evolves
      (after (history ++ (host, source) :: more)).machine := by
  have hvalid := (after_valid history).evolves ((after history).task_evolves host source)
  have hshaped := (after history).reads_shaped source
  rcases Task.Proper.leads_topLevel hvalid hshaped ht with ⟨-, -, hwithin⟩
  have hagrees : ((after history).task host source).Agrees ((after history).context host source)
      ((after history).context host source).links := fun _ _ _ _ => rfl
  have hrun := run_eq_execute hclean hagrees
  have hending : ((after history).run host source).1.ending = _ := congrArg Prod.fst hrun
  have hmachine : ((after history).run host source).2.machine = _ := congrArg Prod.snd hrun
  have hline : (t.behind ((after history).context host source)).Evolves
      ((after history).run host source).2.machine := by
    rw [hmachine]
    refine (hwithin hinner).execute ?_
    rw [hending] at hfinished
    exact hfinished
  -- Later sources only go on from the machine that this one leaves.
  have hmore := after_evolves (history ++ [(host, source)]) more
  rw [after_snoc, List.append_assoc] at hmore
  exact hline.trans hmore

/-- The machines of a session that has run some sources and may be running another one. -/
inductive Met (history : List (Host × String)) : Machine → Prop where
  | between : Met history (after history).machine
  | before {host : Host} {source : String} {t : Task} :
      ((after history).run host source).1.exit ≠ .staticError →
      ((after history).task host source).Leads ((after history).context host source) t →
      Met history t.machine
  | behind {host : Host} {source : String} {t : Task} :
      ((after history).run host source).1.exit ≠ .staticError →
      ((after history).task host source).Leads ((after history).context host source) t →
      Met history (t.behind ((after history).context host source))

/-- A machine met on the way has evolved from the start. -/
theorem Met.evolves {m : Machine} (h : Met history m) : Machine.start.Evolves m := by
  cases h with
  | between => exact start_evolves history
  | before _ ht => exact (start_evolves history).trans (task_course ht).2.1
  | behind _ ht =>
      exact (start_evolves history).trans ((task_course ht).2.1.trans (task_course ht).2.2)

theorem Met.valid {m : Machine} (h : Met history m) : m.Valid :=
  Machine.start_valid.evolves h.evolves

end Session

end LoxLang
