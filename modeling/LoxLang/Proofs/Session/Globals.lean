import LoxLang.Proofs.Eval.Global
import LoxLang.Proofs.Session.Alike
import LoxLang.Proofs.Session.Scoped
import Mathlib.Data.List.Induction

/-!
# Where global names come from

A name is global in a session because it is native, or because a source without static errors
declares it at the top level.

* `Session.Introduced`: a name that some source of a session declares.
* `Session.names_run` and `Session.names_subset_run` say what one source does to the global names,
  however it ends.
* `Session.globals_introduced` says it of whole sessions, and of every part of a program that a
  session comes to run.
-/

namespace LoxLang

open Resolver

namespace Session

/-- A name that is declared at the top level of a source without static errors. -/
def Introduced (history : List (Host × String)) (x : String) : Prop :=
  ∃ before host source behind, history = before ++ (host, source) :: behind ∧
    ((after before).run host source).1.exit ≠ .staticError ∧
    x ∈ ((after before).reads source).filterMap Stmt.declared?

variable {history : List (Host × String)}

/-- What a line has introduced stays introduced, whatever follows. -/
theorem Introduced.append {x : String} (h : Introduced history x) (line : Host × String) :
    Introduced (history ++ [line]) x := by
  rcases h with ⟨before, host, source, behind, rfl, hclean, hx⟩
  exact ⟨before, host, source, behind ++ [line], by simp, hclean, hx⟩

/-! ## One source -/

/-- A source makes global what it declares, and nothing else. -/
theorem names_run {s : Session} (h : s.Sound) (host : Host) (source : String) {x : String}
    (hx : x ∈ (s.run host source).2.globals.names) :
    x ∈ s.globals.names ∨ (s.run host source).1.exit ≠ .staticError ∧
      x ∈ (s.reads source).filterMap Stmt.declared? := by
  rcases s.run_cases host source with
    ⟨errors, stages, j, -, -, hrun⟩ | ⟨ts, ss, j, stages, haccepts, hrun⟩
  · rw [hrun] at hx
    exact .inl hx
  · have hclean := haccepts.exit_ne host
    have hnamed := (haccepts.execute_safe h host stages).2.2.1
    rw [← hrun] at hnamed
    rw [haccepts.reads_eq, ← Bindings.contains_iff_mem_names]
    rw [← Bindings.contains_iff_mem_names] at hx
    exact (hnamed x hx).imp_right fun hdeclared => ⟨hclean, hdeclared⟩

/-- No source unbinds a name. -/
theorem names_subset_run (s : Session) (host : Host) (source : String) :
    s.globals.names ⊆ (s.run host source).2.globals.names := by
  intro x hx
  rcases s.run_cases host source with
    ⟨errors, stages, j, -, -, hrun⟩ | ⟨ts, ss, j, stages, haccepts, hrun⟩
  · rw [hrun]
    exact hx
  · rw [hrun]
    have hgrows := Machine.execute_grows ⟨s.links ∪ (resolve ss s.globals.names).links, host⟩
      { s.machine with output := #[] } ss
    rw [← Bindings.contains_iff_mem_names] at hx ⊢
    exact hgrows.names 0 x hx

/-- A source that completes makes global all that it declares. -/
theorem names_run_of_ok {s : Session} (h : s.Sound) {host : Host} {source : String}
    (hok : (s.run host source).1.exit = .ok) (x : String) :
    x ∈ (s.run host source).2.globals.names ↔
      x ∈ s.globals.names ∨ x ∈ (s.reads source).filterMap Stmt.declared? := by
  have hclean : (s.run host source).1.exit ≠ .staticError := by
    rw [hok]
    decide
  rcases exists_accepts hclean with ⟨ts, j, haccepts⟩
  have hending := Report.ending_of_ok hok
  rw [run_of_accepts haccepts host] at hending ⊢
  rw [← Bindings.contains_iff_mem_names, ← Bindings.contains_iff_mem_names]
  exact (haccepts.execute_safe h host _).2.2.2 hending x

/-! ## Whole sessions -/

/-- By induction on the history: every global is native, or some line has introduced it. -/
theorem introduced_of_mem_names (history : List (Host × String)) :
    ∀ x ∈ (after history).globals.names, x ∈ Machine.nativeNames ∨ Introduced history x := by
  induction history using List.reverseRecOn with
  | nil => exact fun x hx => .inl hx
  | append_singleton history line ih =>
      rcases line with ⟨host, source⟩
      intro x hx
      rw [after_snoc] at hx
      rcases names_run (after_sound history) host source hx with hx | ⟨hclean, hx⟩
      · exact (ih x hx).imp_right fun h => h.append _
      · exact .inr ⟨history, host, source, [], rfl, hclean, hx⟩

/-- The native names stay bound. -/
theorem nativeNames_subset (history : List (Host × String)) :
    Machine.nativeNames ⊆ (after history).globals.names := by
  refine after_induction (P := fun s => Machine.nativeNames ⊆ s.globals.names) ?_ ?_ history
  · exact fun x hx => hx
  · exact fun s host source h => List.Subset.trans h (names_subset_run s host source)

/-- The run of a source is a tracked task. -/
theorem task_tracked {host : Host} {source : String}
    (hclean : ((after history).run host source).1.exit ≠ .staticError) :
    let V := Visited (history ++ [(host, source)])
    ∃ A, Follow ((after history).context host source) V A ∧
      ((after history).task host source).Tracked V A none [] := by
  intro V
  rcases exists_accepts hclean with ⟨ts, j, haccepts⟩
  rcases enter_sound (after_known history) (fun _ _ hdecl => hdecl.append (host, source)) haccepts
    (haccepts.linked host) with ⟨hsound, hlinked⟩
  refine ⟨_, ⟨fun _ => rfl, Visited.next, fun _ _ hdecl => hdecl⟩,
    ⟨hsound.machine.globals, fun _ _ => trivial, hsound.machine.functions, hsound.machine.methods⟩,
    .top hsound.machine.globals, hlinked, _, _, haccepts.visited host,
    Visit.clear_program haccepts.formed haccepts.resolved⟩

/-- Whatever a source comes to is a tracked task. -/
theorem leads_tracked {host : Host} {source : String} {t : Task}
    (hclean : ((after history).run host source).1.exit ≠ .staticError)
    (ht : ((after history).task host source).Leads ((after history).context host source) t) :
    ∃ A own Γ, Follow ((after history).context host source)
        (Visited (history ++ [(host, source)])) A ∧
      t.Tracked (Visited (history ++ [(host, source)])) A own Γ := by
  rcases task_tracked hclean with ⟨A, hF, hstart⟩
  rcases hstart.leads hF ht with ⟨own, Γ, htracked⟩
  exact ⟨A, own, Γ, hF, htracked⟩

/-- The global names of a session are the native ones and those that its sources without static
errors declare at the top level. None is ever lost, and a source that completes adds exactly the
names that it declares. Whatever part of the source is run, in whatever function or method, it adds
no name that it does not declare itself, and adds that one only if it stands at the top level. -/
theorem globals_introduced (history : List (Host × String)) (host : Host) (source : String) :
    let s := after history
    let run := s.run host source
    (∀ x ∈ run.2.globals.names,
      x ∈ Machine.nativeNames ∨ Introduced (history ++ [(host, source)]) x) ∧
    (∀ x ∈ s.globals.names, x ∈ run.2.globals.names) ∧
    (run.1.exit = .ok → ∀ x, x ∈ run.2.globals.names ↔
      x ∈ s.globals.names ∨ x ∈ (s.reads source).filterMap Stmt.declared?) ∧
    (run.1.exit ≠ .staticError → ∀ t, (s.task host source).Leads (s.context host source) t → ∀ x,
      (x ∈ (t.behind (s.context host source)).globalFrame.names →
        x ∈ t.machine.globalFrame.names ∨ t.env = Machine.globals ∧ x ∈ t.node.declared) ∧
      (x ∈ t.machine.globalFrame.names →
        x ∈ (t.behind (s.context host source)).globalFrame.names)) := by
  intro s run
  refine ⟨?_, names_subset_run s host source, names_run_of_ok (after_sound history), ?_⟩
  · intro x hx
    refine introduced_of_mem_names (history ++ [(host, source)]) x ?_
    rw [after_snoc]
    exact hx
  · intro hclean t ht
    -- at any task, the frame of the globals is changed by declarations of the top level only
    rcases task_tracked hclean with ⟨A, hF, hstart⟩
    rcases hstart.leads hF ht with ⟨own, Γ, htracked⟩
    exact htracked.behind_names hF

/-- A function that assigns to a global, and declares a variable and a class of its own. -/
theorem globals_introduced_inside :
    let host : Host := .standard ⟨0⟩
    let s := after [(host, "var a = 1;")]
    let source := "fun f() \x7b a = 2; var b = a; \x7b class C \x7b\x7d \x7d \x7d f(); var c = 3;"
    let run := s.run host source
    (run.1.exit = .ok ∧ run.2.globals.names = ["clock", "a", "f", "c"]) ∧
      (∀ x, x ∈ run.2.globals.names ↔
        x ∈ s.globals.names ∨ x ∈ (s.reads source).filterMap Stmt.declared?) ∧
      ∀ x ∈ ((s.task host source).behind (s.context host source)).globalFrame.names,
        x ∈ s.globals.names ∨ x ∈ (s.reads source).filterMap Stmt.declared? := by
  intro host s source run
  have hok : run.1.exit = .ok := by decide +kernel
  have hnames : run.2.globals.names = ["clock", "a", "f", "c"] := by decide +kernel
  have hclean : run.1.exit ≠ .staticError := by
    rw [hok]
    decide
  rcases globals_introduced [(host, "var a = 1;")] host source with ⟨-, -, hexact, htasks⟩
  exact ⟨⟨hok, hnames⟩, hexact hok, fun x hx => ((htasks hclean _ .here x).1 hx).imp_right And.right⟩

end Session

end LoxLang
