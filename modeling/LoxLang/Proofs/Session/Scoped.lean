import LoxLang.Proofs.Eval.Reached
import LoxLang.Proofs.Scope.Once
import LoxLang.Proofs.Session.Safe

/-!
# Scopes and environments mirror each other

Whatever a session comes to run has been visited by the resolver, in the source that is running or
in an earlier one, and the environment at hand is the image of the scopes at that visit.

* `Session.Visited` are the visits in all sources of a session that have no static errors. They come
  to each node once, if there is an expression in it (`Session.Visited.unique`).
* `Session.after_known`: every function that is left behind has been visited with the scopes that
  its environment was made for. It does not matter when it is called, or from where.
* `Session.task` is the run of one source, and `Session.task_mirrored` says of all that it comes to
  what the resolver knew of it.
-/

namespace LoxLang

open Resolver

namespace Session

/-! ## Visits of a session -/

def reads (s : Session) (source : String) : List Stmt :=
  (Program.ofSource source s.nextId).statements

/-- The visits of the resolver in those sources of a session that have no static errors. -/
def Visited (history : List (Host × String)) (v : Visit) : Prop :=
  ∃ before host source behind, history = before ++ (host, source) :: behind ∧
    ((after before).run host source).1.exit ≠ .staticError ∧
    (Visit.program ((after before).reads source) (after before).globals.names).Leads v

/-- What the grammar reads is what is read, as there is only one reading. -/
theorem reads_eq {s : Session} {source : String} {ts : List Token} {eof : Token} {ss : List Stmt}
    {j : NodeId} (hscan : Token.scan source = (ts ++ [eof], [])) (heof : eof.kind = .eof)
    (hreading : Reading.Declarations ts s.nextId ss j) : s.reads source = ss := by
  have hprogram := (Program.ofTokens_eq_iff_reading heof hreading.kind_ne_eof).2 hreading
  unfold reads Program.ofSource
  rw [hscan]
  exact congrArg Program.statements hprogram

theorem Accepts.reads_eq {s : Session} {source : String} {ts : List Token} {ss : List Stmt}
    {j : NodeId} (h : s.Accepts source ts ss j) : s.reads source = ss := by
  rcases h.scan_eq with ⟨eof, hscan, heof⟩
  exact Session.reads_eq hscan heof h.reading

/-- What is accepted is run. -/
theorem Accepts.exit_ne {s : Session} {source : String} {ts : List Token} {ss : List Stmt}
    {j : NodeId} (h : s.Accepts source ts ss j) (host : Host) :
    (s.run host source).1.exit ≠ .staticError := by
  rw [run_of_accepts h host]
  exact Report.exit_ne_staticError rfl

/-- A source without static errors is accepted. -/
theorem exists_accepts {s : Session} {host : Host} {source : String}
    (h : (s.run host source).1.exit ≠ .staticError) :
    ∃ ts j, s.Accepts source ts (s.reads source) j := by
  rcases s.run_cases host source with
    ⟨errors, stages, j, herrors, -, hrun⟩ | ⟨ts, ss, j, stages, haccepts, -⟩
  · rw [hrun] at h
    simp [Report.exit, Report.rejected, herrors] at h
  · exact ⟨ts, j, haccepts.reads_eq.symm ▸ haccepts⟩

variable {history : List (Host × String)}

/-- From what has been visited, the walk goes on. -/
theorem Visited.next {v w : Visit} (h : Visited history v) (hnext : v.Next w) :
    Visited history w := by
  rcases h with ⟨before, host, source, behind, heq, hclean, hleads⟩
  exact ⟨before, host, source, behind, heq, hclean, hleads.trans (.next hnext .here)⟩

theorem Visited.append {v : Visit} (h : Visited history v) (line : Host × String) :
    Visited (history ++ [line]) v := by
  rcases h with ⟨before, host, source, behind, rfl, hclean, hleads⟩
  exact ⟨before, host, source, behind ++ [line], by simp, hclean, hleads⟩

/-- The program of an accepted line is visited as a whole. -/
theorem Accepts.visited {source : String} {ts : List Token} {ss : List Stmt} {j : NodeId}
    (h : (after history).Accepts source ts ss j) (host : Host) :
    Visited (history ++ [(host, source)]) (Visit.program ss (after history).globals.names) := by
  refine ⟨history, host, source, [], rfl, h.exit_ne host, ?_⟩
  rw [h.reads_eq]
  exact .here

/-! ## Functions of a session -/

/-- The functions that have been visited in a session, with their layers. -/
def Declared (history : List (Host × String)) (Γ : List Layer) (decl : FunctionDecl) : Prop :=
  (Node.function decl).Seen (Visited history) none Γ

theorem Declared.append {Γ : List Layer} {decl : FunctionDecl} (h : Declared history Γ decl)
    (line : Host × String) : Declared (history ++ [line]) Γ decl := by
  rcases h with ⟨ctx, s, hv, hclear⟩
  exact ⟨ctx, s, hv.append line, hclear⟩

/-- A source that is accepted declares only functions that have been visited. -/
theorem Accepts.linked {source : String} {ts : List Token} {ss : List Stmt} {j : NodeId}
    (h : (after history).Accepts source ts ss j) (host : Host) :
    Stmt.AllLinked
      { (resolve ss (after history).globals.names).addresses (after history).nextId j with
        known := Declared (history ++ [(host, source)]) } [] ss := by
  have hlinked := (resolve_linked h.formed h.resolved).1
  generalize (resolve ss (after history).globals.names).addresses (after history).nextId j = A
    at hlinked ⊢
  have hT : Visit.Taught (Visited (history ++ [(host, source)])) A
      { A with known := Declared (history ++ [(host, source)]) } :=
    ⟨Visited.next, fun hid => ⟨hid.first_le, hid.lt_next, hid.find_eq⟩, fun _ _ hseen => hseen⟩
  exact linked_stmts hT ss (h.visited host) (Visit.clear_program h.formed h.resolved) hlinked

theorem after_append (history more : List (Host × String)) :
    after (history ++ more) = more.foldl (fun s line => (s.run line.1 line.2).2) (after history) :=
  List.foldl_append

/-- One more line is run in the session that the others left. -/
theorem after_snoc (history : List (Host × String)) (host : Host) (source : String) :
    after (history ++ [(host, source)]) = ((after history).run host source).2 :=
  after_append history _

/-- Every function that a line makes was declared in some line up to it. -/
theorem run_known (h : (after history).SoundFor (Declared history)) (line : Host × String) :
    (after (history ++ [line])).SoundFor (Declared (history ++ [line])) := by
  rcases line with ⟨host, source⟩
  have hmore : ∀ Γ decl, Declared history Γ decl → Declared (history ++ [(host, source)]) Γ decl :=
    fun _ _ hdecl => hdecl.append _
  rw [after_snoc]
  rcases (after history).run_cases host source with
    ⟨errors, stages, j, _, hj, hrun⟩ | ⟨ts, ss, j, stages, haccepts, hrun⟩
  · rw [hrun]
    exact h.skip hmore hj
  · rw [hrun]
    exact (execute_safe h hmore haccepts (haccepts.linked host) host stages).1

/-- What a session leaves behind are functions that have been visited. -/
theorem after_known (history : List (Host × String)) :
    (after history).SoundFor (Declared history) := by
  have hmore : ∀ more before : List (Host × String),
      (after before).SoundFor (Declared before) →
      (after (before ++ more)).SoundFor (Declared (before ++ more)) := by
    intro more
    induction more with
    | nil =>
        intro before h
        rwa [List.append_nil]
    | cons line more ih =>
        intro before h
        have hrest := ih (before ++ [line]) (run_known h line)
        rwa [List.append_assoc] at hrest
  exact hmore history [] start_sound

/-! ## Numbers of a session -/

/-- No run takes numbers back. -/
theorem nextId_le_run (s : Session) (host : Host) (source : String) :
    s.nextId ≤ (s.run host source).2.nextId := by
  rcases s.run_cases host source with
    ⟨errors, stages, j, _, hj, hrun⟩ | ⟨ts, ss, j, stages, haccepts, hrun⟩
  · rw [hrun]
    exact hj
  · rw [hrun]
    exact Stmt.le_of_allFormed haccepts.formed

/-- Nor do several. -/
theorem nextId_le_foldl (more : List (Host × String)) (s : Session) :
    s.nextId ≤ (more.foldl (fun s line => (s.run line.1 line.2).2) s).nextId := by
  induction more generalizing s with
  | nil => exact Nat.le_refl _
  | cons line more ih => exact Nat.le_trans (nextId_le_run s line.1 line.2) (ih _)

/-- The numbers of a source are behind those of the sources before it. -/
theorem Accepts.le_nextId {source : String} {ts : List Token} {ss : List Stmt} {j : NodeId}
    (h : (after history).Accepts source ts ss j) (host : Host) (more : List (Host × String)) :
    j ≤ (after (history ++ (host, source) :: more)).nextId := by
  rw [after_append]
  refine Nat.le_trans (Nat.le_of_eq ?_) (nextId_le_foldl more _)
  change j = ((after history).run host source).2.nextId
  rw [run_of_accepts h host]
  rfl

/-- The numbers in one source come before those in a later one. -/
theorem Visited.lt_of_later {before more : List (Host × String)} {host host' : Host}
    {source source' : String}
    (hclean : ((after before).run host source).1.exit ≠ .staticError)
    (hclean' : ((after (before ++ (host, source) :: more)).run host' source').1.exit ≠ .staticError)
    {v w : Visit}
    (hv : (Visit.program ((after before).reads source) (after before).globals.names).Leads v)
    (hw : (Visit.program ((after (before ++ (host, source) :: more)).reads source')
      (after (before ++ (host, source) :: more)).globals.names).Leads w)
    {id id' : NodeId} (hid : v.node.id? = some id) (hid' : w.node.id? = some id') : id < id' := by
  rcases exists_accepts hclean with ⟨ts, j, haccepts⟩
  rcases exists_accepts hclean' with ⟨ts', j', haccepts'⟩
  have hlast := (hv.mem_range (haccepts.formed : Node.Formed (.stmts _) _ _) hid).2
  have hfirst := (hw.mem_range (haccepts'.formed : Node.Formed (.stmts _) _ _) hid').1
  exact Nat.lt_of_lt_of_le hlast (Nat.le_trans (haccepts.le_nextId host more) hfirst)

/-- The resolver comes to a node once in a session, if there is an expression in it. -/
theorem Visited.unique {v w : Visit} (h : Visited history v) (h' : Visited history w)
    (heq : w.node = v.node) {id : NodeId} (hid : v.Meets id) : v = w := by
  rcases h with ⟨before, host, source, behind, rfl, hclean, hv⟩
  rcases h' with ⟨before', host', source', behind', hhistory, hclean', hw⟩
  -- In sources of different places, the same number would be smaller than itself.
  rcases heq ▸ hid.again w.context w.state with ⟨y, hy, hidy⟩
  have hid' := hid
  rcases hid' with ⟨x, hx, hidx⟩
  rcases List.append_eq_append_iff.1 hhistory with ⟨more, rfl, hmore⟩ | ⟨more, rfl, hmore⟩
  · cases more with
    | nil =>
        cases hmore
        rw [List.append_nil] at hw
        rcases exists_accepts hclean with ⟨ts, j, haccepts⟩
        exact hv.unique hw (haccepts.formed : Node.Formed (.stmts _) _ _) heq hid
    | cons _ more =>
        cases hmore
        exact absurd (lt_of_later hclean hclean' (hv.trans hx) (hw.trans hy) hidx hidy)
          (Nat.lt_irrefl id)
  · cases more with
    | nil =>
        cases hmore
        rw [List.append_nil] at hv hclean
        rcases exists_accepts hclean with ⟨ts, j, haccepts⟩
        exact hv.unique hw (haccepts.formed : Node.Formed (.stmts _) _ _) heq hid
    | cons _ more =>
        cases hmore
        exact absurd (lt_of_later hclean' hclean (hw.trans hy) (hv.trans hx) hidy hidx)
          (Nat.lt_irrefl id)

/-! ## Runs of a session -/

/-- The addresses and the host with which a source is run. -/
def context (s : Session) (host : Host) (source : String) : LoxLang.Context :=
  ⟨s.links ∪ (resolve (s.reads source) s.globals.names).links, host⟩

/-- Running the statements of a source at the top level. -/
def task (s : Session) (host : Host) (source : String) : Task :=
  ⟨host.maxCalls, Machine.globals, .stmts (s.reads source), { s.machine with output := #[] }⟩

/-- Running a source without static errors is that task. The addresses of expressions that it does
not come to do not matter. -/
theorem run_eq_execute {s : Session} {host : Host} {source : String}
    (h : (s.run host source).1.exit ≠ .staticError) {links : Links}
    (hlinks : (s.task host source).Agrees (s.context host source) links) :
    ((s.run host source).1.ending, (s.run host source).2.machine) =
      (s.task host source).machine.execute ((s.context host source).withLinks links)
        (s.reads source) := by
  rcases exists_accepts h with ⟨ts, j, haccepts⟩
  refine Eq.trans ?_ (Machine.execute_congr hlinks)
  rw [run_of_accepts haccepts host]
  rfl

/-- Every statement and every expression that a session comes to has been visited by the resolver,
and the environment in which it is run mirrors the scopes of that visit: it is as many links away
from the globals as there were scopes, and it binds what they declared as initialized. The name of a
class is excepted while its superclass is evaluated. A variable with an address is never a global.
There is no other visit of the node, if it has an expression in it by which it can be told. And
nothing is left out: a run does not depend on the addresses of anything else. -/
theorem task_mirrored (history : List (Host × String)) (host : Host) (source : String)
    (hclean : ((after history).run host source).1.exit ≠ .staticError) :
    let s := after history
    (∀ t, (s.task host source).Leads (s.context host source) t →
      ∃ v, Visited (history ++ [(host, source)]) v ∧ v.node = t.node ∧
        t.env.Mirrors t.machine.store v.state.scopes t.node.early? ∧
        (∀ d ∈ t.node.distances (s.context host source).links, ∃ ancestor,
          t.env.ancestor d = .ok ancestor ∧ ancestor.frame ≠ Machine.globals.frame) ∧
        ∀ w id, Visited (history ++ [(host, source)]) w → w.node = t.node → v.Meets id → w = v) ∧
      ∀ links, (s.task host source).Agrees (s.context host source) links →
        ((s.run host source).1.ending, (s.run host source).2.machine) =
          (s.task host source).machine.execute ((s.context host source).withLinks links)
            (s.reads source) := by
  intro s
  refine ⟨?_, fun _ => run_eq_execute hclean⟩
  intro t ht
  rcases exists_accepts hclean with ⟨ts, j, haccepts⟩
  rcases enter_sound (after_known history) (fun _ _ hdecl => hdecl.append (host, source)) haccepts
    (haccepts.linked host) with ⟨hsound, hlinked⟩
  have hF : Follow (s.context host source) (Visited (history ++ [(host, source)]))
      ((s.enter j (resolve (s.reads source) s.globals.names).links).addresses
        (Declared (history ++ [(host, source)]))) :=
    ⟨fun _ => rfl, Visited.next, fun _ _ hdecl => hdecl⟩
  -- The walk and the run begin together: the resolver at the top, the machine with its globals.
  have hstart : (s.task host source).Tracked (Visited (history ++ [(host, source)]))
      ((s.enter j (resolve (s.reads source) s.globals.names).links).addresses
        (Declared (history ++ [(host, source)]))) none [] :=
    ⟨⟨hsound.machine.globals, fun _ _ => trivial, hsound.machine.functions,
      hsound.machine.methods⟩, .top hsound.machine.globals, hlinked, _, _, haccepts.visited host,
      Visit.clear_program haccepts.formed haccepts.resolved⟩
  -- From there on, every task is tracked by a visit of its node.
  rcases hstart.leads hF ht with ⟨own, Γ, htracked⟩
  rcases htracked.seen with ⟨rctx, state, hv, hclear⟩
  refine ⟨⟨rctx, t.node, state⟩, hv, rfl, (Covers.of_clear hclear).mirrors htracked.chain,
    htracked.distances hF.links, ?_⟩
  intro w id hw hnode hid
  exact (hv.unique hw hnode hid).symm

/-- The body of a function, which runs inside a block that it refers to. -/
theorem task_mirrored_body :
    let host : Host := ⟨fun _ => ⟨0⟩, 1, 0⟩
    let source := "\x7b fun f() \x7b f; \x7d f(); \x7d"
    let f : Reference := ⟨0, ⟨.identifier, "f", .nil, 1, 13⟩⟩
    (start.run host source).1.exit ≠ .staticError ∧
      ∃ m, (start.task host source).Leads (start.context host source)
          ⟨0, ⟨2, [1, 0]⟩, .expr (.variable f), m⟩ ∧
        ∃ v, Visited [(host, source)] v ∧ v.node = .expr (.variable f) ∧
          Env.Mirrors ⟨2, [1, 0]⟩ m.store v.state.scopes none := by
  intro host source f
  -- The tokens of the source, and the names in it.
  let bare (kind : Kind) (lexeme : String) (column : Nat) : Token := ⟨kind, lexeme, .nil, 1, column⟩
  let name := bare .identifier "f" 7
  let callee : Reference := ⟨1, bare .identifier "f" 18⟩
  let paren := bare .rightParen ")" 20
  let tokens := [bare .leftBrace "\x7b" 1, bare .funWord "fun" 3, name, bare .leftParen "(" 8,
    bare .rightParen ")" 9, bare .leftBrace "\x7b" 11, f.name, bare .semicolon ";" 14,
    bare .rightBrace "\x7d" 16, callee.name, bare .leftParen "(" 19, paren,
    bare .semicolon ";" 21, bare .rightBrace "\x7d" 23]
  have hclean : (start.run host source).1.exit ≠ .staticError := by decide +kernel
  have hscan : Token.scan source = (tokens ++ [Token.endOfInput 1 24], []) := by decide +kernel
  -- How the source is read: the body, the function, the call, and the block around them.
  have hbody : Reading.Declarations [f.name, bare .semicolon ";" 14] 0
      [.expression (.variable f)] 1 :=
    .cons (.statement (.expression (.mk (.plain (.of_call (.of_name 0 rfl)
      Reading.Precedence.all)) rfl))) .nil
  have hfunction : Reading.Function [name, bare .leftParen "(" 8, bare .rightParen ")" 9,
      bare .leftBrace "\x7b" 11, f.name, bare .semicolon ";" 14, bare .rightBrace "\x7d" 16] 0
      ⟨name, [], [.expression (.variable f)]⟩ 1 :=
    .mk rfl rfl .none rfl rfl hbody rfl
  have hcall : Reading.Expression [callee.name, bare .leftParen "(" 19, paren] 1
      (.call 2 (.variable callee) paren []) 3 :=
    .plain (.of_call (.mk (.variable rfl) (.call rfl .none rfl .done)) Reading.Precedence.all)
  let statements : List Stmt := [.block [.function ⟨name, [], [.expression (.variable f)]⟩,
    .expression (.call 2 (.variable callee) paren [])]]
  have hblock : Reading.Declarations tokens 0 statements 3 :=
    .cons (.statement (.block rfl (.cons (.function rfl hfunction)
      (.cons (.statement (.expression (.mk hcall rfl))) .nil)) rfl)) .nil
  have hreads : start.reads source = statements := reads_eq hscan rfl hblock
  -- The call looks its callee up one frame out, where the function has been bound.
  have hlink : (start.context host source).links[callee.id]? = some 0 := by
    unfold context
    rw [hreads]
    decide +kernel
  have hcallee : ∀ m, m.store.getAt ⟨1, [0]⟩ 0 "f" = .ok (.function 0) →
      eval (start.context host source) (runBody (start.context host source) 1) ⟨1, [0]⟩
        (.variable callee) m = .ok (.function 0) m := by
    intro m hm
    change Exec.lookUp _ _ _ _ m = _
    unfold Exec.lookUp
    rw [hlink]
    change Exec.orDefect (m.store.getAt ⟨1, [0]⟩ 0 "f") m = _
    rw [hm]
    rfl
  -- The way from the source to the variable in the body, through the call.
  have hleads : ∃ m, (start.task host source).Leads (start.context host source)
      ⟨0, ⟨2, [1, 0]⟩, .expr (.variable f), m⟩ := by
    unfold task
    rw [hreads]
    exact ⟨_, .next .firstStmt <| .next (.block rfl) <| .next (.moreStmts rfl (.inl rfl)) <|
      .next .firstStmt <| .next .expression <|
      .next (.body (hcallee _ rfl) rfl (.function rfl) rfl rfl (List.cons_ne_nil _ _)) <|
      .next .firstStmt <| .next .expression .here⟩
  rcases hleads with ⟨m, hleads⟩
  rcases (task_mirrored [] host source hclean).1 _ hleads with ⟨v, hv, hnode, hmirrors, -⟩
  exact ⟨hclean, m, hleads, v, hv, hnode, hmirrors⟩

end Session

end LoxLang
