import LoxLang.Proofs.Eval.ForLoop
import LoxLang.Proofs.Grammar.Formed
import LoxLang.Proofs.Parsing.StatementComplete
import LoxLang.Proofs.Parsing.StatementSound
import LoxLang.Proofs.Session.Globals

/-!
# Loops in a session

A `for` is read as other statements, and does what its clauses say.

* `ForLoop.Written`: the clauses and the body of a loop stand in tokens, in that order.
* `Reading.Statement.exists_forLoop`: a statement behind `for` is `ForLoop.stmt` of what is written.
* `Session.forLoop_direct` says of a session that its loops do what `ForLoop.run` does, in whatever
  its sources lead to.
-/

namespace LoxLang

open Exec

/-! ## Reading -/

/-- The clauses and the body of a loop, as they are written behind `for`. The numbers of the
expressions are given in the same order. -/
inductive ForLoop.Written (l : ForLoop) : List Token → NodeId → Prop where
  | mk {isOpen : Bool} {openParen mark closeParen : Token} {ts us vs ws : List Token}
      {i j k k' j' : NodeId} :
      openParen.kind = .leftParen → Reading.ForInitializer ts i l.initializer j →
      Reading.OptionalExpression us j l.condition k → mark.kind = .semicolon →
      Reading.OptionalExpression vs k l.increment k' → closeParen.kind = .rightParen →
      Reading.Statement isOpen ws k' l.body j' →
      Written l (openParen :: ts ++ us ++ mark :: vs ++ closeParen :: ws) i

namespace Reading

/-- In front of a loop stands a declaration of a variable or an expression. -/
theorem ForInitializer.simple {ts : List Token} {i j : NodeId} {initializer : Option Stmt}
    (h : ForInitializer ts i initializer j) :
    ∀ s ∈ initializer, (∃ name value, s = .varDecl name value) ∨ ∃ e, s = .expression e := by
  cases h with
  | none _ => exact nofun
  | «variable» _ hdecl =>
      cases hdecl
      rintro _ ⟨⟩
      exact .inl ⟨_, _, rfl⟩
  | expression hexpression =>
      cases hexpression
      rintro _ ⟨⟩
      exact .inr ⟨_, rfl⟩

/-- What begins with `for` is read as a loop with the clauses that are written. -/
theorem Statement.exists_forLoop {isOpen : Bool} {keyword : Token} {ts : List Token} {i j : NodeId}
    {s : Stmt} (h : Statement isOpen (keyword :: ts) i s j) (hkeyword : keyword.kind = .forWord) :
    ∃ (l : ForLoop) (id : NodeId), s = l.stmt id ∧ l.Written ts i := by
  generalize hall : keyword :: ts = all at h
  cases h with
  | @forLoop _ _ _ _ _ _ _ _ _ _ _ _ _ _ initializer condition increment body _ hopen hinitializer
      hcondition hmark hincrement hclose hbody =>
      rcases List.cons.inj hall with ⟨rfl, rfl⟩
      let l : ForLoop :=
        ⟨initializer, some condition, increment, body, hinitializer.simple, hbody.declared?⟩
      have hwritten : l.Written _ i :=
        .mk hopen hinitializer (.some hcondition) hmark hincrement hclose hbody
      exact ⟨l, 0, (forLoop_eq ..).symm, hwritten⟩
  | @forEver _ _ _ _ _ _ _ _ _ _ _ m initializer increment body _ hopen hinitializer hmark
      hincrement hclose hbody =>
      rcases List.cons.inj hall with ⟨rfl, rfl⟩
      let l : ForLoop :=
        ⟨initializer, none, increment, body, hinitializer.simple, hbody.declared?⟩
      have hwritten : l.Written _ i := .mk hopen hinitializer .none hmark hincrement hclose hbody
      rw [List.append_nil] at hwritten
      exact ⟨l, m, (forLoop_eq ..).symm, hwritten⟩
  | expression hexpression =>
      -- No expression begins with a keyword like this one.
      rcases hexpression.starts with ⟨t, us, hstarts, ht⟩
      rcases List.cons.inj (hall.trans hstarts) with ⟨rfl, -⟩
      rw [hkeyword] at ht
      cases ht
  | _ =>
      rcases List.cons.inj hall with ⟨rfl, -⟩
      simp_all

/-- A source that begins with `for` is a loop, with statements behind it. -/
theorem Declarations.exists_forLoop {keyword : Token} {ts : List Token} {i j : NodeId}
    {ss : List Stmt} (h : Declarations (keyword :: ts) i ss j) (hkeyword : keyword.kind = .forWord) :
    ∃ (l : ForLoop) (id : NodeId) (us vs : List Token) (more : List Stmt),
      ss = l.stmt id :: more ∧ ts = us ++ vs ∧ l.Written us i := by
  -- Only a statement begins with `for`, and only one of them.
  generalize hall : keyword :: ts = all at h
  cases h with
  | nil => cases hall
  | @cons _ vs _ _ _ _ more hfirst _ =>
      cases hfirst with
      | statement hstatement =>
          rcases hstatement.starts with ⟨t, us, rfl, -⟩
          rcases List.cons.inj hall with ⟨rfl, rfl⟩
          rcases hstatement.exists_forLoop hkeyword with ⟨l, id, rfl, hwritten⟩
          exact ⟨l, id, us, vs, more, rfl, rfl, hwritten⟩
      | _ =>
          rcases List.cons.inj hall with ⟨rfl, -⟩
          simp_all

end Reading

/-- What stands in front of a loop, unless it is a semicolon, is an initializer. -/
theorem ForLoop.Written.initializer_isSome {l : ForLoop} {openParen first : Token}
    {ts us vs : List Token} {i : NodeId} (h : l.Written us i)
    (hall : openParen :: first :: ts = us ++ vs) (hfirst : first.kind ≠ .semicolon) :
    l.initializer.isSome = true := by
  cases h with
  | mk _ hinitializer _ _ _ _ _ =>
      cases hgiven : l.initializer with
      | some s => rfl
      | none =>
          rw [hgiven] at hinitializer
          cases hinitializer with
          | none hmark =>
              rcases List.cons.inj (List.cons.inj hall).2 with ⟨rfl, -⟩
              exact absurd hmark hfirst

namespace Session

/-- A `for` is read as what its clauses and its body say, in the order in which they are written.
Wherever a session comes to it, it does what a direct execution of the loop does, and so do all
statements behind it. Of the scopes that either of them opens nothing is to be seen outside, and
whatever is called later does the same. -/
theorem forLoop_direct (history : List (Host × String)) (host : Host) (source : String)
    (hclean : ((after history).run host source).1.exit ≠ .staticError) :
    let ctx := (after history).context host source
    (∀ n s st s', Parser.forStatement n s = .ok st s' → s'.errors.length ≤ s.errors.length →
      ∃ (l : ForLoop) (id : NodeId) (ts : List Token),
        st = l.stmt id ∧ s.rest = ts ++ s'.rest ∧ l.Written ts s.nextId) ∧
    (∀ t, ((after history).task host source).Leads ctx t → ∀ (l : ForLoop) (id : NodeId),
      (t.node = .stmt (l.stmt id) → t.Loops ctx l id) ∧
      ∀ ss, t.node = .stmts (l.stmt id :: ss) → t.LoopsFirst ctx l id ss) ∧
    ∀ m n n', Machine.Alongside ctx m n n' → Machine.SameOutside m n n' ∧
      ∀ calls paren callee arguments, SameEnd (Machine.Alongside ctx m)
        (call ctx (runBody ctx calls) paren callee arguments n)
        (call ctx (runBody ctx calls) paren callee arguments n') := by
  intro ctx
  refine ⟨?_, ?_, fun m n n' h => ⟨h.sameOutside, h.call⟩⟩
  · intro n s st s' hrun herrors
    rcases Parser.forStatement_sound n hrun herrors with ⟨isOpen, ts, hts, hread, -⟩
    have hfor := hread ⟨.forWord, "for", .nil, 0, 0⟩ rfl
    rcases hfor.exists_forLoop rfl with ⟨l, id, hst, hwritten⟩
    exact ⟨l, id, ts, hst, hts, hwritten⟩
  · intro t ht l id
    rcases leads_tracked hclean ht with ⟨A, own, Γ, hF, htracked⟩
    exact ⟨htracked.loops hF, fun ss => htracked.loopsFirst hF⟩

/-- A function that is declared in the first turn counts the variable of the loop on, which ends the
loop, and reads it once more behind the loop. -/
theorem forLoop_direct_shared :
    let host : Host := .standard ⟨0⟩
    let source := "for (var i = 0; i < 3; i = i + 1) \x7b " ++
      "fun f() \x7b print i; i = i + 10; \x7d g = f; g(); \x7d g();"
    let s := after [(host, "var g;")]
    let ctx := s.context host source
    ((s.run host source).1.exit = .ok ∧ (s.run host source).1.output = ["0", "11"]) ∧
      ∃ (l : ForLoop) (id : NodeId) (ss : List Stmt), s.reads source = l.stmt id :: ss ∧
        l.initializer.isSome = true ∧ (s.task host source).LoopsFirst ctx l id ss ∧
        Task.Loops ctx l id ⟨host.maxCalls, Machine.globals, .stmt (l.stmt id),
          (s.task host source).machine⟩ := by
  intro host source s ctx
  have hrun : (s.run host source).1.exit = .ok ∧ (s.run host source).1.output = ["0", "11"] := by
    decide +kernel
  have hclean : (s.run host source).1.exit ≠ .staticError := by
    rw [hrun.1]
    decide
  -- The source begins with a `for` and a `var`, so it is read as a loop with an initializer.
  have hreads : ∃ (l : ForLoop) (id : NodeId) (ss : List Stmt), s.reads source = l.stmt id :: ss ∧
      l.initializer.isSome = true := by
    have hkinds : ((Token.scan source).1.take 3).map Token.kind =
        [.forWord, .leftParen, .varWord] := by
      decide +kernel
    rcases exists_accepts hclean with ⟨ts, j, haccepts⟩
    rcases haccepts.scan_eq with ⟨eof, hscan, heof⟩
    rw [hscan] at hkinds
    rcases ts with _ | ⟨keyword, _ | ⟨openParen, _ | ⟨first, ts⟩⟩⟩
    · simp [heof] at hkinds
    · simp [heof] at hkinds
    · simp [heof] at hkinds
    · simp only [List.cons_append, List.take_succ_cons, List.take_zero, List.map_cons, List.map_nil,
        List.cons.injEq, and_true] at hkinds
      rcases haccepts.reading.exists_forLoop hkinds.1 with
        ⟨l, id, us, vs, more, hreads, hts, hwritten⟩
      exact ⟨l, id, more, hreads, hwritten.initializer_isSome hts (by simp [hkinds.2.2])⟩
  rcases hreads with ⟨l, id, ss, hreads, hinitializer⟩
  have hfirst : (s.task host source).node = .stmts (l.stmt id :: ss) := congrArg Node.stmts hreads
  -- The loop is the first statement that is executed.
  have hnext : (s.task host source).Next ctx ⟨host.maxCalls, Machine.globals, .stmt (l.stmt id),
      (s.task host source).machine⟩ := by
    unfold task
    rw [hreads]
    exact .firstStmt
  rcases forLoop_direct [(host, "var g;")] host source hclean with ⟨-, hloops, -⟩
  exact ⟨hrun, l, id, ss, hreads, hinitializer, (hloops _ .here l id).2 ss hfirst,
    (hloops _ (.next hnext .here) l id).1 rfl⟩

end Session

end LoxLang
