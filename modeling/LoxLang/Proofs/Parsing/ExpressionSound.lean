import LoxLang.Proofs.Grammar.Reading
import LoxLang.Proofs.Parsing.Depth

/-!
# Expressions are read soundly

A production that records no fault has passed tokens that read as its result, with the numbers that
it gave out. What stands left of `=` has been read as an expression: if that is a name or a
property, then its tokens are those of a name or a property, since an operator, a unary operator or
a parenthesis would have made another expression of it.
-/

namespace LoxLang

namespace Parser

variable {α : Type}

/-! ## Single steps -/

/-- One token has been passed, and nothing else has changed. -/
structure Input.Took (s : Input) (t : Token) (s' : Input) : Prop where
  rest : s.rest = t :: s'.rest
  nextId : s'.nextId = s.nextId
  errors : s'.errors = s.errors

theorem Input.Took.length_errors {s s' : Input} {t : Token} (h : s.Took t s') :
    s'.errors.length = s.errors.length := congrArg List.length h.errors

theorem Input.took_next {s : Input} (h : s.head.kind ≠ .eof) : s.Took s.head s.next :=
  ⟨s.rest_eq_cons h, s.next_nextId, s.next_errors⟩

theorem current_inv {s s' : Input} {t : Token} (h : current s = .ok t s') :
    t = s.head ∧ s' = s := by
  cases h
  exact ⟨rfl, rfl⟩

theorem at?_inv {kind : Kind} {s s' : Input} {b : Bool} (h : at? kind s = .ok b s') :
    (b = true ↔ s.head.kind = kind) ∧ s' = s := by
  cases h
  exact ⟨beq_iff_eq, rfl⟩

theorem atBodyEnd_inv {s s' : Input} {b : Bool} (h : atBodyEnd s = .ok b s') :
    (b = true ↔ s.head.kind = .rightBrace ∨ s.head.kind = .eof) ∧ s' = s := by
  rw [atBodyEnd_run] at h
  cases h
  exact ⟨by simp, rfl⟩

theorem advance_inv {s s' : Input} {t : Token} (hhead : s.head.kind ≠ .eof)
    (h : advance s = .ok t s') : t = s.head ∧ s.Took s.head s' := by
  rw [advance_run] at h
  cases h
  exact ⟨rfl, Input.took_next hhead⟩

theorem accept_inv {wanted : Kind → Bool} (hwanted : wanted .eof = false) {s s' : Input}
    {o : Option Token} (h : accept wanted s = .ok o s') :
    (o = none ∧ s' = s) ∨ ∃ t, o = some t ∧ wanted t.kind = true ∧ s.Took t s' := by
  rw [accept_run] at h
  split at h
  · rename_i haccepted
    cases h
    have hhead : s.head.kind ≠ .eof := by
      intro heof
      simp [heof, hwanted] at haccepted
    exact .inr ⟨s.head, rfl, haccepted, Input.took_next hhead⟩
  · cases h
    exact .inl ⟨rfl, rfl⟩

theorem skip?_inv {kind : Kind} (hkind : kind ≠ .eof) {s s' : Input} {b : Bool}
    (h : skip? kind s = .ok b s') :
    (b = false ∧ s' = s ∧ s.head.kind ≠ kind) ∨ (b = true ∧ ∃ t, t.kind = kind ∧ s.Took t s') := by
  rw [skip?_run] at h
  split at h
  · rename_i hhead
    cases h
    exact .inr ⟨rfl, s.head, hhead, Input.took_next (hhead ▸ hkind)⟩
  · rename_i hhead
    cases h
    exact .inl ⟨rfl, rfl, hhead⟩

theorem expect_inv {kind : Kind} (hkind : kind ≠ .eof) {fault : SyntaxFault} {s s' : Input}
    {t : Token} (h : expect kind fault s = .ok t s') : t.kind = kind ∧ s.Took t s' := by
  rw [expect_run] at h
  split at h
  · rename_i hhead
    cases h
    exact ⟨hhead, Input.took_next (hhead ▸ hkind)⟩
  · cases h

theorem expectMark_inv {mark : Kind} (hmark : mark ≠ .eof) {place : MarkPlace} {s s' : Input}
    {t : Token} (h : expectMark mark place s = .ok t s') : t.kind = mark ∧ s.Took t s' :=
  expect_inv hmark h

theorem expectName_inv {role : NameRole} {s s' : Input} {t : Token}
    (h : expectName role s = .ok t s') : t.kind = .identifier ∧ s.Took t s' :=
  expect_inv (by decide) h

/-- A number has been given out, and nothing else has changed. -/
structure Input.Gave (s : Input) (s' : Input) : Prop where
  rest : s'.rest = s.rest
  nextId : s'.nextId = s.nextId + 1
  errors : s'.errors = s.errors

theorem Input.Gave.length_errors {s s' : Input} (h : s.Gave s') :
    s'.errors.length = s.errors.length := congrArg List.length h.errors

theorem fresh_inv {s s' : Input} {id : NodeId} (h : fresh s = .ok id s') :
    id = s.nextId ∧ s.Gave s' := by
  cases h
  exact ⟨rfl, rfl, rfl, rfl⟩

theorem report_inv {fault : SyntaxFault} {token : Token} {s s' : Input} {u : Unit}
    (h : report fault token s = .ok u s') : s.errors.length < s'.errors.length := by
  cases h
  simp

theorem reportExcess_inv {count : Nat} {fault : SyntaxFault} {s s' : Input} {u : Unit}
    (h : reportExcess count fault s = .ok u s') :
    s.errors.length < s'.errors.length ∨ (count < maxArguments ∧ s' = s) := by
  rw [reportExcess_run] at h
  split at h
  · cases h
    exact .inl (by simp)
  · rename_i hcount
    cases h
    exact .inr ⟨Nat.lt_of_not_le hcount, rfl⟩

end Parser

/-! ## Targets of assignments -/

/-- Whether an expression can stand left of `=`. -/
def Expr.isTarget : Expr → Bool
  | .variable _ | .get .. => true
  | _ => false

namespace Reading

/-- An operator makes something of its operands that cannot be assigned to. -/
theorem isTarget_node (p : Precedence) (id : NodeId) (left right : Expr) (operator : Token) :
    (p.node id left operator right).isTarget = false := by
  cases p <;> rfl

/-- A chain that ends in a target has no operator. -/
theorem Chain.eq_of_isTarget {p : Precedence} {tighter : List Precedence} {left e : Expr}
    {ts : List Token} {i j : NodeId} :
    Chain p tighter left ts i e j → e.isTarget = true → ts = [] ∧ e = left ∧ j = i
  | .done, _ => ⟨rfl, rfl, rfl⟩
  | .more _ _ hrest, htarget => by
      have hnode := (hrest.eq_of_isTarget htarget).2.1
      simp [hnode, isTarget_node] at htarget

/-- An operation that is a target is a call, or what calls begin with. -/
theorem Operation.call_of_isTarget {ps : List Precedence} {ts : List Token} {i j : NodeId}
    {e : Expr} : Operation ps ts i e j → e.isTarget = true → Call ts i e j
  | .unary (.call hcall), _ => hcall
  | .unary (.operator _ _), htarget => by simp [Expr.isTarget] at htarget
  | .chain hleft hchain, htarget => by
      rcases hchain.eq_of_isTarget htarget with ⟨rfl, rfl, rfl⟩
      simpa using hleft.call_of_isTarget htarget

/-- What follows an expression ends with a call or a property, if there is anything. -/
theorem Calls.cases_last {callee e : Expr} {ts : List Token} {i j : NodeId}
    (h : Calls callee ts i e j) :
    (ts = [] ∧ e = callee ∧ j = i) ∨
    (∃ id f paren arguments, e = .call id f paren arguments) ∨
    ∃ us dot name object k, ts = us ++ [dot, name] ∧ dot.kind = .dot ∧
      name.kind = .identifier ∧ Calls callee us i object k ∧ e = .get k object name ∧
      j = k + 1 := by
  -- What stands behind the first call or property has fewer tokens.
  induction hn : ts.length using Nat.strongRecOn generalizing callee ts i with
  | ind n ih =>
      cases h with
      | done => exact .inl ⟨rfl, rfl, rfl⟩
      | call hopen hargs hparen hrest =>
          have hlast := ih _ (by simp at hn; omega) hrest rfl
          rcases hlast with ⟨rfl, rfl, rfl⟩ | hcall | ⟨us, dot, name, object, k, h⟩
          · exact .inr (.inl ⟨_, _, _, _, rfl⟩)
          · exact .inr (.inl hcall)
          · rcases h with ⟨rfl, hdot, hname, hcalls, rfl, rfl⟩
            refine .inr (.inr ⟨_, dot, name, object, k, ?_, hdot, hname,
              .call hopen hargs hparen hcalls, rfl, rfl⟩)
            simp
      | get hdot hname hrest =>
          have hlast := ih _ (by simp at hn; omega) hrest rfl
          rcases hlast with ⟨rfl, rfl, rfl⟩ | hcall | ⟨us, dot', name', object, k, h⟩
          · exact .inr (.inr ⟨[], _, _, callee, i, rfl, hdot, hname, .done, rfl, rfl⟩)
          · exact .inr (.inl hcall)
          · rcases h with ⟨rfl, hdot', hname', hcalls, rfl, rfl⟩
            exact .inr (.inr ⟨_, dot', name', object, k, rfl, hdot', hname',
              .get hdot hname hcalls, rfl, rfl⟩)

/-- A call that is a variable is a name, and nothing else. -/
theorem Call.variable_inv {ts : List Token} {i j : NodeId} {ref : Reference}
    (h : Call ts i (.variable ref) j) :
    ts = [ref.name] ∧ ref.id = i ∧ ref.name.kind = .identifier ∧ j = i + 1 := by
  rcases h with ⟨hprimary, hcalls⟩
  rcases hcalls.cases_last with ⟨rfl, rfl, rfl⟩ | ⟨_, _, _, _, h⟩ | ⟨_, _, _, _, _, _, _, _, _, h, _⟩
  · cases hprimary with
    | «variable» hname => exact ⟨rfl, rfl, hname, rfl⟩
  · cases h
  · cases h

/-- A call that is a property ends with a dot and a name. -/
theorem Call.get_inv {ts : List Token} {i j id : NodeId} {object : Expr} {name : Token}
    (h : Call ts i (.get id object name) j) :
    ∃ us dot, ts = us ++ [dot, name] ∧ dot.kind = .dot ∧ name.kind = .identifier ∧
      Call us i object id ∧ j = id + 1 := by
  rcases h with ⟨hprimary, hcalls⟩
  rcases hcalls.cases_last with ⟨rfl, rfl, rfl⟩ | ⟨_, _, _, _, h⟩ | ⟨us, dot, name', object', k, h⟩
  · cases hprimary
  · cases h
  · rcases h with ⟨rfl, hdot, hname, hcalls', heq, rfl⟩
    cases heq
    exact ⟨_, dot, (List.append_assoc ..).symm, hdot, hname, .mk hprimary hcalls', rfl⟩

end Reading

/-! ## The parser's levels -/

namespace Reading.Precedence

/-- What the parser keeps for a precedence. -/
def level : Precedence → Level
  | logicOr => .logical .orWord
  | logicAnd => .logical .andWord
  | equality => .binary equality.operators
  | comparison => .binary comparison.operators
  | term => .binary term.operators
  | factor => .binary factor.operators

/-- The parser's table has the precedences of the grammar, in the same order. -/
theorem map_level_all : all.map level = Level.all := rfl

@[simp] theorem node_level (p : Precedence) : p.level.node = p.node := by
  cases p <;> rfl

@[simp] theorem accepts_level (p : Precedence) (kind : Kind) :
    p.level.accepts kind = true ↔ kind ∈ p.operators := by
  cases p <;> simp [level, operators, Level.logical, Level.binary]

theorem accepts_level_eq_false {p : Precedence} {kind : Kind} (h : kind ∉ p.operators) :
    p.level.accepts kind = false :=
  Bool.eq_false_iff.2 (mt (p.accepts_level kind).1 h)

theorem accepts_level_eof (p : Precedence) : p.level.accepts .eof = false := by
  cases p <;> rfl

end Reading.Precedence

namespace Parser

open LoxLang.Reading (Precedence)

variable {α : Type}

theorem isUnaryOperator_eq_true {kind : Kind} :
    isUnaryOperator kind = true ↔ kind = .bang ∨ kind = .minus := by
  simp [isUnaryOperator]

/-! ## Expressions -/

/-- The tokens passed between two inputs read as something. -/
def Reads (R : List Token → NodeId → α → NodeId → Prop) (s : Input) (a : α) (s' : Input) : Prop :=
  ∃ ts, s.rest = ts ++ s'.rest ∧ R ts s.nextId a s'.nextId

mutual

/-- By induction on the bound: without an error, what the parser makes is a reading of the tokens it
took. -/
theorem expression_sound : ∀ n {s s' : Input} {e : Expr}, expression n s = .ok e s' →
    s'.errors.length ≤ s.errors.length → Reads Reading.Expression s e s'
  | 0, _, _, _, h, _ => by cases h
  | n + 1, s, s', e, h, herrors => by
      simp only [expression, bind_eq_ok] at h
      rcases h with ⟨left, s₁, hleft, equals, s₂, hequals, h⟩
      rw [← Precedence.map_level_all] at hleft
      have hsteady := (steady_operation n _).errors_le hleft
      rcases accept_inv (by rfl) hequals with ⟨rfl, rfl⟩ | ⟨equals, rfl, hkind, htook⟩
      · rcases pure_eq_ok.1 h with ⟨rfl, rfl⟩
        rcases operation_sound n hleft herrors with ⟨ts, hts, hread⟩
        exact ⟨ts, hts, .plain hread⟩
      · simp only [bind_eq_ok] at h
        rcases h with ⟨value, s₃, hvalue, h⟩
        have hsteady' := (steady_expression n).errors_le hvalue
        have htaken := htook.length_errors
        have hequal : equals.kind = .equal := by simpa using hkind
        -- If no fault follows, both sides have been read without one.
        have hsides : s₃.errors.length ≤ s'.errors.length →
            Reads (Reading.Operation Precedence.all) s left s₁ ∧
              Reads Reading.Expression s₂ value s₃ := by
          intro hlast
          exact ⟨operation_sound n hleft (by omega),
            expression_sound n hvalue (by omega)⟩
        split at h
        · rename_i ref
          simp only [bind_eq_ok, pure_eq_ok] at h
          rcases h with ⟨id, s₄, hfresh, rfl, rfl⟩
          rcases fresh_inv hfresh with ⟨rfl, hgave⟩
          rcases hsides (Nat.le_of_eq hgave.length_errors.symm) with
            ⟨⟨ts, hts, hread⟩, us, hus, hread'⟩
          rcases (hread.call_of_isTarget rfl).variable_inv with
            ⟨rfl, -, hname, hnext⟩
          refine ⟨ref.name :: equals :: us, ?_, ?_⟩
          · simp [hts, htook.rest, hus, hgave.rest]
          · rw [hgave.nextId]
            rw [htook.nextId, hnext] at hread'
            exact .assign hname hequal hread'
        · rename_i id object name
          simp only [bind_eq_ok, pure_eq_ok] at h
          rcases h with ⟨id', s₄, hfresh, rfl, rfl⟩
          rcases fresh_inv hfresh with ⟨rfl, hgave⟩
          rcases hsides (Nat.le_of_eq hgave.length_errors.symm) with
            ⟨⟨ts, hts, hread⟩, us, hus, hread'⟩
          rcases (hread.call_of_isTarget rfl).get_inv with
            ⟨ts', dot, rfl, hdot, hname, hobject, hnext⟩
          refine ⟨ts' ++ dot :: name :: equals :: us, ?_, ?_⟩
          · simp [hts, htook.rest, hus, hgave.rest]
          · rw [hgave.nextId]
            rw [htook.nextId, hnext] at hread'
            exact .set hobject hdot hname hequal hread'
        · simp only [bind_eq_ok, pure_eq_ok] at h
          rcases h with ⟨_, s₄, hreport, -, rfl⟩
          have hmore := report_inv hreport
          omega

theorem operation_sound : ∀ n {ps : List Precedence} {s s' : Input} {e : Expr},
    operation n (ps.map Precedence.level) s = .ok e s' → s'.errors.length ≤ s.errors.length →
    Reads (Reading.Operation ps) s e s'
  | 0, _, _, _, _, h, _ => by cases h
  | n + 1, [], s, s', e, h, herrors => by
      rcases unary_sound n h herrors with ⟨ts, hts, hread⟩
      exact ⟨ts, hts, .unary hread⟩
  | n + 1, p :: tighter, s, s', e, h, herrors => by
      simp only [List.map_cons, operation, bind_eq_ok] at h
      rcases h with ⟨left, s₁, hleft, hchain⟩
      have hsteady := (steady_operation n _).errors_le hleft
      have hsteady' := (steady_chain n _ _ left).errors_le hchain
      rcases operation_sound n hleft (by omega) with ⟨ts, hts, hread⟩
      rcases chain_sound n hchain (by omega) with ⟨us, hus, hread'⟩
      exact ⟨ts ++ us, by simp [hts, hus], .chain hread hread'⟩

/-- Each turn of the parser is one operator of the chain. -/
theorem chain_sound : ∀ n {p : Precedence} {tighter : List Precedence} {left : Expr}
    {s s' : Input} {e : Expr}, chain n p.level (tighter.map Precedence.level) left s = .ok e s' →
    s'.errors.length ≤ s.errors.length → Reads (Reading.Chain p tighter left) s e s'
  | 0, _, _, _, _, _, _, h, _ => by cases h
  | n + 1, p, tighter, left, s, s', e, h, herrors => by
      simp only [chain, bind_eq_ok, p.node_level] at h
      rcases h with ⟨operator, s₁, hoperator, h⟩
      rcases accept_inv p.accepts_level_eof hoperator with
        ⟨rfl, rfl⟩ | ⟨operator, rfl, hkind, htook⟩
      · rcases pure_eq_ok.1 h with ⟨rfl, rfl⟩
        exact ⟨[], rfl, .done⟩
      · simp only [bind_eq_ok] at h
        rcases h with ⟨right, s₂, hright, id, s₃, hfresh, hchain⟩
        rcases fresh_inv hfresh with ⟨rfl, hgave⟩
        -- No part takes faults away, so none of them added one.
        have htaken := htook.length_errors
        have hgiven := hgave.length_errors
        have hsteady := (steady_operation n _).errors_le hright
        have hsteady' := (steady_chain n _ _ _).errors_le hchain
        rcases operation_sound n hright (by omega) with ⟨ts, hts, hread⟩
        rcases chain_sound n hchain (by omega) with ⟨us, hus, hread'⟩
        rw [htook.nextId] at hread
        rw [hgave.nextId] at hread'
        rw [hgave.rest] at hus
        have hoperator := (p.accepts_level _).1 hkind
        exact ⟨operator :: ts ++ us, by simp [htook.rest, hts, hus], .more hoperator hread hread'⟩

theorem unary_sound : ∀ n {s s' : Input} {e : Expr}, unary n s = .ok e s' →
    s'.errors.length ≤ s.errors.length → Reads Reading.Unary s e s'
  | 0, _, _, _, h, _ => by cases h
  | n + 1, s, s', e, h, herrors => by
      simp only [unary, bind_eq_ok] at h
      rcases h with ⟨operator, s₁, hoperator, h⟩
      rcases accept_inv (by rfl) hoperator with ⟨rfl, rfl⟩ | ⟨operator, rfl, hkind, htook⟩
      -- no operator: a primary expression with calls behind it
      · simp only [bind_eq_ok] at h
        rcases h with ⟨callee, s₂, hcallee, hcalls⟩
        have hsteady := (steady_primary n).errors_le hcallee
        have hsteady' := (steady_calls n callee).errors_le hcalls
        rcases primary_sound n hcallee (by omega) with ⟨ts, hts, hread⟩
        rcases calls_sound n hcalls (by omega) with ⟨us, hus, hread'⟩
        exact ⟨ts ++ us, by simp [hts, hus], .call (.mk hread hread')⟩
      -- an operator, taken before its operand and numbered after it
      · simp only [bind_eq_ok, pure_eq_ok] at h
        rcases h with ⟨right, s₂, hright, id, s₃, hfresh, rfl, rfl⟩
        rcases fresh_inv hfresh with ⟨rfl, hgave⟩
        have htaken := htook.length_errors
        have hgiven := hgave.length_errors
        rcases unary_sound n hright (by omega) with ⟨ts, hts, hread⟩
        rw [htook.nextId] at hread
        rw [← hgave.rest] at hts
        refine ⟨operator :: ts, by simp [htook.rest, hts], ?_⟩
        rw [hgave.nextId]
        exact .operator (isUnaryOperator_eq_true.1 hkind) hread

theorem calls_sound : ∀ n {callee : Expr} {s s' : Input} {e : Expr}, calls n callee s = .ok e s' →
    s'.errors.length ≤ s.errors.length → Reads (Reading.Calls callee) s e s'
  | 0, _, _, _, _, h, _ => by cases h
  | n + 1, callee, s, s', e, h, herrors => by
      simp only [calls, bind_eq_ok] at h
      rcases h with ⟨isCall, s₁, hisCall, h⟩
      rcases skip?_inv (by decide) hisCall with ⟨rfl, rfl, -⟩ | ⟨rfl, openParen, hopen, htook⟩
      · simp only [Bool.false_eq_true, if_false, bind_eq_ok] at h
        rcases h with ⟨isGet, s₂, hisGet, h⟩
        rcases skip?_inv (by decide) hisGet with ⟨rfl, rfl, -⟩ | ⟨rfl, dot, hdot, htook⟩
        · rcases pure_eq_ok.1 h with ⟨rfl, rfl⟩
          exact ⟨[], rfl, .done⟩
        · simp only [if_true, bind_eq_ok] at h
          rcases h with ⟨name, s₃, hname, id, s₄, hfresh, hcalls⟩
          rcases expectName_inv hname with ⟨hkind, htook'⟩
          rcases fresh_inv hfresh with ⟨rfl, hgave⟩
          have htaken := htook.length_errors
          have htaken' := htook'.length_errors
          have hgiven := hgave.length_errors
          rcases calls_sound n hcalls (by omega) with ⟨ts, hts, hread⟩
          rw [hgave.nextId, htook'.nextId, htook.nextId] at hread
          rw [hgave.rest] at hts
          exact ⟨dot :: name :: ts, by simp [htook.rest, htook'.rest, hts], .get hdot hkind hread⟩
      · simp only [if_true, bind_eq_ok] at h
        rcases h with ⟨args, s₂, hargs, paren, s₃, hparen, id, s₄, hfresh, hcalls⟩
        rcases expectMark_inv (by decide) hparen with ⟨hkind, htook'⟩
        rcases fresh_inv hfresh with ⟨rfl, hgave⟩
        have htaken := htook.length_errors
        have htaken' := htook'.length_errors
        have hgiven := hgave.length_errors
        -- What comes later drops no fault, so there was none in the arguments either.
        have hsteady := (steady_arguments n).errors_le hargs
        have hsteady' := (steady_calls n _).errors_le hcalls
        rcases arguments_sound n hargs (by omega) with ⟨ts, hts, hread⟩
        rcases calls_sound n hcalls (by omega) with ⟨us, hus, hread'⟩
        rw [htook.nextId] at hread
        rw [hgave.nextId, htook'.nextId] at hread'
        rw [hgave.rest] at hus
        refine ⟨openParen :: ts ++ paren :: us, by simp [htook.rest, htook'.rest, hts, hus], ?_⟩
        exact .call hopen hread hkind hread'

theorem arguments_sound : ∀ n {s s' : Input} {es : List Expr}, arguments n s = .ok es s' →
    s'.errors.length ≤ s.errors.length → Reads Reading.Arguments s es s'
  | 0, _, _, _, h, _ => by cases h
  | n + 1, s, s', es, h, herrors => by
      simp only [arguments, bind_eq_ok] at h
      rcases h with ⟨isEmpty, s₁, hisEmpty, h⟩
      rcases at?_inv hisEmpty with ⟨-, rfl⟩
      -- a closing parenthesis is ahead, or a first argument is
      split at h
      · rcases pure_eq_ok.1 h with ⟨rfl, rfl⟩
        exact ⟨[], rfl, .none⟩
      · simp only [bind_eq_ok] at h
        rcases h with ⟨first, s₂, hfirst, hmore⟩
        have hsteady := (steady_expression n).errors_le hfirst
        have hsteady' := (steady_moreArguments n _).errors_le hmore
        rcases expression_sound n hfirst (by omega) with ⟨ts, hts, hread⟩
        rcases moreArguments_sound n hmore (by omega) with ⟨us, hus, hread'⟩
        exact ⟨ts ++ us, by simp [hts, hus], .some hread hread'⟩

theorem moreArguments_sound : ∀ n {before : List Expr} {s s' : Input} {es : List Expr},
    moreArguments n before s = .ok es s' → s'.errors.length ≤ s.errors.length →
    Reads (Reading.MoreArguments before) s es s'
  | 0, _, _, _, _, h, _ => by cases h
  | n + 1, before, s, s', es, h, herrors => by
      simp only [moreArguments, bind_eq_ok] at h
      rcases h with ⟨isMore, s₁, hisMore, h⟩
      rcases skip?_inv (by decide) hisMore with ⟨rfl, rfl, -⟩ | ⟨rfl, comma, hcomma, htook⟩
      · rcases pure_eq_ok.1 h with ⟨rfl, rfl⟩
        exact ⟨[], rfl, .done⟩
      · simp only [if_true, bind_eq_ok] at h
        rcases h with ⟨_, s₂, hexcess, argument, s₃, hargument, hmore⟩
        have htaken := htook.length_errors
        have hsteady := (steady_expression n).errors_le hargument
        have hsteady' := (steady_moreArguments n _).errors_le hmore
        rcases reportExcess_inv hexcess with hfault | ⟨hcount, rfl⟩
        · omega
        · rcases expression_sound n hargument (by omega) with ⟨ts, hts, hread⟩
          rcases moreArguments_sound n hmore (by omega) with ⟨us, hus, hread'⟩
          rw [htook.nextId] at hread
          refine ⟨comma :: ts ++ us, by simp [htook.rest, hts, hus], ?_⟩
          exact .more hcomma hcount hread hread'

theorem primary_sound : ∀ n {s s' : Input} {e : Expr}, primary n s = .ok e s' →
    s'.errors.length ≤ s.errors.length → Reads Reading.Primary s e s'
  | 0, _, _, _, h, _ => by cases h
  | n + 1, s, s', e, h, herrors => by
      simp only [primary, bind_eq_ok] at h
      rcases h with ⟨token, s₁, hcurrent, h⟩
      rcases current_inv hcurrent with ⟨rfl, rfl⟩
      -- Most expressions of this kind are one token.
      have hleaf : ∀ f : NodeId → Expr, s₁.head.kind ≠ .eof →
          (do let _ ← advance; return f (← fresh) : Parser Expr) s₁ = .ok e s' →
          Reading.Primary [s₁.head] s₁.nextId (f s₁.nextId) (s₁.nextId + 1) →
          Reads Reading.Primary s₁ e s' := by
        intro f hhead hrun hread
        simp only [bind_eq_ok, pure_eq_ok] at hrun
        rcases hrun with ⟨t, s₂, hadvance, id, s₃, hfresh, rfl, rfl⟩
        rcases advance_inv hhead hadvance with ⟨-, htook⟩
        rcases fresh_inv hfresh with ⟨rfl, hgave⟩
        refine ⟨[s₁.head], by simp [htook.rest, hgave.rest], ?_⟩
        rw [hgave.nextId, htook.nextId]
        exact hread
      generalize hkind : s₁.head.kind = kind at h
      split at h
      · exact hleaf _ (by simp [*]) h (.falseWord ‹_›)
      · exact hleaf _ (by simp [*]) h (.trueWord ‹_›)
      · exact hleaf _ (by simp [*]) h (.nilWord ‹_›)
      · exact hleaf _ (by simp [*]) h (.number ‹_›)
      · exact hleaf _ (by simp [*]) h (.string ‹_›)
      · simp only [bind_eq_ok, pure_eq_ok] at h
        rcases h with ⟨t, s₂, hadvance, dot, s₃, hdot, method, s₄, hmethod, id, s₅, hfresh, rfl, rfl⟩
        rcases advance_inv (by simp [*]) hadvance with ⟨-, htook⟩
        rcases expectMark_inv (by decide) hdot with ⟨hdotKind, htook'⟩
        rcases expectName_inv hmethod with ⟨hmethodKind, htook''⟩
        rcases fresh_inv hfresh with ⟨rfl, hgave⟩
        refine ⟨[s₁.head, dot, method], ?_, ?_⟩
        · simp [htook.rest, htook'.rest, htook''.rest, hgave.rest]
        · rw [hgave.nextId, htook''.nextId, htook'.nextId, htook.nextId]
          exact .super hkind hdotKind hmethodKind
      · exact hleaf _ (by simp [*]) h (.this ‹_›)
      · exact hleaf _ (by simp [*]) h (.variable ‹_›)
      · simp only [bind_eq_ok, pure_eq_ok] at h
        rcases h with
          ⟨t, s₂, hadvance, inner, s₃, hinner, closeParen, s₄, hclose, id, s₅, hfresh, rfl, rfl⟩
        rcases advance_inv (by simp [*]) hadvance with ⟨-, htook⟩
        rcases expectMark_inv (by decide) hclose with ⟨hcloseKind, htook'⟩
        rcases fresh_inv hfresh with ⟨rfl, hgave⟩
        have htaken := htook.length_errors
        have htaken' := htook'.length_errors
        have hgiven := hgave.length_errors
        rcases expression_sound n hinner (by omega) with ⟨ts, hts, hread⟩
        refine ⟨s₁.head :: ts ++ [closeParen], by simp [htook.rest, hts, htook'.rest, hgave.rest], ?_⟩
        rw [hgave.nextId, htook'.nextId]
        rw [htook.nextId] at hread
        exact .grouping hkind hread hcloseKind
      · cases h

end

end Parser

end LoxLang
