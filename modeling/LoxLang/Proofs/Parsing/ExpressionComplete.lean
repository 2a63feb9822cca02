import LoxLang.Proofs.Parsing.ExpressionSound

/-!
# Expressions are read completely

Tokens that read as an expression are read as that expression, whatever follows them, as long as it
does not continue the expression: no operator, no call, no property and no `=`. Only one token is
looked at beyond the expression itself.
-/

namespace LoxLang

open LoxLang.Reading (Precedence)

namespace Parser

/-- The kind of the first token of a list; an empty list is at the end of input. -/
def ahead (ts : List Token) : Kind := (ts.headD (.endOfInput 0 0)).kind

@[simp] theorem ahead_cons (t : Token) (ts : List Token) : ahead (t :: ts) = t.kind := rfl

theorem ahead_eq {t : Token} {kind : Kind} (h : t.kind = kind) {ts : List Token} :
    kind = ahead (t :: ts) := h.symm

theorem head_kind (ts : List Token) (i : NodeId) (errors : List StaticError) :
    (⟨ts, i, errors⟩ : Input).head.kind = ahead ts := rfl

namespace Yields

variable {ts : List Token} {i : NodeId} {errors : List StaticError}

/-- A token that is wanted is taken. -/
theorem accept_some {wanted : Kind → Bool} {t : Token} (hwanted : wanted .eof = false)
    (h : wanted t.kind = true) :
    Yields (accept wanted) ⟨t :: ts, i, errors⟩ (some t) ⟨ts, i, errors⟩ := by
  have heof : t.kind ≠ .eof := by
    intro heof
    simp [heof, hwanted] at h
  refine .inl ?_
  rw [accept_run, head_kind, ahead_cons, if_pos h, Input.next_cons _ _ _ heof, Input.head_cons]

theorem accept_none {wanted : Kind → Bool} (h : wanted (ahead ts) = false) :
    Yields (accept wanted) ⟨ts, i, errors⟩ none ⟨ts, i, errors⟩ := by
  refine .inl ?_
  rw [accept_run, head_kind, if_neg (by simp [h])]

theorem skip?_true {kind : Kind} {t : Token} (hkind : kind ≠ .eof) (h : t.kind = kind) :
    Yields (skip? kind) ⟨t :: ts, i, errors⟩ true ⟨ts, i, errors⟩ := by
  refine .inl ?_
  rw [skip?_run, head_kind, ahead_cons, if_pos h, Input.next_cons _ _ _ (h ▸ hkind)]

theorem skip?_false {kind : Kind} (h : ahead ts ≠ kind) :
    Yields (skip? kind) ⟨ts, i, errors⟩ false ⟨ts, i, errors⟩ := by
  refine .inl ?_
  rw [skip?_run, head_kind, if_neg h]

theorem at?_true {kind : Kind} (h : ahead ts = kind) :
    Yields (at? kind) ⟨ts, i, errors⟩ true ⟨ts, i, errors⟩ := by
  refine .inl ?_
  rw [at?_run, head_kind]
  simp [h]

theorem at?_false {kind : Kind} (h : ahead ts ≠ kind) :
    Yields (at? kind) ⟨ts, i, errors⟩ false ⟨ts, i, errors⟩ := by
  refine .inl ?_
  rw [at?_run, head_kind]
  simp [h]

theorem current (t : Token) :
    Yields current ⟨t :: ts, i, errors⟩ t ⟨t :: ts, i, errors⟩ := .inl rfl

theorem advance {t : Token} (h : t.kind ≠ .eof) :
    Yields advance ⟨t :: ts, i, errors⟩ t ⟨ts, i, errors⟩ := by
  refine .inl ?_
  rw [advance_run, Input.next_cons _ _ _ h, Input.head_cons]

theorem expect {kind : Kind} {fault : SyntaxFault} {t : Token} (hkind : kind ≠ .eof)
    (h : t.kind = kind) : Yields (expect kind fault) ⟨t :: ts, i, errors⟩ t ⟨ts, i, errors⟩ := by
  refine .inl ?_
  rw [expect_run, head_kind, ahead_cons, if_pos h, Input.next_cons _ _ _ (h ▸ hkind),
    Input.head_cons]

theorem expectMark {mark : Kind} {place : MarkPlace} {t : Token} (hmark : mark ≠ .eof)
    (h : t.kind = mark) :
    Yields (expectMark mark place) ⟨t :: ts, i, errors⟩ t ⟨ts, i, errors⟩ := expect hmark h

theorem expectName {role : NameRole} {t : Token} (h : t.kind = .identifier) :
    Yields (expectName role) ⟨t :: ts, i, errors⟩ t ⟨ts, i, errors⟩ := expect (by decide) h

theorem fresh : Yields fresh ⟨ts, i, errors⟩ i ⟨ts, i + 1, errors⟩ := .inl rfl

theorem reportExcess {count : Nat} {fault : SyntaxFault} (h : count < 255) :
    Yields (reportExcess count fault) ⟨ts, i, errors⟩ () ⟨ts, i, errors⟩ := by
  have hcount : ¬ maxArguments ≤ count := Nat.not_le.2 h
  refine .inl ?_
  rw [reportExcess_run, if_neg hcount]

end Yields

/-! ## What can follow -/

/-- A kind of token that does not continue an expression with operators of the given precedences. -/
structure Stops (ps : List Precedence) (kind : Kind) : Prop where
  notCall : kind ≠ .leftParen
  notGet : kind ≠ .dot
  notOperator : ∀ p ∈ ps, kind ∉ p.operators

/-- What stops a level stops every tighter one. -/
theorem Stops.tighter {p : Precedence} {tighter : List Precedence} {kind : Kind}
    (h : Stops (p :: tighter) kind) : Stops tighter kind :=
  ⟨h.notCall, h.notGet, fun q hq => h.notOperator q (List.mem_cons_of_mem _ hq)⟩

/-- No operator belongs to two precedences. -/
theorem eq_of_mem_operators {p q : Precedence} {kind : Kind} (hp : kind ∈ p.operators)
    (hq : kind ∈ q.operators) : p = q := by
  cases p <;> cases q <;> grind [Precedence.operators]

/-- An operator does not continue an operand of a tighter one. -/
theorem stops_of_mem_operators {p : Precedence} {tighter : List Precedence} {kind : Kind}
    (hsuffix : p :: tighter <:+ Precedence.all) (h : kind ∈ p.operators) :
    Stops tighter kind := by
  have hnodup : (p :: tighter).Nodup := hsuffix.sublist.nodup (by decide)
  refine ⟨?_, ?_, ?_⟩
  · rintro rfl
    cases p <;> simp [Precedence.operators] at h
  · rintro rfl
    cases p <;> simp [Precedence.operators] at h
  · intro q hq hkind
    rcases eq_of_mem_operators h hkind with rfl
    exact (List.nodup_cons.1 hnodup).1 hq

theorem stops_equal : Stops Precedence.all .equal := ⟨by decide, by decide, by decide⟩

theorem stops_rightParen : Stops Precedence.all .rightParen := ⟨by decide, by decide, by decide⟩

theorem stops_semicolon : Stops Precedence.all .semicolon := ⟨by decide, by decide, by decide⟩

/-! ## What comes first -/

/-- The first token of a list exists and is of a kind that is wanted. -/
def StartsWith (wanted : Kind → Bool) (ts : List Token) : Prop :=
  ∃ t us, ts = t :: us ∧ wanted t.kind = true

theorem StartsWith.append {wanted : Kind → Bool} {ts : List Token} (h : StartsWith wanted ts)
    (us : List Token) : StartsWith wanted (ts ++ us) := by
  rcases h with ⟨t, vs, rfl, ht⟩
  exact ⟨t, vs ++ us, rfl, ht⟩

theorem StartsWith.mono {wanted wanted' : Kind → Bool} {ts : List Token}
    (h : StartsWith wanted ts) (hwanted : ∀ kind, wanted kind = true → wanted' kind = true) :
    StartsWith wanted' ts := by
  rcases h with ⟨t, us, rfl, ht⟩
  exact ⟨t, us, rfl, hwanted _ ht⟩

/-- What stands behind does not change how a list starts. -/
theorem StartsWith.ahead_append {wanted : Kind → Bool} {ts : List Token}
    (h : StartsWith wanted ts) (us : List Token) : wanted (ahead (ts ++ us)) = true := by
  rcases h with ⟨t, vs, rfl, ht⟩
  exact ht

/-- A token that does not start a phrase is not ahead of one. -/
theorem StartsWith.ahead_ne {wanted : Kind → Bool} {ts : List Token} (h : StartsWith wanted ts)
    (us : List Token) {kind : Kind} (hkind : wanted kind = false) : ahead (ts ++ us) ≠ kind := by
  rintro rfl
  simp [h.ahead_append us] at hkind

def startsPrimary : Kind → Bool
  | .falseWord | .trueWord | .nilWord | .number | .string | .superWord | .thisWord | .identifier
  | .leftParen => true
  | _ => false

def startsExpression (kind : Kind) : Bool := isUnaryOperator kind || startsPrimary kind

/-- A primary expression begins with no operator. -/
theorem isUnaryOperator_of_startsPrimary {kind : Kind} (h : startsPrimary kind = true) :
    isUnaryOperator kind = false := by
  cases kind <;> first | rfl | cases h

end Parser

namespace Reading

open LoxLang.Parser

theorem Primary.starts {ts : List Token} {i j : NodeId} {e : Expr} (h : Primary ts i e j) :
    StartsWith startsPrimary ts := by
  cases h <;> exact ⟨_, _, rfl, by simp [startsPrimary, *]⟩

theorem Call.starts {ts : List Token} {i j : NodeId} {e : Expr} (h : Call ts i e j) :
    StartsWith startsExpression ts := by
  rcases h with ⟨hprimary, _⟩
  rcases hprimary.starts with ⟨t, us, rfl, ht⟩
  exact ⟨t, _, rfl, by simp [startsExpression, ht]⟩

theorem Unary.starts {ts : List Token} {i j : NodeId} {e : Expr} (h : Unary ts i e j) :
    StartsWith startsExpression ts := by
  cases h with
  | operator hkind _ =>
      exact ⟨_, _, rfl, by simp [startsExpression, isUnaryOperator_eq_true.2 hkind]⟩
  | call hcall => exact hcall.starts

theorem Operation.starts {ps : List Precedence} {ts : List Token} {i j : NodeId} {e : Expr} :
    Operation ps ts i e j → StartsWith startsExpression ts
  | .unary hunary => hunary.starts
  | .chain hleft _ => hleft.starts.append _

/-- How an expression may begin can be told from its first token. -/
theorem Expression.starts {ts : List Token} {i j : NodeId} {e : Expr} (h : Expression ts i e j) :
    StartsWith startsExpression ts := by
  cases h with
  | plain hoperation => exact hoperation.starts
  | assign hname _ _ => exact ⟨_, _, rfl, by simp [startsExpression, startsPrimary, hname]⟩
  | set hobject _ _ _ _ => exact hobject.starts.append _

end Reading

namespace Parser

theorem stops_comma : Stops Precedence.all .comma := ⟨by decide, by decide, by decide⟩

/-- What follows a chain of operators, or an operator of the chain itself, stops its operands. -/
theorem stops_chain {p : Precedence} {tighter : List Precedence} {left e : Expr}
    {ts rest : List Token} {i j : NodeId} (hsuffix : p :: tighter <:+ Precedence.all)
    (h : Reading.Chain p tighter left ts i e j) (hrest : Stops (p :: tighter) (ahead rest)) :
    Stops tighter (ahead (ts ++ rest)) := by
  cases h with
  | done => exact hrest.tighter
  | more hoperator _ _ => exact stops_of_mem_operators hsuffix hoperator

/-- Behind an argument stands a comma or the closing parenthesis. -/
theorem stops_moreArguments {before es : List Expr} {ts rest : List Token} {i j : NodeId}
    (h : Reading.MoreArguments before ts i es j) (hrest : ahead rest = .rightParen) :
    Stops Precedence.all (ahead (ts ++ rest)) ∧ ahead (ts ++ rest) ≠ .equal := by
  cases h with
  | done =>
      simp only [List.nil_append, hrest]
      exact ⟨stops_rightParen, by decide⟩
  | more hcomma _ _ _ =>
      simp only [List.cons_append, ahead_cons, hcomma]
      exact ⟨stops_comma, by decide⟩

/-! ## Expressions -/

mutual

/-- By induction on the bound: what is read by the grammar is what the parser yields, if the token
behind it cannot go on the expression. -/
theorem expression_complete : ∀ n {ts : List Token} {i j : NodeId} {e : Expr}
    (rest : List Token) (errors : List StaticError), Reading.Expression ts i e j →
    Stops Precedence.all (ahead rest) → ahead rest ≠ .equal →
    Yields (expression n) ⟨ts ++ rest, i, errors⟩ e ⟨rest, j, errors⟩
  | 0, _, _, _, _, _, _, _, _, _ => .exhausted
  | n + 1, _, _, _, _, rest, errors, .plain h, hstops, hequal => by
      refine .bind (operation_complete n rest errors List.suffix_rfl h hstops) ?_
      refine .bind (.accept_none (by simpa using hequal)) ?_
      exact .pure _ _
  | n + 1, _, i, _, _, rest, errors, @Reading.Expression.assign _ equals ts _ _ _ hname hequals h,
      hstops, hequal => by
      -- The target is read first, as a call: it is the `=` behind it that makes it one.
      have htarget := Reading.Operation.of_call (Reading.Call.of_name i hname) Precedence.all
      have hleft := operation_complete n (equals :: ts ++ rest) errors List.suffix_rfl htarget
        (ahead_eq hequals ▸ stops_equal)
      refine .bind hleft ?_
      refine .bind (.accept_some rfl (by simp [hequals])) ?_
      refine .bind (expression_complete n rest errors h hstops hequal) ?_
      exact .bind .fresh (.pure _ _)
  | n + 1, _, i, _, _, rest, errors,
      @Reading.Expression.set _ _ equals _ us _ _ _ _ _ hobject hdot hname hequals h,
      hstops, hequal => by
      have htarget := Reading.Operation.of_call (hobject.snoc_get hdot hname) Precedence.all
      have hleft := operation_complete n (equals :: us ++ rest) errors List.suffix_rfl htarget
        (ahead_eq hequals ▸ stops_equal)
      simp only [List.append_assoc, List.cons_append, List.nil_append] at hleft ⊢
      refine .bind hleft ?_
      refine .bind (.accept_some rfl (by simp [hequals])) ?_
      refine .bind (expression_complete n rest errors h hstops hequal) ?_
      exact .bind .fresh (.pure _ _)

theorem operation_complete : ∀ n {ps : List Precedence} {ts : List Token} {i j : NodeId} {e : Expr}
    (rest : List Token) (errors : List StaticError), ps <:+ Precedence.all →
    Reading.Operation ps ts i e j → Stops ps (ahead rest) →
    Yields (operation n (ps.map Precedence.level)) ⟨ts ++ rest, i, errors⟩ e ⟨rest, j, errors⟩
  | 0, _, _, _, _, _, _, _, _, _, _ => .exhausted
  | n + 1, _, _, _, _, _, rest, errors, _, .unary h, hstops =>
      unary_complete n rest errors h hstops
  | n + 1, _, _, _, _, _, rest, errors, hsuffix, .chain hleft hchain, hstops => by
      have hoperand := stops_chain hsuffix hchain hstops
      have htighter := (List.suffix_cons _ _).trans hsuffix
      rw [List.append_assoc]
      refine .bind (operation_complete n _ errors htighter hleft hoperand) ?_
      exact chain_complete n rest errors hsuffix hchain hstops

/-- The parser goes round once for each operator, and stops where the chain does. -/
theorem chain_complete : ∀ n {p : Precedence} {tighter : List Precedence} {left : Expr}
    {ts : List Token} {i j : NodeId} {e : Expr} (rest : List Token) (errors : List StaticError),
    p :: tighter <:+ Precedence.all → Reading.Chain p tighter left ts i e j →
    Stops (p :: tighter) (ahead rest) →
    Yields (chain n p.level (tighter.map Precedence.level) left) ⟨ts ++ rest, i, errors⟩ e
      ⟨rest, j, errors⟩
  | 0, _, _, _, _, _, _, _, _, _, _, _, _ => .exhausted
  | n + 1, p, _, _, _, _, _, _, rest, errors, _, .done, hstops => by
      have hnone := p.accepts_level_eq_false (hstops.notOperator p List.mem_cons_self)
      refine .bind (.accept_none hnone) ?_
      exact .pure _ _
  | n + 1, p, _, _, _, _, _, _, rest, errors, hsuffix, .more hoperator hright hchain, hstops => by
      have hoperand := stops_chain hsuffix hchain hstops
      have htighter := (List.suffix_cons _ _).trans hsuffix
      simp only [List.cons_append, List.append_assoc]
      refine .bind (.accept_some p.accepts_level_eof ((p.accepts_level _).2 hoperator)) ?_
      refine .bind (operation_complete n _ errors htighter hright hoperand) ?_
      refine .bind .fresh ?_
      rw [p.node_level]
      exact chain_complete n rest errors hsuffix hchain hstops

theorem unary_complete : ∀ n {ts : List Token} {i j : NodeId} {e : Expr}
    (rest : List Token) (errors : List StaticError), Reading.Unary ts i e j →
    Stops [] (ahead rest) →
    Yields (unary n) ⟨ts ++ rest, i, errors⟩ e ⟨rest, j, errors⟩
  | 0, _, _, _, _, _, _, _, _ => .exhausted
  | n + 1, _, _, _, _, rest, errors, .operator hoperator h, hstops => by
      refine .bind (.accept_some rfl (isUnaryOperator_eq_true.2 hoperator)) ?_
      refine .bind (unary_complete n rest errors h hstops) ?_
      exact .bind .fresh (.pure _ _)
  | n + 1, _, _, _, _, rest, errors, .call (.mk hprimary hcalls), hstops => by
      rw [List.append_assoc]
      have hfirst := hprimary.starts.ahead_append
      refine .bind (.accept_none (isUnaryOperator_of_startsPrimary (hfirst _))) ?_
      refine .bind (primary_complete n _ errors hprimary) ?_
      exact calls_complete n rest errors hcalls hstops

theorem calls_complete : ∀ n {callee : Expr} {ts : List Token} {i j : NodeId} {e : Expr}
    (rest : List Token) (errors : List StaticError), Reading.Calls callee ts i e j →
    Stops [] (ahead rest) →
    Yields (calls n callee) ⟨ts ++ rest, i, errors⟩ e ⟨rest, j, errors⟩
  | 0, _, _, _, _, _, _, _, _, _ => .exhausted
  | n + 1, _, _, _, _, _, rest, errors, .done, hstops => by
      refine .bind (.skip?_false hstops.notCall) ?_
      refine .bind (.skip?_false hstops.notGet) ?_
      exact .pure _ _
  | n + 1, _, _, _, _, _, rest, errors, .call hopen hargs hparen hcalls,
      hstops => by
      simp only [List.cons_append, List.append_assoc]
      refine .bind (.skip?_true (by decide) hopen) ?_
      refine .bind (arguments_complete n _ errors hargs hparen) ?_
      refine .bind (.expectMark (by decide) hparen) ?_
      refine .bind .fresh ?_
      exact calls_complete n rest errors hcalls hstops
  | n + 1, _, _, _, _, _, rest, errors, .get hdot hname hcalls, hstops => by
      refine .bind (.skip?_false (by simp [hdot])) ?_
      refine .bind (.skip?_true (by decide) hdot) ?_
      refine .bind (.expectName hname) ?_
      refine .bind .fresh ?_
      exact calls_complete n rest errors hcalls hstops

theorem arguments_complete : ∀ n {ts : List Token} {i j : NodeId} {es : List Expr}
    (rest : List Token) (errors : List StaticError), Reading.Arguments ts i es j →
    ahead rest = .rightParen →
    Yields (arguments n) ⟨ts ++ rest, i, errors⟩ es ⟨rest, j, errors⟩
  | 0, _, _, _, _, _, _, _, _ => .exhausted
  | n + 1, _, _, _, _, rest, errors, .none, hrest => by
      refine .bind (.at?_true hrest) ?_
      exact .pure _ _
  | n + 1, _, _, _, _, rest, errors, .some hfirst hmore, hrest => by
      rcases stops_moreArguments hmore hrest with ⟨hstops, hequal⟩
      rw [List.append_assoc]
      refine .bind (.at?_false (hfirst.starts.ahead_ne _ rfl)) ?_
      refine .bind (expression_complete n _ errors hfirst hstops hequal) ?_
      exact moreArguments_complete n rest errors hmore hrest

theorem moreArguments_complete : ∀ n {before : List Expr} {ts : List Token} {i j : NodeId}
    {es : List Expr} (rest : List Token) (errors : List StaticError),
    Reading.MoreArguments before ts i es j → ahead rest = .rightParen →
    Yields (moreArguments n before) ⟨ts ++ rest, i, errors⟩ es ⟨rest, j, errors⟩
  | 0, _, _, _, _, _, _, _, _, _ => .exhausted
  | n + 1, _, _, _, _, _, rest, errors, .done, hrest => by
      refine .bind (.skip?_false (by simp [hrest])) ?_
      exact .pure _ _
  | n + 1, _, _, _, _, _, rest, errors, .more hcomma hcount h hmore, hrest => by
      rcases stops_moreArguments hmore hrest with ⟨hstops, hequal⟩
      simp only [List.cons_append, List.append_assoc]
      refine .bind (.skip?_true (by decide) hcomma) ?_
      refine .bind (.reportExcess hcount) ?_
      refine .bind (expression_complete n _ errors h hstops hequal) ?_
      exact moreArguments_complete n rest errors hmore hrest

theorem primary_complete : ∀ n {ts : List Token} {i j : NodeId} {e : Expr}
    (rest : List Token) (errors : List StaticError), Reading.Primary ts i e j →
    Yields (primary n) ⟨ts ++ rest, i, errors⟩ e ⟨rest, j, errors⟩
  | 0, _, _, _, _, _, _, _ => .exhausted
  | n + 1, _, _, _, _, rest, errors, h => by
      -- Most expressions of this kind are one token.
      have hleaf : ∀ {t : Token} {i : NodeId} (f : NodeId → Expr), t.kind ≠ .eof →
          Yields (do let _ ← advance; return f (← fresh) : Parser Expr) ⟨t :: rest, i, errors⟩
            (f i) ⟨rest, i + 1, errors⟩ := by
        intro t i f ht
        exact .bind (.advance ht) (.bind .fresh (.pure _ _))
      cases h with
      | falseWord hkind | trueWord hkind | nilWord hkind | number hkind | string hkind
      | this hkind | «variable» hkind =>
          refine .bind (.current _) ?_
          simp only [hkind]
          exact hleaf _ (by simp [hkind])
      | super hkind hdot hmethod =>
          refine .bind (.current _) ?_
          simp only [hkind]
          refine .bind (.advance (by simp [hkind])) ?_
          refine .bind (.expectMark (by decide) hdot) ?_
          refine .bind (.expectName hmethod) ?_
          exact .bind .fresh (.pure _ _)
      | grouping hkind hinner hclose =>
          simp only [List.cons_append, List.append_assoc, List.nil_append]
          refine .bind (.current _) ?_
          simp only [hkind]
          refine .bind (.advance (by simp [hkind])) ?_
          refine .bind (expression_complete n _ errors hinner ?_ ?_) ?_
          · exact ahead_eq hclose ▸ stops_rightParen
          · simp [hclose]
          refine .bind (.expectMark (by decide) hclose) ?_
          exact .bind .fresh (.pure _ _)

end

end Parser

end LoxLang
