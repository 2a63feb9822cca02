import LoxLang.Syntax.Program

/-!
# Runs of productions

How the productions of the grammar are reasoned about.

* The `*_run` lemmas evaluate the steps that productions are made of.
* `Steady p`: whatever `p` does, the tokens ahead only get fewer, the numbering only goes up, and a
  fault once recorded stays; a panic has recorded one.
* `Finishes p s Q`: from `s`, the bound on the depth of productions is not used up, and a result
  satisfies `Q`.
* `Yields p s a s'`: from `s`, `p` reads `a` and leaves `s'`, unless the bound is used up.

Each of the three has one lemma for sequencing; the productions are taken apart with it.
-/

namespace LoxLang

namespace Parser

variable {α β : Type}

/-! ## Single steps -/

def Input.head (s : Input) : Token := s.rest.headD (.endOfInput 0 0)

/-- The input behind the token ahead; nothing is behind the end of input. -/
def Input.next (s : Input) : Input :=
  if s.head.kind = .eof then s else { s with rest := s.rest.tail }

theorem bind_run (x : Parser α) (f : α → Parser β) (s : Input) :
    (x >>= f) s = match x s with
      | .ok a s' => f a s'
      | .error e s' => .error e s' := by
  change EStateM.bind x f s = _
  unfold EStateM.bind
  cases x s <;> rfl

theorem pure_run (a : α) (s : Input) : (pure a : Parser α) s = .ok a s := rfl

theorem map_run (f : α → β) (x : Parser α) (s : Input) :
    (f <$> x) s = match x s with
      | .ok a s' => .ok (f a) s'
      | .error e s' => .error e s' := by
  change EStateM.map f x s = _
  unfold EStateM.map
  cases x s <;> rfl

theorem current_run (s : Input) : current s = .ok s.head s := rfl

theorem at?_run (kind : Kind) (s : Input) : at? kind s = .ok (s.head.kind == kind) s := rfl

theorem atBodyEnd_run (s : Input) :
    atBodyEnd s = .ok (s.head.kind == .rightBrace || s.head.kind == .eof) s := rfl

theorem advance_run (s : Input) : advance s = .ok s.head s.next := by
  unfold advance Input.next Input.head
  dsimp only
  split <;> rfl

/-- A statement is told by its first token. -/
theorem statement_run (n : Nat) (s : Input) :
    statement (n + 1) s =
      match s.head.kind with
      | .forWord => forStatement n s.next
      | .ifWord => ifStatement n s.next
      | .printWord => printStatement n s.next
      | .returnWord => returnStatement n s.head s.next
      | .whileWord => whileStatement n s.next
      | .leftBrace => (do return .block (← block n) : Parser Stmt) s.next
      | _ => expressionStatement n s := by
  unfold statement
  rw [bind_run, current_run]
  dsimp only
  split <;> simp only [*] <;> rw [bind_run, advance_run]

theorem accept_run (wanted : Kind → Bool) (s : Input) :
    accept wanted s = if wanted s.head.kind then .ok (some s.head) s.next else .ok none s := by
  unfold accept
  rw [bind_run, current_run]
  dsimp only
  split
  · rw [map_run, advance_run]
  · rfl

theorem skip?_run (kind : Kind) (s : Input) :
    skip? kind s = if s.head.kind = kind then .ok true s.next else .ok false s := by
  unfold skip?
  rw [bind_run, accept_run]
  by_cases h : s.head.kind = kind <;> simp [h, pure_run]

theorem report_run (fault : SyntaxFault) (token : Token) (s : Input) :
    report fault token s =
      .ok () { s with errors := s.errors ++ [.atToken (.parse fault) token] } := rfl

theorem fail_run (fault : SyntaxFault) (s : Input) :
    (fail fault : Parser α) s =
      .error .panic { s with errors := s.errors ++ [.atToken (.parse fault) s.head] } := rfl

theorem expect_run (kind : Kind) (fault : SyntaxFault) (s : Input) :
    expect kind fault s = if s.head.kind = kind then .ok s.head s.next
      else .error .panic { s with errors := s.errors ++ [.atToken (.parse fault) s.head] } := by
  unfold expect
  rw [bind_run, at?_run]
  by_cases h : s.head.kind = kind <;> simp [h, advance_run, fail_run]

theorem fresh_run (s : Input) : fresh s = .ok s.nextId { s with nextId := s.nextId + 1 } := rfl

theorem reportExcess_run (count : Nat) (fault : SyntaxFault) (s : Input) :
    reportExcess count fault s =
      if maxArguments ≤ count
        then .ok () { s with errors := s.errors ++ [.atToken (.parse fault) s.head] }
        else .ok () s := by
  unfold reportExcess
  split
  · rw [bind_run, current_run]
    rfl
  · rfl

/-! ## Inputs that follow each other -/

@[simp] theorem Input.head_cons (t : Token) (ts : List Token) (i : NodeId)
    (errors : List StaticError) : (⟨t :: ts, i, errors⟩ : Input).head = t := rfl

/-- Going past a token that is not the end of input takes it off. -/
theorem Input.next_cons {t : Token} (ts : List Token) (i : NodeId) (errors : List StaticError)
    (h : t.kind ≠ .eof) : (⟨t :: ts, i, errors⟩ : Input).next = ⟨ts, i, errors⟩ := by
  simp [Input.next, h]

@[simp] theorem Input.next_nextId (s : Input) : s.next.nextId = s.nextId := by
  unfold Input.next
  split <;> rfl

@[simp] theorem Input.next_errors (s : Input) : s.next.errors = s.errors := by
  unfold Input.next
  split <;> rfl

/-- A token that is not the end of input is really there. -/
theorem Input.rest_eq_cons {s : Input} (h : s.head.kind ≠ .eof) :
    s.rest = s.head :: s.next.rest := by
  cases hrest : s.rest with
  | nil =>
      simp [Input.head, hrest, Token.endOfInput] at h
  | cons t ts =>
      have hhead : s.head = t := by
        simp [Input.head, hrest]
      simp [Input.next, hhead ▸ h, hhead, hrest]

/-- An input that a production may leave when it is given another one. -/
structure Input.Leads (s s' : Input) : Prop where
  rest : s'.rest <:+ s.rest
  nextId : s.nextId ≤ s'.nextId
  errors : s.errors <+: s'.errors

namespace Input.Leads

theorem refl (s : Input) : s.Leads s := ⟨List.suffix_rfl, Nat.le_refl _, List.prefix_rfl⟩

theorem trans {s s' s'' : Input} (h : s.Leads s') (h' : s'.Leads s'') : s.Leads s'' :=
  ⟨h'.rest.trans h.rest, Nat.le_trans h.nextId h'.nextId, h.errors.trans h'.errors⟩

/-- To take a token leads on; at the end of the input it leads nowhere. -/
theorem next (s : Input) : s.Leads s.next := by
  refine ⟨?_, by simp, by simp⟩
  unfold Input.next
  split
  · exact List.suffix_rfl
  · exact List.tail_suffix _

theorem report (s : Input) (more : List StaticError) :
    s.Leads { s with errors := s.errors ++ more } :=
  ⟨List.suffix_rfl, Nat.le_refl _, List.prefix_append _ _⟩

end Input.Leads

/-! ## Steady productions -/

/-- What a steady production may end in. -/
def SteadyResult (s : Input) : EStateM.Result Stop Input α → Prop
  | .ok _ s' => s.Leads s'
  | .error .panic s' => s.Leads s' ∧ s.errors.length < s'.errors.length
  | .error .exhausted _ => True

/-- Tokens are only passed, numbers only given out, and faults only added; a panic adds one. -/
def Steady (p : Parser α) : Prop := ∀ s, SteadyResult s (p s)

namespace Steady

theorem pure (a : α) : Steady (Pure.pure a : Parser α) := fun s => Input.Leads.refl s

theorem exhausted : Steady (throw .exhausted : Parser α) := fun _ => trivial

/-- Whatever two steady productions do one after the other, they lead on. -/
theorem bind {x : Parser α} {f : α → Parser β} (hx : Steady x) (hf : ∀ a, Steady (f a)) :
    Steady (x >>= f) := by
  intro s
  rw [bind_run]
  have hfirst := hx s
  cases h : x s with
  | ok a s' =>
      rw [h] at hfirst
      have hsecond := hf a s'
      change SteadyResult s (f a s')
      cases h' : f a s' with
      | ok b s'' =>
          rw [h'] at hsecond
          exact hfirst.trans hsecond
      | error e s'' =>
          rw [h'] at hsecond
          cases e with
          | panic =>
              -- the panic of the second step is reported behind whatever the first one reported
              have hle := hfirst.errors.length_le
              exact ⟨hfirst.trans hsecond.1, Nat.lt_of_le_of_lt hle hsecond.2⟩
          | exhausted => trivial
  | error e s' =>
      rw [h] at hfirst
      cases e with
      | panic => exact hfirst
      | exhausted => trivial

theorem map {x : Parser α} (f : α → β) (hx : Steady x) : Steady (f <$> x) := by
  intro s
  have h := hx s
  rw [map_run]
  cases hs : x s with
  | ok a s' =>
      rw [hs] at h
      exact h
  | error e s' =>
      rw [hs] at h
      cases e <;> exact h

theorem current : Steady current := fun s => Input.Leads.refl s

theorem at? (kind : Kind) : Steady (at? kind) := fun s => Input.Leads.refl s

theorem atBodyEnd : Steady atBodyEnd := fun s => Input.Leads.refl s

theorem advance : Steady advance := by
  intro s
  rw [advance_run]
  exact Input.Leads.next s

theorem accept (wanted : Kind → Bool) : Steady (accept wanted) := by
  intro s
  rw [accept_run]
  split
  · exact Input.Leads.next s
  · exact Input.Leads.refl s

theorem skip? (kind : Kind) : Steady (skip? kind) := by
  intro s
  rw [skip?_run]
  split
  · exact Input.Leads.next s
  · exact Input.Leads.refl s

theorem report (fault : SyntaxFault) (token : Token) : Steady (report fault token) :=
  fun s => Input.Leads.report s _

theorem reportExcess (count : Nat) (fault : SyntaxFault) : Steady (reportExcess count fault) := by
  intro s
  rw [reportExcess_run]
  split
  · exact Input.Leads.report s _
  · exact Input.Leads.refl s

theorem fail (fault : SyntaxFault) : Steady (fail fault : Parser α) := by
  intro s
  rw [fail_run]
  exact ⟨Input.Leads.report s _, by simp⟩

theorem expect (kind : Kind) (fault : SyntaxFault) : Steady (expect kind fault) := by
  intro s
  rw [expect_run]
  split
  · exact Input.Leads.next s
  · exact ⟨Input.Leads.report s _, by simp⟩

theorem expectMark (mark : Kind) (place : MarkPlace) : Steady (expectMark mark place) :=
  expect mark _

theorem expectName (role : NameRole) : Steady (expectName role) := expect .identifier _

theorem fresh : Steady fresh := fun _ => ⟨List.suffix_rfl, Nat.le_succ _, List.prefix_rfl⟩

end Steady

/-- Skipping tokens leaves an end of the list. -/
theorem dropStatement_suffix (previous : Token) (ts : List Token) :
    dropStatement previous ts <:+ ts := by
  induction ts generalizing previous with
  | nil => exact List.suffix_rfl
  | cons t ts ih =>
      unfold dropStatement
      split
      · exact List.suffix_rfl
      · exact (ih t).trans (List.suffix_cons t ts)

/-- Recovering only ever drops tokens from the front. -/
theorem synchronize_suffix (ts : List Token) : synchronize ts <:+ ts := by
  cases ts with
  | nil => exact List.suffix_rfl
  | cons t ts =>
      simp only [synchronize]
      split
      · exact List.suffix_rfl
      · exact (dropStatement_suffix t ts).trans (List.suffix_cons t ts)

/-- A production that recovers leads on, whether it has to drop tokens or not. -/
theorem Steady.recovering {p : Parser α} (hp : Steady p) : Steady (recovering p) := by
  intro s
  have h := hp s
  unfold Parser.recovering
  cases hs : p s with
  | ok a s' =>
      rw [hs] at h
      exact h
  | error e s' =>
      rw [hs] at h
      cases e with
      | panic =>
          -- what is left behind a panic is left of what was left
          have hsync := (synchronize_suffix s'.rest).trans h.1.rest
          exact ⟨hsync, h.1.nextId, h.1.errors⟩
      | exhausted => trivial

/-! ## Productions that finish -/

/-- What a production that finishes may end in. -/
def FinishedResult (Q : α → Input → Prop) : EStateM.Result Stop Input α → Prop
  | .ok a s' => Q a s'
  | .error .panic _ => True
  | .error .exhausted _ => False

/-- The bound on the depth of productions is not used up, and a result satisfies `Q`. -/
def Finishes (p : Parser α) (s : Input) (Q : α → Input → Prop) : Prop := FinishedResult Q (p s)

namespace Finishes

/-- If the first step finishes with `P`, and the second one does from wherever `P` holds, both
do. -/
theorem bind {x : Parser α} {f : α → Parser β} {s : Input} {P : α → Input → Prop}
    {Q : β → Input → Prop} (hx : Finishes x s P) (hf : ∀ a s', P a s' → Finishes (f a) s' Q) :
    Finishes (x >>= f) s Q := by
  unfold Finishes at *
  rw [bind_run]
  cases h : x s with
  | ok a s' =>
      rw [h] at hx
      exact hf a s' hx
  | error e s' =>
      rw [h] at hx
      cases e <;> exact hx

theorem map {x : Parser α} (f : α → β) {s : Input} {Q : β → Input → Prop}
    (hx : Finishes x s fun a s' => Q (f a) s') : Finishes (f <$> x) s Q := by
  unfold Finishes at *
  rw [map_run]
  cases h : x s with
  | ok a s' =>
      rw [h] at hx
      exact hx
  | error e s' =>
      rw [h] at hx
      cases e <;> exact hx

/-- A production that finishes with more finishes with less. -/
theorem mono {x : Parser α} {s : Input} {P Q : α → Input → Prop} (hx : Finishes x s P)
    (h : ∀ a s', P a s' → Q a s') : Finishes x s Q := by
  unfold Finishes at *
  cases hs : x s with
  | ok a s' =>
      rw [hs] at hx
      exact h a s' hx
  | error e s' =>
      rw [hs] at hx
      cases e <;> exact hx

end Finishes

/-! ## Results -/

/-- Two steps succeed exactly if the first does and the second does where it ends. -/
theorem bind_eq_ok {x : Parser α} {f : α → Parser β} {s s'' : Input} {b : β} :
    (x >>= f) s = .ok b s'' ↔ ∃ a s', x s = .ok a s' ∧ f a s' = .ok b s'' := by
  rw [bind_run]
  constructor
  · intro h
    cases hx : x s with
    | ok a s' =>
        rw [hx] at h
        exact ⟨a, s', rfl, h⟩
    | error e s' =>
        rw [hx] at h
        cases h
  · rintro ⟨a, s', hx, hf⟩
    rw [hx]
    exact hf

theorem map_eq_ok {x : Parser α} {f : α → β} {s s' : Input} {b : β} :
    (f <$> x) s = .ok b s' ↔ ∃ a, x s = .ok a s' ∧ f a = b := by
  rw [map_run]
  constructor
  · intro h
    cases hx : x s with
    | ok a s'' =>
        rw [hx] at h
        cases h
        exact ⟨a, rfl, rfl⟩
    | error e s'' =>
        rw [hx] at h
        cases h
  · rintro ⟨a, hx, rfl⟩
    rw [hx]

theorem pure_eq_ok {a b : α} {s s' : Input} :
    (pure a : Parser α) s = .ok b s' ↔ a = b ∧ s = s' := by
  rw [pure_run]
  simp

/-- Faults are never taken back. -/
theorem Steady.errors_le {p : Parser α} (hp : Steady p) {s s' : Input} {a : α}
    (h : p s = .ok a s') : s.errors.length ≤ s'.errors.length := by
  have hleads := hp s
  rw [h] at hleads
  exact hleads.errors.length_le

/-! ## Readings that are fixed -/

/-- A production reads something, unless the bound on the depth of productions is used up. -/
def Yields (p : Parser α) (s : Input) (a : α) (s' : Input) : Prop :=
  p s = .ok a s' ∨ ∃ s'', p s = .error .exhausted s''

namespace Yields

theorem pure (a : α) (s : Input) : Yields (Pure.pure a) s a s := .inl rfl

theorem exhausted {s s' : Input} {a : α} : Yields (throw .exhausted) s a s' := .inr ⟨s, rfl⟩

/-- Two steps yield what the second one yields where the first one ends. -/
theorem bind {x : Parser α} {f : α → Parser β} {s s' s'' : Input} {a : α} {b : β}
    (hx : Yields x s a s') (hf : Yields (f a) s' b s'') : Yields (x >>= f) s b s'' := by
  unfold Yields at *
  rw [bind_run]
  rcases hx with hx | ⟨t, hx⟩
  · rw [hx]
    exact hf
  · rw [hx]
    exact .inr ⟨t, rfl⟩

theorem map {x : Parser α} (f : α → β) {s s' : Input} {a : α} (hx : Yields x s a s') :
    Yields (f <$> x) s (f a) s' := by
  unfold Yields at *
  rw [map_run]
  rcases hx with hx | ⟨t, hx⟩
  · rw [hx]
    exact .inl rfl
  · rw [hx]
    exact .inr ⟨t, rfl⟩

/-- A production that does finish gives the reading that is fixed. -/
theorem eq_ok {p : Parser α} {s s' : Input} {a : α} {Q : α → Input → Prop}
    (h : Yields p s a s') (hfinish : Finishes p s Q) : p s = .ok a s' := by
  rcases h with h | ⟨t, h⟩
  · exact h
  · unfold Finishes at hfinish
    rw [h] at hfinish
    exact hfinish.elim

end Yields

end Parser

end LoxLang
