import LoxLang.Proofs.Parsing.Cursor
import LoxLang.Proofs.Parsing.Basic

/-!
# Positions stay inside the list

A reading by positions does what the productions do with the tokens ahead, and never looks a token
up where there is none.

* `Cursor.input`: what is ahead of a cursor. `Cursor.Inside`: some token is ahead, and the last one
  is the end of input.
* `Cursor.Leads`: a cursor that a production may leave when it is given another one.
* `Cursor.Follows q p`: from a cursor inside the list, `q` ends inside it, and in what `p` ends in
  on the tokens ahead.
* The proofs follow the productions: one lemma each, by recursion on the bound of their depth.
-/

namespace LoxLang

namespace Cursor

variable {α β : Type}

/-! ## What is ahead -/

/-- The tokens ahead of a cursor, with the numbering and the faults. -/
def input (c : Cursor) : Parser.Input := ⟨c.tokens.drop c.position, c.nextId, c.errors⟩

/-- Some token is ahead, and the last one is the end of input. -/
structure Inside (c : Cursor) : Prop where
  position_lt : c.position < c.tokens.length
  last : ∀ t ∈ c.tokens.getLast?, t.kind = .eof

/-- The cursor behind the token ahead; nothing is behind the end of input. -/
def next (c : Cursor) : Cursor :=
  if c.input.head.kind = .eof then c else { c with position := c.position + 1 }

/-- Inside the list, the position is that of the token ahead. -/
theorem Inside.getElem? {c : Cursor} (hc : c.Inside) :
    c.tokens[c.position]? = some c.input.head := by
  have hrest := List.drop_eq_getElem_cons hc.position_lt
  rw [List.getElem?_eq_getElem hc.position_lt]
  simp only [input, Parser.Input.head, hrest, List.headD_cons]

/-- What remains is the token ahead and all behind it. -/
theorem Inside.rest_eq {c : Cursor} (hc : c.Inside) :
    c.input.rest = c.input.head :: c.tokens.drop (c.position + 1) := by
  have hrest := List.drop_eq_getElem_cons hc.position_lt
  simp only [input, Parser.Input.head, hrest, List.headD_cons]

/-- Behind a token that is not the end of input there is another one. -/
theorem Inside.succ_lt {c : Cursor} (hc : c.Inside) (h : c.input.head.kind ≠ .eof) :
    c.position + 1 < c.tokens.length := by
  rcases Nat.lt_or_eq_of_le hc.position_lt with hlt | heq
  · exact hlt
  · have hlast : c.tokens.getLast? = some c.input.head := by
      rw [List.getLast?_eq_getElem?, ← heq, Nat.succ_sub_one, hc.getElem?]
    exact absurd (hc.last _ hlast) h

theorem next_of_ne {c : Cursor} (h : c.input.head.kind ≠ .eof) :
    c.next = { c with position := c.position + 1 } := if_neg h

theorem input_next (c : Cursor) : c.next.input = c.input.next := by
  unfold next Parser.Input.next
  split
  · rfl
  · simp [input]

/-- No step leads past the end of the input, which is the last token. -/
theorem Inside.next {c : Cursor} (hc : c.Inside) : c.next.Inside := by
  unfold Cursor.next
  split
  · exact hc
  · exact ⟨hc.succ_lt ‹_›, hc.last⟩

/-- A cursor that a production may leave when it is given another one. -/
structure Leads (c c' : Cursor) : Prop where
  inside : c'.Inside
  tokens : c'.tokens = c.tokens
  position : c.position ≤ c'.position

namespace Leads

theorem refl {c : Cursor} (hc : c.Inside) : c.Leads c := ⟨hc, rfl, Nat.le_refl _⟩

theorem trans {c c' c'' : Cursor} (h : c.Leads c') (h' : c'.Leads c'') : c.Leads c'' :=
  ⟨h'.inside, h'.tokens.trans h.tokens, Nat.le_trans h.position h'.position⟩

/-- A step leads on inside the list. -/
theorem next {c : Cursor} (hc : c.Inside) : c.Leads c.next := by
  refine ⟨hc.next, ?_, ?_⟩
  · unfold Cursor.next
    split <;> rfl
  · unfold Cursor.next
    split
    · exact Nat.le_refl _
    · exact Nat.le_succ _

end Leads

/-! ## Single steps -/

theorem bind_run (x : Production α) (f : α → Production β) (c : Cursor) :
    (x >>= f) c = match x c with
      | .ok a c' => f a c'
      | .error e c' => .error e c' := by
  change EStateM.bind x f c = _
  unfold EStateM.bind
  cases x c <;> rfl

theorem pure_run (a : α) (c : Cursor) : (pure a : Production α) c = .ok a c := rfl

theorem current_run {c : Cursor} (hc : c.Inside) : current c = .ok c.input.head c := by
  unfold current
  rw [hc.getElem?]

theorem advance_run {c : Cursor} (hc : c.Inside) : advance c = .ok c.input.head c.next := by
  unfold advance next
  rw [hc.getElem?]
  dsimp only
  split <;> rfl

/-- The token that has just been passed can be looked up. -/
theorem previous_next {c : Cursor} (hc : c.Inside) (h : c.input.head.kind ≠ .eof) :
    previous c.next = .ok c.input.head c.next := by
  simp [previous, next, h, hc.getElem?]

theorem at?_run {c : Cursor} (hc : c.Inside) (kind : Kind) :
    at? kind c = .ok (c.input.head.kind == kind) c := by
  unfold at?
  rw [bind_run, current_run hc]
  rfl

theorem skip?_run {c : Cursor} (hc : c.Inside) (kind : Kind) :
    skip? kind c = if c.input.head.kind = kind then .ok true c.next else .ok false c := by
  unfold skip? accept
  rw [bind_run, bind_run, current_run hc]
  by_cases h : c.input.head.kind = kind
  · simp [h, ← bind_pure_comp, bind_run, advance_run hc, pure_run]
  · simp [h, pure_run]

/-! ## Productions that stay inside -/

/-- What a production may end in by positions, and what it ends in on the tokens ahead. -/
inductive Matches (c : Cursor) :
    EStateM.Result Stop Cursor α → EStateM.Result Parser.Stop Parser.Input α → Prop where
  | ok {a : α} {c' : Cursor} : c.Leads c' → Matches c (.ok a c') (.ok a c'.input)
  | panic {c' : Cursor} : c.Leads c' → Matches c (.error .panic c') (.error .panic c'.input)
  | exhausted {c' : Cursor} {s : Parser.Input} :
      Matches c (.error .exhausted c') (.error .exhausted s)

/-- From one cursor, `q` does by positions what `p` does. -/
def FollowsAt (c : Cursor) (q : Production α) (p : Parser α) : Prop := c.Matches (q c) (p c.input)

/-- From all cursors inside a list, `q` does by positions what `p` does. -/
def Follows (q : Production α) (p : Parser α) : Prop := ∀ c : Cursor, c.Inside → c.FollowsAt q p

/-- What a later cursor leads to, an earlier one leads to. -/
theorem Matches.after {c c' : Cursor} {r : EStateM.Result Stop Cursor α}
    {r' : EStateM.Result Parser.Stop Parser.Input α} (h : c'.Matches r r') (hlead : c.Leads c') :
    c.Matches r r' := by
  cases h with
  | ok h => exact .ok (hlead.trans h)
  | panic h => exact .panic (hlead.trans h)
  | exhausted => exact .exhausted

namespace Follows

theorem pure (a : α) : Follows (Pure.pure a) (Pure.pure a) := fun _ hc => .ok (.refl hc)

theorem exhausted : Follows (throw .exhausted : Production α) (throw .exhausted) :=
  fun _ _ => .exhausted

/-- Sequencing, from one cursor. -/
theorem bind_at {x : Production α} {x' : Parser α} {f : α → Production β} {f' : α → Parser β}
    {c : Cursor} (hx : c.FollowsAt x x')
    (hf : ∀ a c', c.Leads c' → c'.FollowsAt (f a) (f' a)) : c.FollowsAt (x >>= f) (x' >>= f') := by
  unfold FollowsAt at *
  rw [bind_run, Parser.bind_run]
  generalize x c = r, x' c.input = r' at hx
  cases hx with
  | ok hlead => exact (hf _ _ hlead).after hlead
  | panic hlead => exact .panic hlead
  | exhausted => exact .exhausted

/-- Two productions that follow, one after the other, follow together, as the first one ends inside
the list. -/
theorem bind {x : Production α} {x' : Parser α} {f : α → Production β} {f' : α → Parser β}
    (hx : Follows x x') (hf : ∀ a, Follows (f a) (f' a)) : Follows (x >>= f) (x' >>= f') :=
  fun c hc => bind_at (hx c hc) fun a c' hlead => hf a c' hlead.inside

theorem map {x : Production α} {x' : Parser α} (f : α → β) (hx : Follows x x') :
    Follows (f <$> x) (f <$> x') := by
  rw [← bind_pure_comp, ← bind_pure_comp]
  exact hx.bind fun a => pure (f a)

theorem current : Follows current Parser.current := by
  intro c hc
  rw [FollowsAt, current_run hc]
  exact .ok (.refl hc)

theorem advance : Follows advance Parser.advance := by
  intro c hc
  rw [FollowsAt, advance_run hc, Parser.advance_run, ← input_next]
  exact .ok (.next hc)

theorem at? (kind : Kind) : Follows (at? kind) (Parser.at? kind) :=
  current.bind fun _ => pure _

theorem accept (wanted : Kind → Bool) : Follows (accept wanted) (Parser.accept wanted) := by
  refine current.bind fun token => ?_
  split
  · exact advance.map some
  · exact pure none

theorem skip? (kind : Kind) : Follows (skip? kind) (Parser.skip? kind) :=
  (accept _).bind fun _ => pure _

theorem report (fault : SyntaxFault) (token : Token) :
    Follows (report fault token) (Parser.report fault token) :=
  fun _ hc => .ok ⟨⟨hc.position_lt, hc.last⟩, rfl, Nat.le_refl _⟩

theorem panic : Follows (throw .panic : Production α) (throw .panic) :=
  fun _ hc => .panic (.refl hc)

theorem fail (fault : SyntaxFault) : Follows (fail fault : Production α) (Parser.fail fault) :=
  current.bind fun token => (report fault token).bind fun _ => panic

theorem reportExcess (count : Nat) (fault : SyntaxFault) :
    Follows (reportExcess count fault) (Parser.reportExcess count fault) := by
  unfold Cursor.reportExcess Parser.reportExcess
  split
  · exact current.bind fun token => report fault token
  · exact pure ()

theorem expect (kind : Kind) (fault : SyntaxFault) :
    Follows (expect kind fault) (Parser.expect kind fault) := by
  refine (at? kind).bind fun isThere => ?_
  split
  · exact advance
  · exact fail fault

theorem expectMark (mark : Kind) (place : MarkPlace) :
    Follows (expectMark mark place) (Parser.expectMark mark place) := expect mark _

theorem expectName (role : NameRole) : Follows (expectName role) (Parser.expectName role) :=
  expect .identifier _

theorem fresh : Follows fresh Parser.fresh :=
  fun _ hc => .ok ⟨⟨hc.position_lt, hc.last⟩, rfl, Nat.le_refl _⟩

theorem atBodyEnd : Follows atBodyEnd Parser.atBodyEnd := by
  intro c hc
  have hrun : Cursor.atBodyEnd c =
      .ok (c.input.head.kind == .rightBrace || c.input.head.kind == .eof) c := by
    unfold Cursor.atBodyEnd Cursor.at?
    rw [bind_run, bind_run, current_run hc]
    by_cases hhead : c.input.head.kind = .rightBrace
    · simp [pure_run, hhead]
    · simp [pure_run, bind_run, current_run hc, hhead]
  rw [FollowsAt, hrun, Parser.atBodyEnd_run]
  exact .ok (.refl hc)

end Follows

/-! ## Recovery -/

/-- At the end of the input there is nothing to drop. -/
theorem dropStatement_eof {c : Cursor} (hc : c.Inside) (heof : c.input.head.kind = .eof) (n : Nat) :
    dropStatement (n + 1) c = .ok () c := by
  unfold dropStatement
  rw [bind_run, at?_run hc]
  simp [heof, pure_run]

/-- One turn of the loop that drops tokens. -/
theorem dropStatement_succ {c : Cursor} {token : Token} (hc : c.Inside)
    (hprevious : previous c = .ok token c) (n : Nat) :
    dropStatement (n + 1) c =
      if c.input.head.kind = .eof ∨ token.kind = .semicolon ∨
          Parser.startsStatement c.input.head.kind = true then
        .ok () c
      else
        dropStatement n c.next := by
  by_cases heof : c.input.head.kind = .eof
  · rw [dropStatement_eof hc heof, if_pos (.inl heof)]
  · rw [dropStatement, bind_run, at?_run hc]
    by_cases hsemicolon : token.kind = .semicolon
    · simp [heof, hsemicolon, bind_run, hprevious, pure_run]
    · by_cases hstarts : Parser.startsStatement c.input.head.kind = true
      · simp [heof, hsemicolon, hstarts, bind_run, hprevious, current_run hc, pure_run]
      · simp [heof, hsemicolon, hstarts, bind_run, hprevious, current_run hc, advance_run hc]

/-- Dropping tokens stops where it does with the tokens ahead. -/
theorem dropStatement_run {n : Nat} {c : Cursor} {token : Token} (hc : c.Inside)
    (hn : c.tokens.length - c.position ≤ n) (hprevious : previous c = .ok token c) :
    ∃ c', dropStatement n c = .ok () c' ∧ c.Leads c' ∧
      c'.input = { c.input with rest := Parser.dropStatement token c.input.rest } := by
  -- The token that has just been passed moves along with the cursor: a turn looks it up again.
  induction n generalizing c token with
  | zero =>
      have hlt := hc.position_lt
      omega
  | succ n ih =>
      rw [dropStatement_succ hc hprevious, hc.rest_eq, Parser.dropStatement]
      simp only [Bool.or_eq_true, beq_iff_eq, or_assoc]
      split
      · exact ⟨c, rfl, .refl hc, by rw [← hc.rest_eq]⟩
      · rename_i hstop
        have heof : c.input.head.kind ≠ .eof := fun h => hstop (.inl h)
        have hless : c.next.tokens.length - c.next.position ≤ n := by
          rw [next_of_ne heof]
          dsimp only
          omega
        rcases ih hc.next hless (previous_next hc heof) with ⟨c', hrun, hlead, hinput⟩
        refine ⟨c', hrun, (Leads.next hc).trans hlead, ?_⟩
        rw [hinput, next_of_ne heof]
        rfl

/-- By position or by list, recovering drops the same tokens. -/
theorem synchronize_run {c : Cursor} (hc : c.Inside) :
    ∃ c', synchronize c = .ok () c' ∧ c.Leads c' ∧
      c'.input = { c.input with rest := Parser.synchronize c.input.rest } := by
  have hrun : synchronize c = dropStatement c.next.tokens.length c.next := by
    unfold synchronize
    rw [bind_run, advance_run hc]
    rfl
  rw [hrun, hc.rest_eq, Parser.synchronize]
  by_cases heof : c.input.head.kind = .eof
  · -- Nothing is passed, and nothing in front of the cursor is looked up.
    rcases Nat.exists_eq_add_one_of_ne_zero (Nat.ne_zero_of_lt hc.position_lt) with ⟨n, hn⟩
    have hnext : c.next = c := by simp [Cursor.next, heof]
    rw [hnext, hn, dropStatement_eof hc heof]
    refine ⟨c, rfl, .refl hc, ?_⟩
    simp only [heof, beq_self_eq_true, if_true]
    rw [← hc.rest_eq]
  · rcases dropStatement_run hc.next (Nat.sub_le _ _) (previous_next hc heof) with
      ⟨c', hdrop, hlead, hinput⟩
    refine ⟨c', hdrop, (Leads.next hc).trans hlead, ?_⟩
    rw [hinput, next_of_ne heof]
    simp only [beq_iff_eq, heof, if_false]
    rfl

/-- After a panic both parsers go on from the same token. -/
theorem Follows.recovering {q : Production α} {p : Parser α} (h : Follows q p) :
    Follows (recovering q) (Parser.recovering p) := by
  intro c hc
  have hrun := h c hc
  unfold FollowsAt Cursor.recovering Parser.recovering at *
  generalize q c = r, p c.input = r' at hrun
  cases hrun with
  | ok hlead => exact .ok hlead
  | panic hlead =>
      rcases synchronize_run hlead.inside with ⟨c', hsync, hafter, hinput⟩
      dsimp only
      rw [bind_run, hsync, ← hinput]
      exact .ok (hlead.trans hafter)
  | exhausted => exact .exhausted

end Cursor

end LoxLang
