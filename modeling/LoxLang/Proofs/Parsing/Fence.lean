import LoxLang.Proofs.Parsing.ExpressionComplete

/-!
# Tokens put behind others

An expression is read in the same way whatever was found before it and whatever stands behind it, as
long as a semicolon stands in between.

* A `Fence` holds the tokens that are put behind, and says which tokens ahead and which faults a
  production may meet in front of them.
* `Fenced F faults p p'`: in front of the fence `p'` does, after `faults`, what `p` does without the
  fence and without `faults`; only the bound on the depth of productions may be used up in `p`
  alone. So the bound of `p'` may be a larger one.
* The proofs follow the productions: one lemma each, by recursion on the bound of their depth.
-/

namespace LoxLang

namespace Parser

variable {α β : Type}

/-! ## Fences -/

/-- Tokens put behind what a production may meet. -/
structure Fence where
  /-- The tokens put behind. -/
  behind : List Token
  /-- The tokens ahead that a production may meet. -/
  Ahead : List Token → Prop
  /-- The faults that it may find. -/
  Fault : StaticError → Prop
  headD_append : ∀ {ts : List Token} {t : Token}, Ahead ts → (ts ++ behind).headD t = ts.headD t
  fault : ∀ {ts : List Token}, Ahead ts → ∀ fault,
    Fault (.atToken (.parse fault) (ts.headD (.endOfInput 0 0)))
  tail : ∀ {ts : List Token}, Ahead ts → ahead ts ≠ .semicolon → Ahead ts.tail

namespace Fence

variable {F : Fence}

/-- What a production meets with the fence and after other faults. -/
def put (F : Fence) (faults : List StaticError) (s : Input) : Input :=
  ⟨s.rest ++ F.behind, s.nextId, faults ++ s.errors⟩

/-- An input that a production may meet. -/
structure Holds (F : Fence) (s : Input) : Prop where
  ahead : F.Ahead s.rest
  fault : ∀ e ∈ s.errors, F.Fault e

/-- A kind of token that a production may pass. -/
def Passes (F : Fence) (kind : Kind) : Prop :=
  ∀ ts : List Token, F.Ahead ts → Parser.ahead ts = kind → F.Ahead ts.tail

/-- Only the semicolon can bring a production to the fence. -/
theorem passes_of_ne {kind : Kind} (h : kind ≠ .semicolon) : F.Passes kind :=
  fun _ hts hkind => F.tail hts (hkind ▸ h)

/-- What a production ends in without the fence, and with it. -/
def Agree (F : Fence) (faults : List StaticError) :
    EStateM.Result Stop Input α → EStateM.Result Stop Input α → Prop
  | .ok a s, result => F.Holds s ∧ result = .ok a (F.put faults s)
  | .error .panic s, result => F.Holds s ∧ result = .error .panic (F.put faults s)
  | .error .exhausted _, _ => True

/-- The token ahead is the same with the fence as without. -/
theorem Holds.head {s : Input} (hs : F.Holds s) (faults : List StaticError) :
    (F.put faults s).head = s.head := F.headD_append hs.ahead

/-- To take a token and to put the fence behind go in either order. -/
theorem Holds.put_next {s : Input} (hs : F.Holds s) (faults : List StaticError) :
    (F.put faults s).next = F.put faults s.next := by
  have hput := hs.head faults
  unfold Input.next
  rw [hput]
  split
  · rfl
  · rename_i heof
    have hrest := s.rest_eq_cons heof
    simp [put, hrest]

/-- Passing a token of such a kind does not lead over the fence. -/
theorem Holds.next {s : Input} (hs : F.Holds s) (hhead : F.Passes s.head.kind) :
    F.Holds s.next := by
  unfold Input.next
  split
  · exact hs
  · exact ⟨hhead _ hs.ahead rfl, hs.fault⟩

/-- A fault at the token ahead is one that the fence allows. -/
theorem Holds.report {s : Input} (hs : F.Holds s) {e : StaticError} (he : F.Fault e) :
    F.Holds { s with errors := s.errors ++ [e] } := by
  refine ⟨hs.ahead, fun e' he' => ?_⟩
  rcases List.mem_append.1 he' with h | h
  · exact hs.fault e' h
  · exact List.mem_singleton.1 h ▸ he

theorem put_report (faults : List StaticError) (s : Input) (e : StaticError) :
    ({ F.put faults s with errors := (F.put faults s).errors ++ [e] } : Input) =
      F.put faults { s with errors := s.errors ++ [e] } := by
  simp [put]

end Fence

/-- From one input, in front of a fence and after `faults`, `p'` does what `p` does without them. -/
def FencedAt (F : Fence) (faults : List StaticError) (s : Input) (p p' : Parser α) : Prop :=
  F.Agree faults (p s) (p' (F.put faults s))

/-- In front of a fence and after `faults`, `p'` does what `p` does without them. -/
def Fenced (F : Fence) (faults : List StaticError) (p p' : Parser α) : Prop :=
  ∀ s : Input, F.Holds s → FencedAt F faults s p p'

namespace Fenced

variable {F : Fence} {faults : List StaticError}

theorem pure (a : α) : Fenced F faults (Pure.pure a) (Pure.pure a) := fun _ hs => ⟨hs, rfl⟩

theorem exhausted {p' : Parser α} : Fenced F faults (throw .exhausted) p' := fun _ _ => trivial

/-- Sequencing, from one input. -/
theorem bind_at {x x' : Parser α} {f f' : α → Parser β} {s : Input}
    (hx : FencedAt F faults s x x') (hf : ∀ a, Fenced F faults (f a) (f' a)) :
    FencedAt F faults s (x >>= f) (x' >>= f') := by
  unfold FencedAt at *
  rw [bind_run, bind_run]
  cases hrun : x s with
  | ok a s' =>
      rw [hrun] at hx
      rw [hx.2]
      exact hf a s' hx.1
  | error reason s' =>
      rw [hrun] at hx
      -- Only a panic has a state to compare: what runs out of fuel promises nothing.
      cases reason with
      | panic =>
          rw [hx.2]
          exact ⟨hx.1, rfl⟩
      | exhausted => trivial

/-- Two productions inside the fence stay inside it together. -/
theorem bind {x x' : Parser α} {f f' : α → Parser β} (hx : Fenced F faults x x')
    (hf : ∀ a, Fenced F faults (f a) (f' a)) : Fenced F faults (x >>= f) (x' >>= f') :=
  fun s hs => bind_at (hx s hs) hf

theorem map {x x' : Parser α} (f : α → β) (hx : Fenced F faults x x') :
    Fenced F faults (f <$> x) (f <$> x') := by
  rw [← bind_pure_comp, ← bind_pure_comp]
  exact hx.bind fun a => pure (f a)

/-- The token ahead is the same. -/
theorem current_bind {f f' : Token → Parser α} {s : Input} (hs : F.Holds s)
    (hf : FencedAt F faults s (f s.head) (f' s.head)) :
    FencedAt F faults s (current >>= f) (current >>= f') := by
  unfold FencedAt at *
  rw [bind_run, bind_run, current_run, current_run, hs.head]
  exact hf

theorem at? (kind : Kind) : Fenced F faults (at? kind) (at? kind) := by
  intro s hs
  rw [FencedAt, at?_run, at?_run, hs.head]
  exact ⟨hs, rfl⟩

theorem atBodyEnd : Fenced F faults atBodyEnd atBodyEnd := by
  intro s hs
  rw [FencedAt, atBodyEnd_run, atBodyEnd_run, hs.head]
  exact ⟨hs, rfl⟩

/-- A token that is not the semicolon may be taken. -/
theorem advance_at {s : Input} (hs : F.Holds s) (hhead : F.Passes s.head.kind) :
    FencedAt F faults s advance advance := by
  rw [FencedAt, advance_run, advance_run, hs.head, hs.put_next]
  exact ⟨hs.next hhead, rfl⟩

/-- A token that has been accepted was ahead, so a fault may be found at it. -/
theorem accept_bind {wanted : Kind → Bool} {f f' : Option Token → Parser α}
    (hwanted : ∀ kind, wanted kind = true → F.Passes kind)
    (hnone : Fenced F faults (f none) (f' none))
    (hsome : ∀ t, (∀ fault, F.Fault (.atToken (.parse fault) t)) →
      Fenced F faults (f (some t)) (f' (some t))) :
    Fenced F faults (accept wanted >>= f) (accept wanted >>= f') := by
  intro s hs
  rw [FencedAt, bind_run, bind_run, accept_run, accept_run, hs.head]
  by_cases hhead : wanted s.head.kind = true
  · rw [if_pos hhead, if_pos hhead, hs.put_next]
    exact hsome s.head (F.fault hs.ahead) s.next (hs.next (hwanted _ hhead))
  · rw [if_neg hhead, if_neg hhead]
    exact hnone s hs

theorem skip? {kind : Kind} (hkind : F.Passes kind) :
    Fenced F faults (skip? kind) (skip? kind) :=
  accept_bind (fun _ h => LawfulBEq.eq_of_beq h ▸ hkind) (pure _) fun _ _ => pure _

theorem report {fault : SyntaxFault} {token : Token} (h : F.Fault (.atToken (.parse fault) token)) :
    Fenced F faults (report fault token) (report fault token) := by
  intro s hs
  rw [FencedAt, report_run, report_run, Fence.put_report]
  exact ⟨hs.report h, rfl⟩

theorem fail (fault : SyntaxFault) :
    Fenced F faults (fail fault : Parser α) (Parser.fail fault) := by
  intro s hs
  rw [FencedAt, fail_run, fail_run, Fence.put_report, hs.head]
  exact ⟨hs.report (F.fault hs.ahead fault), rfl⟩

theorem reportExcess (count : Nat) (fault : SyntaxFault) :
    Fenced F faults (reportExcess count fault) (reportExcess count fault) := by
  intro s hs
  rw [FencedAt, reportExcess_run, reportExcess_run, Fence.put_report, hs.head]
  split
  · exact ⟨hs.report (F.fault hs.ahead fault), rfl⟩
  · exact ⟨hs, rfl⟩

theorem expect {kind : Kind} (hkind : F.Passes kind) (fault : SyntaxFault) :
    Fenced F faults (expect kind fault) (expect kind fault) := by
  intro s hs
  rw [FencedAt, expect_run, expect_run, Fence.put_report, hs.head]
  by_cases hhead : s.head.kind = kind
  · rw [if_pos hhead, if_pos hhead, hs.put_next]
    exact ⟨hs.next (hhead ▸ hkind), rfl⟩
  · rw [if_neg hhead, if_neg hhead]
    exact ⟨hs.report (F.fault hs.ahead fault), rfl⟩

theorem expectMark {mark : Kind} (hmark : F.Passes mark) (place : MarkPlace) :
    Fenced F faults (expectMark mark place) (expectMark mark place) := expect hmark _

theorem expectName (role : NameRole) : Fenced F faults (expectName role) (expectName role) :=
  expect (Fence.passes_of_ne (by decide)) _

theorem fresh : Fenced F faults fresh fresh := fun _ hs => ⟨⟨hs.ahead, hs.fault⟩, rfl⟩

end Fenced

/-! ## Expressions -/

/-- A semicolon is no operator. -/
theorem ne_semicolon_of_accepts {level : Level} (h : level ∈ Level.all) {kind : Kind}
    (haccepts : level.accepts kind = true) : kind ≠ .semicolon := by
  rintro rfl
  rw [← Reading.Precedence.map_level_all] at h
  rcases List.mem_map.1 h with ⟨p, hp, rfl⟩
  exact stops_semicolon.notOperator p hp ((p.accepts_level _).1 haccepts)

variable {F : Fence} {faults : List StaticError}

-- The recursion is on both bounds at once. No expression passes a semicolon, so whatever token is
-- passed in one of them, the fence is not reached.
mutual

/-- By induction on the bound: no expression takes a semicolon, so none gets to the fence. -/
theorem fenced_expression : ∀ {n m : Nat}, n ≤ m →
    Fenced F faults (expression n) (expression m)
  | 0, _, _ => .exhausted
  | n + 1, m + 1, hle => by
      have hle := Nat.le_of_succ_le_succ hle
      unfold expression
      refine (fenced_operation hle fun _ h => h).bind fun left => ?_
      refine .accept_bind ?_ (.pure left) fun equals hequals => ?_
      · exact fun kind h => Fence.passes_of_ne (by rintro rfl; cases h)
      · refine (fenced_expression hle).bind fun value => ?_
        cases left with
        | «variable» ref => exact Fenced.fresh.bind fun _ => .pure _
        | get _ object name => exact Fenced.fresh.bind fun _ => .pure _
        -- The fault is found at the `=`, which was ahead before the value was read.
        | _ => exact (Fenced.report (hequals _)).bind fun _ => .pure _

theorem fenced_operation : ∀ {n m : Nat} {levels : List Level}, n ≤ m →
    (∀ level ∈ levels, level ∈ Level.all) →
    Fenced F faults (operation n levels) (operation m levels)
  | 0, _, _, _, _ => .exhausted
  | n + 1, m + 1, [], hle, _ => fenced_unary (Nat.le_of_succ_le_succ hle)
  | n + 1, m + 1, level :: tighter, hle, hlevels => by
      have hle := Nat.le_of_succ_le_succ hle
      have htighter := (List.forall_mem_cons.1 hlevels).2
      unfold operation
      exact (fenced_operation hle htighter).bind fun left => fenced_chain hle hlevels left

theorem fenced_chain : ∀ {n m : Nat} {level : Level} {tighter : List Level}, n ≤ m →
    (∀ level' ∈ level :: tighter, level' ∈ Level.all) → ∀ left : Expr,
    Fenced F faults (chain n level tighter left) (chain m level tighter left)
  | 0, _, _, _, _, _, _ => .exhausted
  | n + 1, m + 1, level, tighter, hle, hlevels, left => by
      have hle := Nat.le_of_succ_le_succ hle
      rcases List.forall_mem_cons.1 hlevels with ⟨hlevel, htighter⟩
      unfold chain
      refine .accept_bind ?_ (.pure left) fun operator _ => ?_
      · exact fun kind h => Fence.passes_of_ne (ne_semicolon_of_accepts hlevel h)
      · refine (fenced_operation hle htighter).bind fun right => Fenced.fresh.bind fun id => ?_
        exact fenced_chain hle hlevels _

theorem fenced_unary : ∀ {n m : Nat}, n ≤ m → Fenced F faults (unary n) (unary m)
  | 0, _, _ => .exhausted
  | n + 1, m + 1, hle => by
      have hle := Nat.le_of_succ_le_succ hle
      unfold unary
      refine .accept_bind ?_ ?_ fun operator _ => ?_
      · exact fun kind h => Fence.passes_of_ne (by rintro rfl; cases h)
      · exact (fenced_primary hle).bind fun callee => fenced_calls hle callee
      · exact (fenced_unary hle).bind fun right => Fenced.fresh.bind fun id => .pure _

theorem fenced_calls : ∀ {n m : Nat}, n ≤ m → ∀ callee : Expr,
    Fenced F faults (calls n callee) (calls m callee)
  | 0, _, _, _ => .exhausted
  | n + 1, m + 1, hle, callee => by
      have hle := Nat.le_of_succ_le_succ hle
      unfold calls
      refine (Fenced.skip? (Fence.passes_of_ne (by decide))).bind fun isCall => ?_
      split
      · refine (fenced_arguments hle).bind fun arguments => ?_
        refine (Fenced.expectMark (Fence.passes_of_ne (by decide)) _).bind fun paren => ?_
        exact Fenced.fresh.bind fun id => fenced_calls hle _
      · refine (Fenced.skip? (Fence.passes_of_ne (by decide))).bind fun isGet => ?_
        split
        · refine (Fenced.expectName _).bind fun name => ?_
          exact Fenced.fresh.bind fun id => fenced_calls hle _
        · exact .pure callee

theorem fenced_arguments : ∀ {n m : Nat}, n ≤ m →
    Fenced F faults (arguments n) (arguments m)
  | 0, _, _ => .exhausted
  | n + 1, m + 1, hle => by
      have hle := Nat.le_of_succ_le_succ hle
      unfold arguments
      refine (Fenced.at? _).bind fun isEmpty => ?_
      split
      · exact .pure []
      · exact (fenced_expression hle).bind fun first => fenced_moreArguments hle [first]

theorem fenced_moreArguments : ∀ {n m : Nat}, n ≤ m → ∀ before : List Expr,
    Fenced F faults (moreArguments n before) (moreArguments m before)
  | 0, _, _, _ => .exhausted
  | n + 1, m + 1, hle, before => by
      have hle := Nat.le_of_succ_le_succ hle
      unfold moreArguments
      refine (Fenced.skip? (Fence.passes_of_ne (by decide))).bind fun isMore => ?_
      split
      · refine (Fenced.reportExcess _ _).bind fun _ => ?_
        exact (fenced_expression hle).bind fun argument => fenced_moreArguments hle _
      · exact .pure before

theorem fenced_primary : ∀ {n m : Nat}, n ≤ m → Fenced F faults (primary n) (primary m)
  | 0, _, _ => .exhausted
  | n + 1, m + 1, hle => by
      have hle := Nat.le_of_succ_le_succ hle
      unfold primary
      intro s hs
      -- The token ahead decides; it is passed unless nothing begins with it.
      have hpass : ∀ {kind : Kind} {f f' : Token → Parser Expr}, s.head.kind = kind →
          kind ≠ .semicolon → (∀ t, Fenced F faults (f t) (f' t)) →
          FencedAt F faults s (advance >>= f) (advance >>= f') := fun hkind hne =>
        Fenced.bind_at (Fenced.advance_at hs (hkind ▸ Fence.passes_of_ne hne))
      have hliteral : ∀ {kind : Kind} (value : Literal), s.head.kind = kind →
          kind ≠ .semicolon →
          FencedAt F faults s (do let _ ← advance; return Expr.literal (← Parser.fresh) value)
            (do let _ ← advance; return Expr.literal (← Parser.fresh) value) :=
        fun _ hkind hne => hpass hkind hne fun _ => Fenced.fresh.bind fun _ => .pure _
      refine Fenced.current_bind hs ?_
      split
      · exact hliteral _ ‹_› (by decide)
      · exact hliteral _ ‹_› (by decide)
      · exact hliteral _ ‹_› (by decide)
      · exact hliteral _ ‹_› (by decide)
      · exact hliteral _ ‹_› (by decide)
      · refine hpass ‹_› (by decide) fun _ => ?_
        refine (Fenced.expectMark (Fence.passes_of_ne (by decide)) _).bind fun _ => ?_
        exact (Fenced.expectName _).bind fun _ => Fenced.fresh.bind fun _ => .pure _
      · exact hpass ‹_› (by decide) fun _ => Fenced.fresh.bind fun _ => .pure _
      · exact hpass ‹_› (by decide) fun _ => Fenced.fresh.bind fun _ => .pure _
      · refine hpass ‹_› (by decide) fun _ => (fenced_expression hle).bind fun inner => ?_
        refine (Fenced.expectMark (Fence.passes_of_ne (by decide)) _).bind fun _ => ?_
        exact Fenced.fresh.bind fun _ => .pure _
      · exact Fenced.fail _ s hs

end

/-! ## Clauses in front of a semicolon -/

theorem fenced_optionalExpression {n m : Nat} (hle : n ≤ m) (mark : Kind) :
    Fenced F faults (optionalExpression n mark) (optionalExpression m mark) := by
  refine (Fenced.at? mark).bind fun isMissing => ?_
  split
  · exact .pure none
  · exact (fenced_expression hle).map some

theorem fenced_initializer {n m : Nat} (hle : n ≤ m) :
    Fenced F faults (initializer n) (initializer m) := by
  refine (Fenced.skip? (Fence.passes_of_ne (by decide))).bind fun isGiven => ?_
  split
  · exact (fenced_expression hle).map some
  · exact .pure none

end Parser

end LoxLang
