import LoxLang.Proofs.Scope.Continued
import LoxLang.Proofs.Session.Alike
import LoxLang.Proofs.Token.Lines

/-!
# Sources in one piece or in two

A source may be given to a session line by line: what the lines do one after the other, they do
together.

* `Session.Owns`: every token at which a function of the session can fail is one of certain tokens.
* `Session.Accepts.continued`: a source that has been run to its end, continued on a new line by one
  that passes all checks behind it, passes all checks itself.
* `Session.Echoes`: a run prints what another one prints, behind something else, and leaves the same
  behind.
* `Session.run_split`: the two sources print the same in one piece, and leave the same behind. An
  error is found at the same word, which is further down if it belongs to the second source.

Two tokens may be the same although they stand in different sources. So the second source is also
run far below everything that came before it. There the line of an error tells which source it is
in, and every other place for the second source is compared with that one.
-/

namespace LoxLang

/-! ## Tokens that are moved -/

/-- A token that has been moved down by `k` lines, moved down by `n` lines instead. -/
def Token.shift (k n : Nat) (t : Token) : Token := { t with line := t.line - k + n }

/-- A token that is moved down and then into place is where it would have been. -/
theorem Token.shift_lower (k n : Nat) (t : Token) : (t.lower k).shift k n = t.lower n := by
  simp [Token.shift, Token.lower]

theorem relabels_lower (k : Nat) : Relabels (Token.lower k) :=
  ⟨fun _ => rfl, fun _ => rfl, fun _ => rfl⟩

theorem relabels_shift (k n : Nat) : Relabels (Token.shift k n) :=
  ⟨fun _ => rfl, fun _ => rfl, fun _ => rfl⟩

/-- A token that stays as it is, and is one of the given ones. -/
def Token.Stays (earlier : List Token) (t t' : Token) : Prop := t ∈ earlier ∧ t' = t

/-- A token that stays as it is, or one that is moved with its source, which is `k` lines down in
one place and `n` lines down in the other. -/
def Token.Moves (earlier own : List Token) (k n : Nat) (t t' : Token) : Prop :=
  Token.Stays earlier t t' ∨ ∃ u ∈ own, t = u.lower k ∧ t' = u.lower n

/-- Tokens that stay are the same ones. -/
theorem Token.Stays.sameWord {earlier : List Token} {t t' : Token} (h : Token.Stays earlier t t') :
    t.SameWord t' := by
  rcases h with ⟨-, rfl⟩
  exact ⟨rfl, rfl⟩

/-- Tokens that move change their line only. -/
theorem Token.Moves.sameWord {earlier own : List Token} {k n : Nat} {t t' : Token}
    (h : Token.Moves earlier own k n t t') : t.SameWord t' := by
  rcases h with h | ⟨u, -, rfl, rfl⟩
  · exact h.sameWord
  · exact ⟨rfl, rfl⟩

/-- Some line is below all of the given tokens. -/
theorem Token.exists_line_lt (ts : List Token) : ∃ k, ∀ t ∈ ts, t.line < k := by
  induction ts with
  | nil => exact ⟨0, List.forall_mem_nil _⟩
  | cons t ts ih =>
      rcases ih with ⟨k, hk⟩
      refine ⟨max k (t.line + 1), List.forall_mem_cons.2 ⟨by omega, ?_⟩⟩
      intro u hu
      have hlt := hk u hu
      omega

def RuntimeError.lower (n : Nat) (e : RuntimeError) : RuntimeError :=
  { e with token := e.token.lower n }

namespace Session

/-! ## The tokens of a session -/

def tokensOf (sources : List String) : List Token :=
  sources.flatMap fun source => (Token.scan source).1

/-- The functions of a session fail at certain tokens only. -/
def Owns (s : Session) (earlier : List Token) : Prop :=
  s.machine.Alike (Token.Stays earlier) Eq [] s.machine

/-- The tokens that are read are among those that were scanned. -/
theorem Accepts.subset {s : Session} {source : String} {ts : List Token} {ss : List Stmt}
    {j : NodeId} (h : s.Accepts source ts ss j) : ∀ t ∈ ts, t ∈ (Token.scan source).1 := by
  rcases h.scan_eq with ⟨eof, hscan, -⟩
  intro t ht
  rw [hscan]
  exact List.mem_append_left _ ht

/-- A program whose tokens stay as they are is alike itself. -/
theorem Accepts.alike_self {s : Session} {source : String} {ts : List Token} {ss : List Stmt}
    {j : NodeId} (h : s.Accepts source ts ss j) {earlier : List Token}
    (hsource : ∀ t ∈ (Token.scan source).1, t ∈ earlier) :
    Stmt.AllAlike (Token.Stays earlier) Eq ss ss := by
  rcases h.relabel (T := Token.Stays earlier) relabels_id
    fun t ht => ⟨hsource t (h.subset t ht), rfl⟩ with ⟨ss', hread, halike⟩
  rw [List.map_id] at hread
  rwa [Program.reading_unique h.reading hread] at halike

/-- Running a source adds only functions with tokens of that source. -/
theorem run_owns {s : Session} {earlier : List Token} (h : s.Owns earlier) (host : Host)
    {source : String} (hsource : ∀ t ∈ (Token.scan source).1, t ∈ earlier) :
    (s.run host source).2.Owns earlier := by
  rcases s.run_cases host source with
    ⟨errors, stages, j, _, _, hrun⟩ | ⟨ts, ss, j, stages, haccepts, hrun⟩
  · rw [hrun]
    exact h
  · rw [hrun]
    have hlinks : ∀ id id' : NodeId, id = id' → (s.links ∪ (resolve ss s.globals.names).links)[id']? =
        (s.links ∪ (resolve ss s.globals.names).links)[id]? := fun _ _ hid => by rw [hid]
    exact (execute_alike (fun _ _ => Token.Stays.sameWord) { s with nextId := j }
      { s with nextId := j } h hlinks (haccepts.alike_self hsource) host).2.2

theorem start_owns (earlier : List Token) : start.Owns earlier :=
  ⟨rfl, rfl, fun _ => ⟨.mk rfl rfl .nil, rfl, rfl⟩, rfl, fun _ => ⟨rfl, rfl, fun _ => .none⟩, rfl,
    rfl, rfl⟩

/-- By induction on the history: all tokens that are kept come from the lines that were run. -/
theorem after_owns (history : List (Host × String)) {earlier : List Token}
    (h : ∀ line ∈ history, ∀ t ∈ (Token.scan line.2).1, t ∈ earlier) :
    (after history).Owns earlier := by
  have hfold : ∀ s : Session, s.Owns earlier →
      Owns (history.foldl (fun s line => (s.run line.1 line.2).2) s) earlier := by
    induction history with
    | nil => exact fun _ hs => hs
    | cons line history ih =>
        intro s hs
        rcases List.forall_mem_cons.1 h with ⟨hline, hrest⟩
        exact ih hrest _ (run_owns hs line.1 hline)
  exact hfold start (start_owns earlier)

/-! ## Checking -/

/-- The globals that a later source knows: those from before, and what has been declared since. -/
def Declares (s s' : Session) (ss : List Stmt) : Prop :=
  ∀ x, x ∈ s'.globals.names ↔ x ∈ s.globals.names ∨ x ∈ ss.filterMap Stmt.declared?

/-- The numbers of a program that matter are those that it was given. -/
theorem Accepts.behind {T : Token → Token → Prop} {s : Session} {source : String} {ts : List Token}
    {ss ss' : List Stmt} {j : NodeId} (h : s.Accepts source ts ss j)
    (halike : Stmt.AllAlike T Eq ss ss') : Stmt.AllAlike T (Behind s.nextId) ss ss' := by
  rcases resolve_linked h.formed h.resolved with ⟨hlinked, -⟩
  exact halike.restrict (fun _ _ _ hhas hid => ⟨hid.symm, hhas.first_le⟩) hlinked

/-- The second source is checked as it is alone, only further down. -/
theorem Accepts.continued {s s' : Session} {a b : String} {ts us : List Token}
    {ss rest : List Stmt} {j l : NodeId} (ha : s.Accepts a ts ss j) (hb : s'.Accepts b us rest l)
    (hj : s'.nextId = j) (hdeclares : s.Declares s' ss) :
    ∃ rest', Stmt.AllFormed rest' j l ∧
      Reading.Declarations (us.map (Token.lower (lineBreaks a + 1))) j rest' l ∧
      s.Accepts (a ++ "\n" ++ b) (ts ++ us.map (Token.lower (lineBreaks a + 1))) (ss ++ rest') l := by
  subst hj
  let k := lineBreaks a + 1
  have hsame : ∀ t t' : Token, t' = t.lower k → t.SameWord t' := by
    rintro t _ rfl
    exact ⟨rfl, rfl⟩
  rcases hb.relabel (T := fun t t' => t' = t.lower k) (relabels_lower k) fun _ _ => rfl with
    ⟨rest', hread, halike⟩
  -- Moving a token to another line changes neither its kind nor its lexeme.
  have hspelled : ∀ t ∈ us.map (Token.lower k), t.Spelled ∧ t.kind ≠ .eof := by
    intro t ht
    rcases List.mem_map.1 ht with ⟨u, hu, rfl⟩
    rcases hb.spelled u hu with ⟨hspelled, hkind⟩
    exact ⟨⟨hspelled.name, hspelled.this⟩, hkind⟩
  have hformed : Stmt.AllFormed rest' s'.nextId l := hread.formed fun t ht => (hspelled t ht).1
  rcases ha.scan_eq with ⟨eof, hscan, -⟩
  rcases hb.scan_eq with ⟨eof', hscan', heof'⟩
  refine ⟨rest', hformed, hread, ⟨eof'.lower k, ?_, heof'⟩, ?_, ha.reading.append hread, ?_⟩
  · rw [Token.scan_break hscan (congrArg Prod.snd hscan'), hscan']
    simp [k]
  · exact List.forall_mem_append.2 ⟨ha.spelled, hspelled⟩
  · exact (resolve_append hsame ha.formed hformed ha.resolved hdeclares hb.resolved
      (hb.behind halike)).1

/-- A source with nothing but line breaks. -/
theorem accepts_blankLines (s : Session) (n : Nat) :
    s.Accepts (Token.blankLines n) [] [] s.nextId := by
  refine ⟨Token.scan_blankLines n, List.forall_mem_nil _, .nil, ?_⟩
  exact (resolve_errors_eq_nil rfl).2 ⟨rfl, List.forall_mem_nil _⟩

/-- A source that passes all checks does so further down as well. -/
theorem Accepts.moved {s : Session} {source : String} {ts : List Token} {ss : List Stmt}
    {j : NodeId} (h : s.Accepts source ts ss j) (n : Nat) :
    ∃ ss', s.Accepts (Token.blankLines n ++ source) (ts.map (Token.lower n)) ss' j := by
  cases n with
  | zero =>
      have hmap : ts.map (Token.lower 0) = ts := List.map_id ts
      rw [hmap, Token.blankLines_zero_append]
      exact ⟨ss, h⟩
  | succ n =>
      have hsource : Token.blankLines (n + 1) ++ source = Token.blankLines n ++ "\n" ++ source := by
        apply String.toList_injective
        simp [Token.blankLines, List.replicate_succ']
      rcases (s.accepts_blankLines n).continued h rfl (by simp [Declares]) with ⟨ss', -, -, haccepts⟩
      rw [Token.lineBreaks_blankLines, ← hsource] at haccepts
      exact ⟨ss', haccepts⟩

/-- A source in two places reads as two programs that are alike. -/
theorem Accepts.alike_shift {s : Session} {source : String} {ts : List Token} {k n : Nat}
    {ss ss' : List Stmt} {j : NodeId}
    (h : s.Accepts source (ts.map (Token.lower k)) ss j)
    (hread : Reading.Declarations (ts.map (Token.lower n)) s.nextId ss' j) (earlier : List Token) :
    Stmt.AllAlike (Token.Moves earlier ts k n) Eq ss ss' := by
  have hmoves : ∀ t ∈ ts.map (Token.lower k), Token.Moves earlier ts k n t (t.shift k n) := by
    intro t ht
    rcases List.mem_map.1 ht with ⟨u, hu, rfl⟩
    exact .inr ⟨u, hu, rfl, u.shift_lower k n⟩
  rcases h.relabel (relabels_shift k n) hmoves with ⟨ss'', hread', halike⟩
  have hmap : (ts.map (Token.lower k)).map (Token.shift k n) = ts.map (Token.lower n) := by
    rw [List.map_map]
    exact List.map_congr_left fun t _ => t.shift_lower k n
  rw [hmap] at hread'
  rwa [Program.reading_unique hread hread'] at halike

/-! ## Running -/

/-- A run does what another one does, behind something that has been printed before. -/
structure Echoes (T : Token → Token → Prop) (before : List String) (run run' : Report × Session) :
    Prop where
  output : run'.1.output = before ++ run.1.output
  accepted : run.1.staticErrors = [] ∧ run'.1.staticErrors = []
  ending : Ending.Alike T run.1.ending run'.1.ending
  nextId : run'.2.nextId = run.2.nextId
  links : ∀ id : NodeId, run'.2.links[id]? = run.2.links[id]?
  machine : run.2.machine.Alike T Eq before run'.2.machine

variable {T : Token → Token → Prop} {earlier : List Token}

/-- Two programs that are alike, run in the same session. -/
theorem run_echoes (hT : ∀ t t', T t t' → t.SameWord t')
    (hstays : ∀ t t', Token.Stays earlier t t' → T t t') {s : Session} (howns : s.Owns earlier)
    {a b : String} {ts us : List Token} {ss ss' : List Stmt} {j : NodeId} (ha : s.Accepts a ts ss j)
    (hb : s.Accepts b us ss' j) (halike : Stmt.AllAlike T Eq ss ss') (host : Host) :
    Echoes T [] (s.run host a) (s.run host b) := by
  have hpaired : Resolver.Paired Eq := by
    rintro a _ b _ rfl rfl
    exact Iff.rfl
  rcases resolve_alike hT hpaired halike ha.resolved with ⟨-, -, hsame⟩
  have hlinks : ∀ id id' : NodeId, id = id' →
      (s.links ∪ (resolve ss' s.globals.names).links)[id']? =
        (s.links ∪ (resolve ss s.globals.names).links)[id]? := by
    intro id id' hid
    rw [Std.TreeMap.getElem?_union, Std.TreeMap.getElem?_union, hsame id id' hid, hid]
  rcases execute_alike hT { s with nextId := j } { s with nextId := j }
    (howns.mono hstays fun _ _ h => h) hlinks halike host with ⟨houtput, hending, hmachine⟩
  rw [run_of_accepts ha, run_of_accepts hb]
  exact ⟨houtput, ⟨rfl, rfl⟩, hending, rfl, fun id => hlinks id id rfl, hmachine⟩

/-- The addresses of a program in two parts are those of its parts. -/
theorem links_joined (hT : ∀ t t', T t t' → t.SameWord t') {s s' : Session} {a b : String}
    {ts us : List Token} {ss rest rest' : List Stmt} {j l : NodeId} (ha : s.Accepts a ts ss j)
    (hb : s'.Accepts b us rest l) (hj : s'.nextId = j)
    (hlinks : s'.links = s.links ∪ (resolve ss s.globals.names).links) (hdeclares : s.Declares s' ss)
    (hformed : Stmt.AllFormed rest' j l) (halike : Stmt.AllAlike T Eq rest rest') (id : NodeId) :
    (s.links ∪ (resolve (ss ++ rest') s.globals.names).links)[id]? =
        (s'.links ∪ (resolve rest s'.globals.names).links)[id]? ∧
      (id < j → (s.links ∪ (resolve (ss ++ rest') s.globals.names).links)[id]? = s'.links[id]?) := by
  subst hj
  rcases resolve_append hT ha.formed hformed ha.resolved hdeclares hb.resolved (hb.behind halike) with
    ⟨-, hwhole⟩
  rcases resolve_linked ha.formed ha.resolved with ⟨-, hunlinked⟩
  rcases resolve_linked hb.formed hb.resolved with ⟨-, hunlinked'⟩
  rw [hlinks]
  simp only [Std.TreeMap.getElem?_union, hwhole]
  by_cases hid : id < s'.nextId
  · simp [hid, hunlinked' id (.inl hid)]
  · simp [hid, hunlinked id (.inr (Nat.le_of_not_lt hid))]

/-- A program that completes does the same where more numbers than its own have addresses. -/
theorem run_within {s : Session} (hs : s.Sound) (howns : s.Owns earlier) {a : String}
    {ts : List Token} {ss : List Stmt} {j : NodeId} {host : Host} (ha : s.Accepts a ts ss j)
    (hsource : ∀ t ∈ (Token.scan a).1, t ∈ earlier) (hend : (s.run host a).1.ending = .completed)
    {links : Links} (hlinks : ∀ id, id < j → links[id]? = (s.run host a).2.links[id]?) :
    ∃ m, { s.machine with output := #[] }.execute ⟨links, host⟩ ss = (.completed, m) ∧
      (s.run host a).2.machine.Alike (Token.Stays earlier) Eq [] m ∧
      m.output.toList = (s.run host a).1.output := by
  rcases resolve_linked ha.formed ha.resolved with ⟨hlinked, -⟩
  rw [run_of_accepts ha] at hend hlinks ⊢
  -- Only the numbers that are given out are ever looked up, by the program or by what was there
  -- before it.
  let Before (id id' : NodeId) : Prop := id = id' ∧ id < j
  have hself : Stmt.AllAlike (Token.Stays earlier) Before ss ss :=
    (ha.alike_self hsource).restrict (fun _ _ _ hhas hid => ⟨hid, hhas.lt_next⟩) hlinked
  have hmachine : s.machine.Alike (Token.Stays earlier) Before [] s.machine :=
    howns.restrict hs.machine fun _ _ _ hhas hid =>
      ⟨hid, Nat.lt_of_lt_of_le hhas.lt_next (Stmt.le_of_allFormed ha.formed)⟩
  have hagrees : Context.Agrees Before ⟨s.links ∪ (resolve ss s.globals.names).links, host⟩
      ⟨links, host⟩ := by
    refine ⟨?_, rfl⟩
    rintro id _ ⟨rfl, hid⟩
    exact hlinks id hid
  rcases Machine.execute_alike (fun _ _ => Token.Stays.sameWord) hagrees hmachine.silence_both hself
    with ⟨hending, halike⟩
  exact ⟨_, Prod.ext (hending.completed_iff.2 hend) rfl, halike.mono (fun _ _ h => h) fun _ _ h => h.1,
    halike.output⟩

/-- A program run in two parts, or as a whole. -/
theorem run_joined (hT : ∀ t t', T t t' → t.SameWord t')
    (hstays : ∀ t t', Token.Stays earlier t t' → T t t') {s : Session} (hs : s.Sound)
    (howns : s.Owns earlier) {a b c : String} {ts us vs : List Token} {ss rest rest' : List Stmt}
    {j l : NodeId} {host : Host} (ha : s.Accepts a ts ss j)
    (hsource : ∀ t ∈ (Token.scan a).1, t ∈ earlier)
    (hend : (s.run host a).1.ending = .completed)
    (hb : (s.run host a).2.Accepts b us rest l) (hj : (s.run host a).2.nextId = j)
    (hdeclares : s.Declares (s.run host a).2 ss) (hformed : Stmt.AllFormed rest' j l)
    (halike : Stmt.AllAlike T Eq rest rest') (hc : s.Accepts c vs (ss ++ rest') l) :
    Echoes T (s.run host a).1.output ((s.run host a).2.run host b) (s.run host c) := by
  have hlinks : (s.run host a).2.links = s.links ∪ (resolve ss s.globals.names).links := by
    rw [run_of_accepts ha]
    rfl
  have hjoined := links_joined hT ha hb hj hlinks hdeclares hformed halike
  rcases run_within hs howns ha hsource hend fun id hid => (hjoined id).2 hid with
    ⟨m, hexecute, hm, houtput⟩
  have hagrees : Context.Agrees Eq
      ⟨(s.run host a).2.links ∪ (resolve rest (s.run host a).2.globals.names).links, host⟩
      ⟨s.links ∪ (resolve (ss ++ rest') s.globals.names).links, host⟩ := by
    refine ⟨?_, rfl⟩
    rintro id _ rfl
    exact (hjoined id).1
  -- The first part completes, so the whole goes on with the second part where it has ended.
  have hwhole := Machine.execute_append (congrArg Prod.fst hexecute) rest'
  rw [hexecute] at hwhole
  rcases Machine.execute_alike hT hagrees (hm.mono hstays fun _ _ h => h).silence halike with
    ⟨hending, hmachine⟩
  rw [houtput] at hmachine
  rw [run_of_accepts hb, run_of_accepts hc]
  unfold execute
  dsimp only
  rw [hwhole]
  exact ⟨hmachine.output, ⟨rfl, rfl⟩, hending, rfl, fun id => (hjoined id).1, hmachine⟩

/-! ## One piece or two -/

/-- The source that an error belongs to can be told from a run that is far below all earlier
sources. -/
theorem error_cases {own : List Token} {k : Nat} (hk : ∀ t ∈ earlier, t.line < k)
    (ending : Ending) :
    (∀ n ending', Ending.Alike (Token.Moves earlier own k n) ending ending' →
      ending'.error? = none) ∨
    (∃ e : RuntimeError, ∀ n ending', Ending.Alike (Token.Moves earlier own k n) ending ending' →
      e.token ∈ own ∧ ending'.error? = some (e.lower n)) ∨
    ∃ e : RuntimeError, ∀ n ending', Ending.Alike (Token.Moves earlier own k n) ending ending' →
      e.token ∈ earlier ∧ ending'.error? = some e := by
  cases herror : ending.error? with
  | none =>
      refine .inl ?_
      intro n ending' halike
      have hrel := halike.error?
      rw [herror] at hrel
      generalize ending'.error? = found at hrel
      cases hrel
      rfl
  | some e =>
      rcases e with ⟨fault, token⟩
      have hsome : ∀ n ending', Ending.Alike (Token.Moves earlier own k n) ending ending' →
          ∃ token', ending'.error? = some ⟨fault, token'⟩ ∧
            Token.Moves earlier own k n token token' := by
        intro n ending' halike
        have hrel := halike.error?
        rw [herror] at hrel
        generalize ending'.error? = found at hrel
        cases hrel with
        | @some _ e' he =>
            rcases e' with ⟨fault', token'⟩
            rcases he with ⟨rfl, hmoves⟩
            exact ⟨token', rfl, hmoves⟩
      refine .inr ?_
      -- All tokens of earlier sources are above line `k`, and all of the second source below it.
      by_cases hline : token.line < k
      · refine .inr ⟨⟨fault, token⟩, ?_⟩
        intro n ending' halike
        rcases hsome n ending' halike with ⟨token', herror', ⟨hmem, rfl⟩ | ⟨u, -, rfl, -⟩⟩
        · exact ⟨hmem, herror'⟩
        · exact absurd hline (Nat.not_lt.2 (Nat.le_add_left k u.line))
      · refine .inl ⟨⟨fault, token.shift k 0⟩, ?_⟩
        intro n ending' halike
        rcases hsome n ending' halike with ⟨token', herror', ⟨hmem, -⟩ | ⟨u, hu, rfl, rfl⟩⟩
        · exact absurd (hk token hmem) hline
        · rw [herror', u.shift_lower k 0]
          exact ⟨hu, rfl⟩

/-- What a source that runs to its end leaves to the next one. -/
theorem accepts_of_ok {s : Session} (hs : s.Sound) {host : Host} {source : String}
    (h : (s.run host source).1.exit = .ok) :
    ∃ ts ss j, s.Accepts source ts ss j ∧ (s.run host source).2.nextId = j ∧
      s.Declares (s.run host source).2 ss := by
  have hend := Report.ending_of_ok h
  have hexit : (s.run host source).1.exit ≠ .staticError := by
    rw [h]
    decide
  rcases accepts_of_exit hexit with ⟨ts, ss, j, haccepts⟩
  rw [run_of_accepts haccepts] at hend ⊢
  refine ⟨ts, ss, j, haccepts, rfl, ?_⟩
  intro x
  have hnames := (haccepts.execute_safe hs host _).2.2.2 hend x
  rwa [Bindings.contains_iff_mem_names, Bindings.contains_iff_mem_names] at hnames

/-- All places of the second source, and the one behind the first source, are compared with a place
far below. -/
theorem exists_echoes {s : Session} (hs : s.Sound) (howns : s.Owns earlier) {host : Host}
    {a b : String} (hsource : ∀ t ∈ (Token.scan a).1, t ∈ earlier)
    (hfirst : (s.run host a).1.exit = .ok)
    (hsecond : ((s.run host a).2.run host b).1.exit ≠ .staticError) :
    ∃ k us deep, (∀ t ∈ earlier, t.line < k) ∧ (∀ t ∈ us, t ∈ (Token.scan b).1) ∧
      (∀ n, Echoes (Token.Moves earlier us k n) [] deep
        ((s.run host a).2.run host (Token.blankLines n ++ b))) ∧
      Echoes (Token.Moves earlier us k (lineBreaks a + 1)) (s.run host a).1.output deep
        (s.run host (a ++ "\n" ++ b)) := by
  rcases accepts_of_ok hs hfirst with ⟨ts, ss, j, ha, hj, hdeclares⟩
  rcases accepts_of_exit hsecond with ⟨us, rest, l, hb⟩
  rcases Token.exists_line_lt earlier with ⟨k, hk⟩
  rcases hb.moved k with ⟨below, hbelow⟩
  refine ⟨k, us, (s.run host a).2.run host (Token.blankLines k ++ b), hk, hb.subset, ?_, ?_⟩
  -- run as a second line, with blank lines in front or without
  · intro n
    rcases hb.moved n with ⟨rest', hb'⟩
    exact run_echoes (fun _ _ => Token.Moves.sameWord) (fun _ _ => .inl)
      (run_owns howns host hsource) hbelow hb' (hbelow.alike_shift hb'.reading earlier) host
  -- run behind the first part in one source
  · rcases ha.continued hb hj hdeclares with ⟨rest', hformed, hread, hc⟩
    rw [← hj] at hread
    exact run_joined (fun _ _ => Token.Moves.sameWord) (fun _ _ => .inl) hs howns ha hsource
      (Report.ending_of_ok hfirst) hbelow hj hdeclares hformed (hbelow.alike_shift hread earlier) hc

/-- The error of a run is found in the source itself: wherever the source stands, it is there. -/
def FailsInside (s : Session) (host : Host) (source : String) (e : RuntimeError) : Prop :=
  e.token ∈ (Token.scan source).1 ∧
    ∀ n, (s.run host (Token.blankLines n ++ source)).1.runtimeError? = some (e.lower n)

/-- The error of a run is found in an earlier source, and stays there wherever the source stands. -/
def FailsOutside (s : Session) (host : Host) (source : String) (earlier : List Token)
    (e : RuntimeError) : Prop :=
  e.token ∈ earlier ∧
    ∀ n, (s.run host (Token.blankLines n ++ source)).1.runtimeError? = some e

/-- A source that has been run to its end and one that passes all checks behind it, run in one
piece: what is printed, how it ends, and what is left behind are the same. -/
theorem run_split (history : List (Host × String)) (host : Host) (a b : String) :
    let s := after history
    let first := s.run host a
    let second := first.2.run host b
    let whole := s.run host (a ++ "\n" ++ b)
    first.1.exit = .ok → second.1.exit ≠ .staticError →
      whole.1.output = first.1.output ++ second.1.output ∧
      whole.1.exit = second.1.exit ∧
      (second.1.runtimeError? = none → whole.1.runtimeError? = none) ∧
      (∀ e, second.1.runtimeError? = some e →
        first.2.FailsInside host b e ∧
          whole.1.runtimeError? = some (e.lower (lineBreaks a + 1)) ∨
        first.2.FailsOutside host b (tokensOf (history.map Prod.snd ++ [a])) e ∧
          whole.1.runtimeError? = some e) ∧
      whole.2.nextId = second.2.nextId ∧
      (∀ id : NodeId, whole.2.links[id]? = second.2.links[id]?) ∧
      whole.2.shown = second.2.shown := by
  intro s first second whole hfirst hsecond
  have howns : s.Owns (tokensOf (history.map Prod.snd ++ [a])) := by
    refine after_owns history ?_
    intro line hline t ht
    exact List.mem_flatMap.2 ⟨line.2, by simp [List.mem_map_of_mem hline], ht⟩
  have hsource : ∀ t ∈ (Token.scan a).1, t ∈ tokensOf (history.map Prod.snd ++ [a]) :=
    fun t ht => List.mem_flatMap.2 ⟨a, by simp, ht⟩
  rcases exists_echoes (after_sound history) howns hsource hfirst hsecond with
    ⟨k, us, deep, hk, hus, hmoved, (hwhole : Echoes _ first.1.output deep whole)⟩
  -- The second source is not moved at all behind no blank lines.
  have hnear := hmoved 0
  rw [Token.blankLines_zero_append] at hnear
  change Echoes _ _ _ second at hnear
  refine ⟨?_, ?_, ?_, ?_, ?_, ?_, ?_⟩
  · rw [hwhole.output, hnear.output, List.nil_append]
  · rw [Report.exit_eq_of_alike hwhole.accepted.1 hwhole.accepted.2 hwhole.ending,
      Report.exit_eq_of_alike hnear.accepted.1 hnear.accepted.2 hnear.ending]
  · intro hnone
    rcases error_cases hk deep.1.ending with hall | ⟨e, he⟩ | ⟨e, he⟩
    · exact hall _ _ hwhole.ending
    · exact absurd (hnone.symm.trans (he _ _ hnear.ending).2) nofun
    · exact absurd (hnone.symm.trans (he _ _ hnear.ending).2) nofun
  · intro e hsome
    rcases error_cases hk deep.1.ending with hall | ⟨e', he⟩ | ⟨e', he⟩
    · exact absurd (hsome.symm.trans (hall _ _ hnear.ending)) nofun
    · rcases he _ _ hnear.ending with ⟨hmem, herror⟩
      have heq : e = e' := Option.some.inj (hsome.symm.trans herror)
      subst heq
      exact .inl ⟨⟨hus _ hmem, fun n => (he n _ (hmoved n).ending).2⟩, (he _ _ hwhole.ending).2⟩
    · rcases he _ _ hnear.ending with ⟨hmem, herror⟩
      have heq : e = e' := Option.some.inj (hsome.symm.trans herror)
      subst heq
      exact .inr ⟨⟨hmem, fun n => (he n _ (hmoved n).ending).2⟩, (he _ _ hwhole.ending).2⟩
  · rw [hwhole.nextId, hnear.nextId]
  · intro id
    rw [hwhole.links, hnear.links]
  · rw [hwhole.machine.shown_eq, hnear.machine.shown_eq]

/-- A loop that is cut off in the second of two lines, by an error in a function of an earlier
one. -/
theorem run_split_loop :
    let host : Host := .standard ⟨0⟩
    let s := after [(host, "fun half(x) \x7b return x / 2; \x7d")]
    let first := s.run host "var x = 8;\nprint half(x);"
    let second := first.2.run host "while (x > 1) x = half(x);\nprint x; half(nil);"
    let whole := s.run host
      "var x = 8;\nprint half(x);\nwhile (x > 1) x = half(x);\nprint x; half(nil);"
    (first.1.exit = .ok ∧ second.1.exit = .runtimeError) ∧
      whole.1.output = first.1.output ++ second.1.output ∧ whole.1.exit = second.1.exit ∧
      whole.2.shown = second.2.shown := by
  intro host s first second whole
  have hfirst : first.1.exit = .ok := by decide +kernel
  have hsecond : second.1.exit = .runtimeError := by decide +kernel
  have hsplit := run_split _ host "var x = 8;\nprint half(x);"
    "while (x > 1) x = half(x);\nprint x; half(nil);" hfirst (by rw [hsecond]; decide)
  exact ⟨⟨hfirst, hsecond⟩, hsplit.1, hsplit.2.1, hsplit.2.2.2.2.2.2⟩

end Session

end LoxLang
