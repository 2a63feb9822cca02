import LoxLang.Proofs.Number.Spelling
import LoxLang.Proofs.Scope.Continued
import LoxLang.Proofs.Session.Scoped

/-!
# Numbers that are printed

What is printed of a number can be put into a source again.

* `Piece.divide_numeral`: a numeral in front of a semicolon is one lexeme.
* `Signed.reading`: a sign in front of a numeral, or a numeral alone, evaluates to a number with
  that sign.
* `Session.numbers_reread`: what is printed of a number gives that number in a source, and the same
  text is printed again.
-/

namespace LoxLang

open Decimal

/-! ## Numerals in a source -/

namespace Piece

/-- A numeral in front of a semicolon is one lexeme. -/
theorem divide_numeral {whole fraction : List Char} (hne : whole ≠ [])
    (h : ∀ c ∈ whole ++ fraction, c.isDigit = true) (rest : List Char) :
    divide (numeral whole fraction ++ ';' :: rest) =
      .lexeme .number (numeral whole fraction) :: divide (';' :: rest) := by
  rcases List.exists_cons_of_ne_nil hne with ⟨c, cs, rfl⟩
  have hc : c.isDigit = true := h c List.mem_cons_self
  have hcs : ∀ d ∈ cs, d.isDigit = true := fun d hd =>
    h d (List.mem_append_left _ (List.mem_cons_of_mem _ hd))
  cases fraction with
  | nil =>
      -- without a fraction, the digits end at the semicolon
      rcases takeWhile_stop hcs (rfl : Char.isDigit ';' = false) rest with ⟨htake, hdrop⟩
      rw [numeral, List.cons_append, divide, next_of_digit _ hc, number_eq, htake, hdrop]
      rfl
  | cons d ds =>
      have hd : d.isDigit = true := h d (List.mem_append_right _ List.mem_cons_self)
      have hds : ∀ c ∈ ds, c.isDigit = true := fun c hc =>
        h c (List.mem_append_right _ (List.mem_cons_of_mem _ hc))
      have hinput : numeral (c :: cs) (d :: ds) ++ ';' :: rest =
          c :: (cs ++ '.' :: d :: (ds ++ ';' :: rest)) := by
        simp [numeral]
      -- with one, the first digits end at the point, the others at the semicolon
      rcases takeWhile_stop hcs (rfl : Char.isDigit '.' = false) (d :: (ds ++ ';' :: rest)) with
        ⟨htake, hdrop⟩
      rcases takeWhile_stop hds (rfl : Char.isDigit ';' = false) rest with ⟨htake', hdrop'⟩
      rw [hinput, divide, next_of_digit _ hc, number_eq, htake, hdrop, fraction, if_pos hd, htake',
        hdrop']
      rfl

/-- A `print` and the blank behind it are divided off whatever follows. -/
theorem divide_print (cs : List Char) :
    divide ("print ".toList ++ cs) =
      .lexeme .printWord "print".toList :: .blank ' ' :: divide cs := by
  change divide ('p' :: 'r' :: 'i' :: 'n' :: 't' :: ' ' :: cs) = _
  rw [divide, next_of_letter _ rfl]
  change _ :: divide (' ' :: cs) = _
  rw [divide]
  rfl

/-- A minus is a token of its own, so negative numbers are read as negations. -/
theorem divide_minus (cs : List Char) :
    divide ('-' :: cs) = .lexeme .minus "-".toList :: divide cs := by
  rw [divide]
  rfl

theorem divide_semicolon : divide [';'] = [.lexeme .semicolon ";".toList] := by
  rw [divide]
  change _ :: divide [] = _
  rw [divide]
  rfl

end Piece

/-! ## Signs -/

/-- The tokens in front of the digits of a number. -/
inductive Signed : Bool → List Token → Prop where
  | positive : Signed false []
  | negative {t : Token} : t.kind = .minus → Signed true [t]

/-- The tokens of a number that is printed. -/
theorem Token.scan_print {whole fraction : List Char} (hne : whole ≠ [])
    (h : ∀ c ∈ whole ++ fraction, c.isDigit = true) {source : String} {negative : Bool}
    (hsource : source.toList = "print ".toList ++
      ((if negative then ['-'] else []) ++ (numeral whole fraction ++ [';']))) :
    ∃ (keyword : Token) (sign : List Token) (digits mark eof : Token),
      Token.scan source = (keyword :: (sign ++ [digits]) ++ [mark] ++ [eof], []) ∧
      keyword.kind = .printWord ∧ Signed negative sign ∧ digits.kind = .number ∧
      digits.literal = .number (ofPlaces (numeral whole fraction)).toNumber ∧
      mark.kind = .semicolon ∧ eof.kind = .eof := by
  unfold Token.scan
  rw [hsource, Piece.divide_print]
  cases negative with
  | true =>
      rw [if_pos rfl, List.singleton_append, Piece.divide_minus, Piece.divide_numeral hne h,
        Piece.divide_semicolon]
      exact ⟨_, _, _, _, _, rfl, rfl, .negative rfl, rfl, rfl, rfl, rfl⟩
  | false =>
      rw [if_neg Bool.false_ne_true, List.nil_append, Piece.divide_numeral hne h,
        Piece.divide_semicolon]
      exact ⟨_, [], _, _, _, rfl, rfl, .positive, rfl, rfl, rfl, rfl⟩

/-- A sign and a number read as an expression that has no faults, whatever is around it, and that
evaluates to the number with that sign. -/
theorem Signed.reading {negative : Bool} {sign : List Token} (h : Signed negative sign)
    {digits : Token} (hdigits : digits.kind = .number) {x : Number}
    (hliteral : digits.literal = .number x) (i : NodeId) :
    ∃ e j, Reading.Expression (sign ++ [digits]) i e j ∧
      (∀ known, (resolve [.print e] known).errors = []) ∧
      ∀ ctx run env m, eval ctx run env e m = .ok (.number (if negative then -x else x)) m := by
  have hnumber : Reading.Unary [digits] i (.literal i (.number x)) (i + 1) :=
    hliteral ▸ .call (.mk (.number hdigits) .done)
  -- nothing is looked up in either expression
  have hresolved : ∀ {e : Expr}, Resolver.expr ⟨.none, .none⟩ e = pure () → ∀ known,
      (resolve [.print e] known).errors = [] := by
    intro e he known
    refine (resolve_errors_eq_nil rfl).2 ?_
    rw [Resolver.stmts, Resolver.stmt, he]
    exact ⟨rfl, nofun⟩
  cases h with
  | positive =>
      exact ⟨_, _, .plain (.of_unary hnumber _), hresolved rfl, fun _ _ _ _ => rfl⟩
  | @negative t ht =>
      refine ⟨_, _, .plain (.of_unary (.operator (.inr ht) hnumber) _), hresolved rfl, ?_⟩
      intro ctx run env m
      change Exec.orRaise t (Value.unary t.kind (.number x)) m = _
      rw [ht]
      rfl

namespace Session

/-- A source that prints the text of a number has no faults, and what it prints evaluates to that
number. -/
theorem accepts_print (s : Session) {x : Number} (hfinite : x.isFinite = true)
    (hexponent : 'e' ∉ x.text.toList) :
    ∃ ts e j, s.Accepts ("print " ++ x.text ++ ";") ts [.print e] j ∧
      ∀ ctx run env m, eval ctx run env e m = .ok (.number x) m := by
  have hplain := (Number.not_mem_text_iff hfinite).1 hexponent
  have hself := Number.signed_ofPlaces hfinite hplain
  rcases Number.exists_numeral hplain with ⟨whole, fraction, htext, hne, hdigits⟩
  -- The text is a sign and a numeral, so the source is divided into a print, perhaps a minus, a
  -- number and a semicolon.
  have hsource : ("print " ++ x.text ++ ";").toList = "print ".toList ++
      ((if x.isNegative then ['-'] else []) ++ (numeral whole fraction ++ [';'])) := by
    rw [← htext, ← List.append_assoc _ _ [';'], ← Number.toList_text_of_isFinite hfinite]
    simp
  rcases Token.scan_print hne hdigits hsource with
    ⟨keyword, sign, digits, mark, eof, hscan, hkeyword, hsign, hkind, hliteral, hmark, heof⟩
  rcases hsign.reading hkind hliteral s.nextId with ⟨e, j, hreading, hresolved, heval⟩
  rw [← htext, hself] at heval
  -- These tokens are read as the printing of an expression.
  have hread : Reading.Declarations (keyword :: (sign ++ [digits]) ++ [mark]) s.nextId
      [.print e] j := by
    have hstatement := Reading.Statement.print hkeyword hreading hmark
    exact List.append_nil (keyword :: (sign ++ [digits]) ++ [mark]) ▸
      .cons (.statement hstatement) .nil
  refine ⟨_, e, j, ⟨⟨eof, hscan, heof⟩, ?_, hread, hresolved _⟩, heval⟩
  rcases Token.scan_eq_append ("print " ++ x.text ++ ";") with ⟨ts, eof', htokens, -, hspelled⟩
  rw [hscan] at htokens
  rwa [(List.append_inj' htokens rfl).1]

/-- Printing a number prints its text, and nothing else happens. -/
theorem execute_print (s : Session) (host : Host) {e : Expr} {x : Number} (links : Links)
    (stages : List Stage) (heval : ∀ ctx run env m, eval ctx run env e m = .ok (.number x) m) :
    (s.execute host [.print e] links stages).1 = ⟨[x.text], [], .completed, stages⟩ := by
  have hexecute : ∀ ctx (m : Machine), m.execute ctx [.print e] =
      (.completed, { m with output := m.output.push x.text }) := by
    intro ctx m
    have hexec : exec ctx (runBody ctx ctx.host.maxCalls) Machine.globals (.print e) m =
        .ok .next { m with output := m.output.push x.text } := Halt.bind_ok (heval _ _ _ m)
    have htop : execTopLevel ctx [.print e] m = .ok () { m with output := m.output.push x.text } :=
      Halt.bind_ok hexec
    unfold Machine.execute
    rw [htop]
  unfold execute
  simp only [hexecute]
  rfl

/-- A finite number is printed without an exponent just if it is zero or its first digit has one of
the powers of ten from `-4` to `15`. If a source then prints its text, that text reads as an
expression which evaluates to the number itself, and the same text is printed. Different numbers
never have the same text. -/
theorem numbers_reread (s : Session) (host : Host) :
    (∀ x : Number, x.isFinite = true → ('e' ∉ x.text.toList ↔ x.magnitude = 0 ∨
      -4 ≤ (Number.shortest x.magnitude).leadingExponent ∧
        (Number.shortest x.magnitude).leadingExponent < 16)) ∧
    (∀ x : Number, x.isFinite = true → 'e' ∉ x.text.toList →
      let source := "print " ++ x.text ++ ";"
      let report := (s.run host source).1
      (∃ e, s.reads source = [.print e] ∧
        ∀ ctx run env m, eval ctx run env e m = .ok (.number x) m) ∧
      report.exit = .ok ∧ report.output = [x.text]) ∧
    ∀ x y : Number, x.isNaN = false → y.isNaN = false → x.text = y.text → x = y := by
  refine ⟨?_, ?_, fun x y hx hy => Number.text_injective hx hy⟩
  · intro x hfinite
    rw [Number.not_mem_text_iff hfinite, Number.not_mem_magnitudeText_iff]
  · intro x hfinite hexponent source report
    rcases s.accepts_print hfinite hexponent with ⟨ts, e, j, haccepts, heval⟩
    have hreport := (congrArg Prod.fst (run_of_accepts haccepts host)).trans
      (execute_print _ host _ _ heval)
    exact ⟨⟨e, haccepts.reads_eq, heval⟩, congrArg Report.exit hreport,
      congrArg Report.output hreport⟩

/-- The number nearest to `-0.1`, which is not that decimal exactly. -/
theorem numbers_reread_tenth :
    let x : Number := ⟨0xbfb999999999999a⟩
    let report := (start.run (.standard ⟨0⟩) "print -0.1;").1
    x.isFinite = true ∧ x.text = "-0.1" ∧
      (∃ e, start.reads "print -0.1;" = [.print e] ∧
        ∀ ctx run env m, eval ctx run env e m = .ok (.number x) m) ∧
      report.exit = .ok ∧ report.output = ["-0.1"] ∧
      ∀ y : Number, y.isNaN = false → y.text = "-0.1" → y = x := by
  intro x report
  have hfinite : x.isFinite = true := by decide +kernel
  have htext : x.text = "-0.1" := by decide +kernel
  have hexponent : 'e' ∉ x.text.toList := by
    rw [htext]
    decide
  have hsource : "print " ++ x.text ++ ";" = "print -0.1;" := by
    rw [htext]
    decide
  rcases numbers_reread start (.standard ⟨0⟩) with ⟨-, hprinted, hdistinct⟩
  have hreport := hprinted x hfinite hexponent
  rw [hsource, htext] at hreport
  rcases hreport with ⟨heval, hexit, houtput⟩
  have hnumber : x.isNaN = false := Number.isNaN_of_isFinite hfinite
  exact ⟨hfinite, htext, heval, hexit, houtput, fun y hy hsame =>
    hdistinct y x hy hnumber (hsame.trans htext.symm)⟩

end Session

end LoxLang
