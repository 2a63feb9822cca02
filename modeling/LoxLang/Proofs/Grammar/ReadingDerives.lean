import LoxLang.Proofs.Grammar.Basic
import LoxLang.Proofs.Grammar.Reading

/-!
# Readings are derivations

Whatever can be read can be derived from the rule that its reading is named after. The operators of
the given precedences have no names of their own in a reading; `Names` gives each list of them its
rule.
-/

namespace LoxLang

open Grammar

namespace Grammar

open LoxLang.Reading (Precedence)

/-! ## Names for operators -/

/-- The rule for operators of the given precedences. -/
inductive Names : List Precedence → Symbol → Prop where
  | unary : Names [] .unary
  | operators {p : Precedence} {tighter : List Precedence} {name operand : Symbol} :
      Names tighter operand → rule name = .operands operand p.operators →
      Names (p :: tighter) name

/-- The grammar has a rule for each precedence, and they follow each other in the same order. -/
theorem names_logicOr : Names Precedence.all .logicOr := by
  have hfactor : Names [.factor] .factor := .operators .unary rfl
  have hterm : Names [.term, .factor] .term := .operators hfactor rfl
  have hcomparison : Names [.comparison, .term, .factor] .comparison := .operators hterm rfl
  have hequality : Names [.equality, .comparison, .term, .factor] .equality :=
    .operators hcomparison rfl
  have hand : Names [.logicAnd, .equality, .comparison, .term, .factor] .logicAnd :=
    .operators hequality rfl
  exact .operators hand rfl

end Grammar

namespace Reading

/-! ## Expressions -/

mutual

/-- Forgetting the tree, an expression that is read is derived. -/
theorem Expression.derives {ts : List Token} {i j : NodeId} {e : Expr} :
    Expression ts i e j → Derives (.symbol .assignment) ts
  | .plain h => .symbol (.right (h.derives names_logicOr))
  | .assign hname hequals h => by
      have habsent : Derives (.optional (.symbol .call ++ .word .dot)) [] := .absent
      exact .symbol (.left (habsent.seq (.word hname) |>.seq (.word hequals) |>.seq h.derives))
  | .set hobject hdot hname hequals h => by
      have hprefix := hobject.derives.seq (.word hdot)
      have hset := hprefix.present.seq (.word hname) |>.seq (.word hequals) |>.seq h.derives
      exact .symbol (.left (by simpa using hset))

/-- A level of precedence is the symbol that the grammar has for it. -/
theorem Operation.derives {ps : List Precedence} {name : Symbol} {ts : List Token} {i j : NodeId}
    {e : Expr} : Operation ps ts i e j → Names ps name → Derives (.symbol name) ts
  | .unary h, .unary => h.derives
  | .chain hleft hchain, .operators hoperand hrule => by
      refine .symbol ?_
      rw [hrule]
      exact .seq (hleft.derives hoperand) (hchain.derives hoperand)

/-- A chain is a repetition of operators with operands. -/
theorem Chain.derives {p : Precedence} {tighter : List Precedence} {operand : Symbol}
    {left e : Expr} {ts : List Token} {i j : NodeId} :
    Chain p tighter left ts i e j → Names tighter operand →
    Derives (.many (.oneOf p.operators ++ .symbol operand)) ts
  | .done, _ => .manyNil
  | .more hoperator hright hchain, hoperand => by
      have hmember := (Derives.oneOf hoperator).seq (hright.derives hoperand)
      exact .manyCons hmember (hchain.derives hoperand)

theorem Unary.derives {ts : List Token} {i j : NodeId} {e : Expr} :
    Unary ts i e j → Derives (.symbol .unary) ts
  | .operator hoperator h => by
      have hword : Derives (.oneOf [.bang, .minus]) [_] :=
        .oneOf (by simpa using hoperator)
      exact .symbol (.left (hword.seq h.derives))
  | .call h => .symbol (.right h.derives)

theorem Call.derives {ts : List Token} {i j : NodeId} {e : Expr} :
    Call ts i e j → Derives (.symbol .call) ts
  | .mk hprimary hcalls => .symbol (hprimary.derives.seq hcalls.derives)

/-- Calls and properties are a repetition of the two forms. -/
theorem Calls.derives {callee e : Expr} {ts : List Token} {i j : NodeId} :
    Calls callee ts i e j →
    Derives (.many (.word .leftParen ++ .optional (.symbol .arguments) ++ .word .rightParen |||
      .word .dot ++ .word .identifier)) ts
  | .done => .manyNil
  | .call hopen hargs hparen hcalls => by
      have hcall := (Derives.word hopen).seq hargs.derives |>.seq (.word hparen)
      simpa using hcall.left.manyCons hcalls.derives
  | .get hdot hname hcalls => by
      have hget := (Derives.word hdot).seq (.word hname)
      exact hget.right.manyCons hcalls.derives

theorem Arguments.derives {ts : List Token} {i j : NodeId} {es : List Expr} :
    Arguments ts i es j → Derives (.optional (.symbol .arguments)) ts
  | .none => .absent
  | .some hfirst hmore => by
      have hrest := hmore.derives 254 rfl
      exact .present (.symbol (.seq (.symbol hfirst.derives) hrest))

/-- Counted from the number of arguments before, at most 255 are derived. -/
theorem MoreArguments.derives {before es : List Expr} {ts : List Token} {i j : NodeId} :
    MoreArguments before ts i es j → ∀ count, before.length + count = 255 →
    Derives (.upTo count (.word .comma ++ .symbol .expression)) ts
  | .done, _, _ => .upToNil
  | .more hcomma hlength h hmore, 0, hcount => by omega
  | .more hcomma hlength h hmore, count + 1, hcount => by
      have hrest := hmore.derives count (by simp; omega)
      exact .upToCons ((Derives.word hcomma).seq (.symbol h.derives)) hrest

theorem Primary.derives {ts : List Token} {i j : NodeId} {e : Expr} :
    Primary ts i e j → Derives (.symbol .primary) ts
  | .falseWord h | .trueWord h | .nilWord h | .number h | .string h | .this h | .variable h =>
      .symbol (.left (.left (.oneOf (by simp [h]))))
  | .super hkeyword hdot hmethod =>
      .symbol (.right ((Derives.word hkeyword).seq (.word hdot) |>.seq (.word hmethod)))
  | .grouping hopen h hclose => by
      have hinner : Derives (.symbol .expression) _ := .symbol h.derives
      exact .symbol (.left (.right ((Derives.word hopen).seq hinner |>.seq (.word hclose))))

end

theorem Expression.derives_symbol {ts : List Token} {i j : NodeId} {e : Expr}
    (h : Expression ts i e j) : Derives (.symbol .expression) ts := .symbol h.derives

/-! ## Clauses without a statement -/

theorem OptionalExpression.derives {ts : List Token} {i j : NodeId} {o : Option Expr} :
    OptionalExpression ts i o j → Derives (.optional (.symbol .expression)) ts
  | .none => .absent
  | .some h => .present h.derives_symbol

theorem Initializer.derives {ts : List Token} {i j : NodeId} {o : Option Expr} :
    Initializer ts i o j → Derives (.optional (.word .equal ++ .symbol .expression)) ts
  | .none => .absent
  | .some hequals h => .present ((Derives.word hequals).seq h.derives_symbol)

theorem VarDeclaration.derives {keyword : Token} {ts : List Token} {i j : NodeId} {s : Stmt}
    (hkeyword : keyword.kind = .varWord) :
    VarDeclaration ts i s j → Derives (.symbol .varDecl) (keyword :: ts)
  | .mk hname hvalue hmark =>
      .symbol ((Derives.word hkeyword).seq (.word hname) |>.seq hvalue.derives
        |>.seq (.word hmark))

theorem ExpressionStatement.derives {ts : List Token} {i j : NodeId} {s : Stmt} :
    ExpressionStatement ts i s j → Derives (.symbol .exprStmt) ts
  | .mk h hmark => .symbol (h.derives_symbol.seq (.word hmark))

theorem ForInitializer.derives {ts : List Token} {i j : NodeId} {o : Option Stmt} :
    ForInitializer ts i o j →
    Derives (.symbol .varDecl ||| .symbol .exprStmt ||| .word .semicolon) ts
  | .none hmark => .right (.word hmark)
  | .variable hkeyword h => .left (.left (h.derives hkeyword))
  | .expression h => .left (.right h.derives)

theorem MoreParameters.derives {before ts params : List Token} :
    MoreParameters before ts params → ∀ count, before.length + count = 255 →
    Derives (.upTo count (.word .comma ++ .word .identifier)) ts
  | .done, _, _ => .upToNil
  | .more hcomma hlength hparam hmore, 0, hcount => by omega
  | .more hcomma hlength hparam hmore, count + 1, hcount => by
      have hrest := hmore.derives count (by simp; omega)
      exact .upToCons ((Derives.word hcomma).seq (.word hparam)) hrest

theorem Parameters.derives {ts params : List Token} :
    Parameters ts params → Derives (.optional (.symbol .parameters)) ts
  | .none => .absent
  | .some hfirst hmore =>
      .present (.symbol (.seq (.word hfirst) (hmore.derives 254 rfl)))

theorem Superclass.derives {ts : List Token} {i j : NodeId} {o : Option Reference} :
    Superclass ts i o j → Derives (.optional (.word .less ++ .word .identifier)) ts
  | .none => .absent
  | .some hless hname => .present ((Derives.word hless).seq (.word hname))

/-! ## Statements -/

mutual

/-- Every kind of declaration is derived by its rule. -/
theorem Declaration.derives {ts : List Token} {i j : NodeId} {s : Stmt} :
    Declaration ts i s j → Derives (.symbol .declaration) ts
  | .classDecl hkeyword hname hsuper hopen hmethods hclose => by
      have hclass := (Derives.word hkeyword).seq (.word hname) |>.seq hsuper.derives
        |>.seq (.word hopen) |>.seq hmethods.derives |>.seq (.word hclose)
      exact .symbol (.left (.left (.left (.symbol (by simpa [rule] using hclass)))))
  | .function hkeyword h =>
      .symbol (.left (.left (.right (.symbol ((Derives.word hkeyword).seq h.derives)))))
  | .variable hkeyword h => .symbol (.left (.right (h.derives hkeyword)))
  | .statement h => .symbol (.right h.derives)

theorem Methods.derives {ts : List Token} {i j : NodeId} {decls : List FunctionDecl} :
    Methods ts i decls j → Derives (.many (.symbol .function)) ts
  | .nil => .manyNil
  | .cons h hmore => .manyCons h.derives hmore.derives

theorem Function.derives {ts : List Token} {i j : NodeId} {decl : FunctionDecl} :
    Function ts i decl j → Derives (.symbol .function) ts
  | .mk hname hopen hparams hclose hopenBody hbody hcloseBody => by
      have hblock : Derives (.symbol .block) _ :=
        .symbol ((Derives.word hopenBody).seq hbody.derives |>.seq (.word hcloseBody))
      have hfunction := (Derives.word hname).seq (.word hopen) |>.seq hparams.derives
        |>.seq (.word hclose) |>.seq hblock
      exact .symbol (by simpa [rule] using hfunction)

theorem Declarations.derives {ts : List Token} {i j : NodeId} {ss : List Stmt} :
    Declarations ts i ss j → Derives (.many (.symbol .declaration)) ts
  | .nil => .manyNil
  | .cons h hmore => .manyCons h.derives hmore.derives

/-- Every kind of statement is derived, an open one as well as a closed one. -/
theorem Statement.derives {isOpen : Bool} {ts : List Token} {i j : NodeId} {s : Stmt} :
    Statement isOpen ts i s j → Derives (.symbol .statement) ts
  -- The alternatives of a statement nest to the left, the last one outermost.
  | .expression h => .symbol (.left (.left (.left (.left (.left (.left h.derives))))))
  | .print hkeyword h hmark => by
      have hprint := (Derives.word hkeyword).seq h.derives_symbol |>.seq (.word hmark)
      exact .symbol (.left (.left (.left (.right (.symbol hprint)))))
  | .returnValue hkeyword h hmark => by
      have hreturn := (Derives.word hkeyword).seq h.derives |>.seq (.word hmark)
      exact .symbol (.left (.left (.right (.symbol hreturn))))
  | .block hopen h hclose =>
      .symbol (.right (.symbol ((Derives.word hopen).seq h.derives |>.seq (.word hclose))))
  | .whileLoop hkeyword hopen h hclose hbody => by
      have hwhile := (Derives.word hkeyword).seq (.word hopen) |>.seq h.derives_symbol
        |>.seq (.word hclose) |>.seq hbody.derives
      exact .symbol (.left (.right (.symbol (by simpa [rule] using hwhile))))
  | .ifOnly hkeyword hopen h hclose hthen => by
      have habsent : Derives (.optional (.word .elseWord ++ .symbol .statement)) [] := .absent
      have hif := (Derives.word hkeyword).seq (.word hopen) |>.seq h.derives_symbol
        |>.seq (.word hclose) |>.seq hthen.derives |>.seq habsent
      exact .symbol (.left (.left (.left (.left (.right (.symbol (by simpa [rule] using hif)))))))
  | .ifElse hkeyword hopen h hclose hthen hword hbody => by
      have helse := ((Derives.word hword).seq hbody.derives).present
      have hif := (Derives.word hkeyword).seq (.word hopen) |>.seq h.derives_symbol
        |>.seq (.word hclose) |>.seq hthen.derives |>.seq helse
      exact .symbol (.left (.left (.left (.left (.right (.symbol (by simpa [rule] using hif)))))))
  | .forLoop hkeyword hopen hinit h hmark hincrement hclose hbody => by
      have hfor := (Derives.word hkeyword).seq (.word hopen) |>.seq hinit.derives
        |>.seq h.derives_symbol.present |>.seq (.word hmark) |>.seq hincrement.derives
        |>.seq (.word hclose) |>.seq hbody.derives
      refine .symbol (.left (.left (.left (.left (.left (.right (.symbol ?_)))))))
      simpa [rule] using hfor
  | .forEver hkeyword hopen hinit hmark hincrement hclose hbody => by
      have habsent : Derives (.optional (.symbol .expression)) [] := .absent
      have hfor := (Derives.word hkeyword).seq (.word hopen) |>.seq hinit.derives
        |>.seq habsent |>.seq (.word hmark) |>.seq hincrement.derives
        |>.seq (.word hclose) |>.seq hbody.derives
      refine .symbol (.left (.left (.left (.left (.left (.right (.symbol ?_)))))))
      simpa [rule] using hfor

end

/-- A program is derived with the end of input behind it. -/
theorem Declarations.derives_program {eof : Token} {ts : List Token} {i j : NodeId}
    {ss : List Stmt} (h : Declarations ts i ss j) (heof : eof.kind = .eof) :
    Derives (.symbol .program) (ts ++ [eof]) := .symbol (h.derives.seq (.word heof))

end Reading

end LoxLang
