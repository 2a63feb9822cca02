import LoxLang.Proofs.Parsing.Shape
import LoxLang.Proofs.Session.Numbers
import LoxLang.Proofs.Token.Spaced

/-!
# Where declarations stand

What the statements of a program stand in, whatever faults its source has.

* `Holder` lists what a statement can stand in, and `Program.standing` all statements of a program,
  at whatever depth, each with its holder.
* `Stmt.Held N holder s`: as a part of `holder`, the statement declares something only if a scope
  belongs to the holder, its branches declare nothing, and what it names itself is of a kind `N`.
  This holds of all statements inside of a tree that has its shape (`Stmt.held_standing`).
* `Token.lexeme_ne_keyword`: the names of a source are no keywords.
* `Program.declarations_held` puts this together with the numbers of the expressions.
-/

namespace LoxLang

/-! ## Holders -/

/-- What a statement stands in. -/
inductive Holder where
  | program
  | block
  /-- The body of a function or of a method. -/
  | body
  /-- A branch of an `if`. -/
  | branch
  /-- The body of a loop. -/
  | loop
  deriving DecidableEq

/-- Whether a scope belongs to a holder; that of a program is the top level. -/
def Holder.isScope : Holder → Bool
  | program | block | body => true
  | branch | loop => false

mutual

/-- The statements inside of a statement, at whatever depth. -/
def Stmt.inside : Stmt → List (Holder × Stmt)
  | .block body => Stmt.standing .block body
  | .classDecl _ _ methods => FunctionDecl.allInside methods
  | .function decl => decl.inside
  | .ifElse _ thenBranch none => (.branch, thenBranch) :: thenBranch.inside
  | .ifElse _ thenBranch (some elseBranch) =>
    ((.branch, thenBranch) :: thenBranch.inside) ++ ((.branch, elseBranch) :: elseBranch.inside)
  | .whileLoop _ body => (.loop, body) :: body.inside
  | .expression _ | .print _ | .returnValue .. | .varDecl .. => []

/-- The statements that stand in a holder, with all that is inside of them. -/
def Stmt.standing (holder : Holder) : List Stmt → List (Holder × Stmt)
  | [] => []
  | s :: ss => ((holder, s) :: s.inside) ++ Stmt.standing holder ss

def FunctionDecl.inside : FunctionDecl → List (Holder × Stmt)
  | ⟨_, _, body⟩ => Stmt.standing .body body

def FunctionDecl.allInside : List FunctionDecl → List (Holder × Stmt)
  | [] => []
  | decl :: decls => decl.inside ++ FunctionDecl.allInside decls

end

def Program.standing (p : Program) : List (Holder × Stmt) := Stmt.standing .program p.statements

/-! ## Names and branches -/

def Stmt.branches : Stmt → List Stmt
  | .ifElse _ thenBranch elseBranch => thenBranch :: elseBranch.toList
  | .whileLoop _ body => [body]
  | _ => []

def FunctionDecl.names (decl : FunctionDecl) : List Token := decl.name :: decl.params

/-- The names that a statement declares, those of methods and parameters included, and the
superclass that it names. -/
def Stmt.names : Stmt → List Token
  | .classDecl name superclass methods =>
    name :: (superclass.toList.map Reference.name ++ methods.flatMap FunctionDecl.names)
  | .function decl => decl.names
  | .varDecl name _ => [name]
  | _ => []

def Expr.names : Expr → List Token
  | .assign _ name _ => [name]
  | .variable ref => [ref.name]
  | _ => []

variable {N : Token → Prop}

/-! ## Names of expressions -/

/-- The names of some expressions are of a kind. -/
def Expr.AllNamed (N : Token → Prop) (es : List Expr) : Prop := ∀ e ∈ es, ∀ name ∈ e.names, N name

/-- Names that are good in two lists are good in both together. -/
theorem Expr.AllNamed.append {es es' : List Expr} (h : AllNamed N es) (h' : AllNamed N es') :
    AllNamed N (es ++ es') := List.forall_mem_append.2 ⟨h, h'⟩

/-- An expression behind its parts. -/
theorem Expr.AllNamed.concat {es : List Expr} {e : Expr} (h : AllNamed N es)
    (he : ∀ name ∈ e.names, N name) : AllNamed N (es ++ [e]) :=
  h.append (List.forall_mem_singleton.2 he)

mutual

/-- By induction on the expression: all names in its nodes are good. -/
theorem Expr.allNamed_nodes : ∀ {e : Expr}, e.Shaped N → AllNamed N e.nodes
  | .assign .., ⟨hname, hvalue⟩ => by
      have hparts := Expr.allNamed_nodes hvalue
      exact hparts.concat (List.forall_mem_singleton.2 hname)
  | .binary .., ⟨hleft, hright⟩ | .logical .., ⟨hleft, hright⟩ | .set .., ⟨hleft, hright⟩ => by
      have hparts := (Expr.allNamed_nodes hleft).append (Expr.allNamed_nodes hright)
      exact hparts.concat (List.forall_mem_nil _)
  | .call .., ⟨hcallee, harguments⟩ => by
      have hparts := (Expr.allNamed_nodes hcallee).append (Expr.allNamed_allNodes harguments)
      exact hparts.concat (List.forall_mem_nil _)
  | .get _ e _, h | .grouping _ e, h | .unary _ _ e, h => by
      have hpart : AllNamed N e.nodes := Expr.allNamed_nodes h
      exact hpart.concat (List.forall_mem_nil _)
  | .literal .., _ | .super .., _ | .this .., _ =>
      List.forall_mem_singleton.2 (List.forall_mem_nil _)
  | .variable _, h => List.forall_mem_singleton.2 (List.forall_mem_singleton.2 h)

theorem Expr.allNamed_allNodes : ∀ {es : List Expr}, Expr.AllShaped N es →
    AllNamed N (Expr.allNodes es)
  | [], _ => List.forall_mem_nil _
  | _ :: _, h => (Expr.allNamed_nodes h.1).append (Expr.allNamed_allNodes h.2)

end

/-- An expression that may be missing. -/
theorem Expr.allNamed_toList {e : Option Expr} (h : ∀ e' ∈ e, e'.Shaped N) :
    AllNamed N (Expr.allNodes e.toList) := by
  cases e with
  | none => exact List.forall_mem_nil _
  | some e => exact (Expr.allNamed_nodes (h e rfl)).append (List.forall_mem_nil _)

mutual

/-- By induction on the statement: all names in its expressions are good. -/
theorem Stmt.allNamed_nodes : ∀ {s : Stmt}, s.Shaped N → Expr.AllNamed N s.nodes
  | .block _, h => Stmt.allNamed_allNodes h
  | .classDecl _ none _, ⟨_, _, hmethods⟩ => FunctionDecl.allNamed_allNodes hmethods
  | .classDecl _ (some ref) _, ⟨_, hparent, hmethods⟩ => by
      have hsuper : Expr.AllNamed N [.variable ref] :=
        List.forall_mem_singleton.2 (List.forall_mem_singleton.2 (hparent ref rfl))
      exact hsuper.append (FunctionDecl.allNamed_allNodes hmethods)
  | .expression e, h | .print e, h => Expr.allNamed_nodes (e := e) h
  | .function decl, h => @FunctionDecl.allNamed_nodes decl h
  | .ifElse _ _ none, ⟨hcondition, _, hthen⟩ => by
      have hparts := Expr.allNamed_nodes hcondition
      exact hparts.append (Stmt.allNamed_nodes hthen)
  | .ifElse _ _ (some _), ⟨hcondition, ⟨_, hthen⟩, _, helse⟩ => by
      have hparts := Expr.allNamed_nodes hcondition
      have hbranches := (Stmt.allNamed_nodes hthen).append (Stmt.allNamed_nodes helse)
      exact hparts.append hbranches
  | .returnValue .., h => Expr.allNamed_toList h
  | .varDecl .., ⟨_, hvalue⟩ => Expr.allNamed_toList hvalue
  | .whileLoop .., ⟨hcondition, _, hbody⟩ => by
      have hparts := Expr.allNamed_nodes hcondition
      exact hparts.append (Stmt.allNamed_nodes hbody)

theorem Stmt.allNamed_allNodes : ∀ {ss : List Stmt}, Stmt.AllShaped N ss →
    Expr.AllNamed N (Stmt.allNodes ss)
  | [], _ => List.forall_mem_nil _
  | _ :: _, h => (Stmt.allNamed_nodes h.1).append (Stmt.allNamed_allNodes h.2)

theorem FunctionDecl.allNamed_nodes : ∀ {decl : FunctionDecl}, decl.Shaped N →
    Expr.AllNamed N decl.nodes
  | ⟨_, _, _⟩, h => Stmt.allNamed_allNodes h.2.2

theorem FunctionDecl.allNamed_allNodes : ∀ {decls : List FunctionDecl},
    FunctionDecl.AllShaped N decls → Expr.AllNamed N (FunctionDecl.allNodes decls)
  | [], _ => List.forall_mem_nil _
  | _ :: _, h => (FunctionDecl.allNamed_nodes h.1).append (FunctionDecl.allNamed_allNodes h.2)

end

/-! ## Statements and their holders -/

/-- What holds of a statement as a part of its holder. -/
structure Stmt.Held (N : Token → Prop) (holder : Holder) (s : Stmt) : Prop where
  declares : s.declared? ≠ none → holder.isScope = true
  branches : ∀ branch ∈ s.branches, branch.declared? = none
  names : ∀ name ∈ s.names, N name

/-- What holds of some statements, each in its holder. -/
def Stmt.AllHeld (N : Token → Prop) (parts : List (Holder × Stmt)) : Prop :=
  ∀ part ∈ parts, part.2.Held N part.1

theorem Stmt.AllHeld.append {parts parts' : List (Holder × Stmt)} (h : AllHeld N parts)
    (h' : AllHeld N parts') : AllHeld N (parts ++ parts') := List.forall_mem_append.2 ⟨h, h'⟩

theorem Stmt.AllHeld.cons {holder : Holder} {s : Stmt} {parts : List (Holder × Stmt)}
    (hs : s.Held N holder) (h : AllHeld N parts) : AllHeld N ((holder, s) :: parts) :=
  List.forall_mem_cons.2 ⟨hs, h⟩

/-- The names of a function are its own and those of its parameters. -/
theorem FunctionDecl.names_of_shaped {decl : FunctionDecl} (h : decl.Shaped N) :
    ∀ name ∈ decl.names, N name := by
  cases decl
  exact List.forall_mem_cons.2 ⟨h.1, h.2.1⟩

theorem FunctionDecl.names_of_allShaped : ∀ {decls : List FunctionDecl},
    FunctionDecl.AllShaped N decls → ∀ name ∈ decls.flatMap FunctionDecl.names, N name
  | [], _ => List.forall_mem_nil _
  | _ :: _, h =>
      List.forall_mem_append.2
        ⟨FunctionDecl.names_of_shaped h.1, FunctionDecl.names_of_allShaped h.2⟩

/-- A tree with its shape may stand wherever what it declares may. -/
theorem Stmt.Shaped.held {s : Stmt} {holder : Holder} (h : s.Shaped N)
    (hdeclares : s.declared? ≠ none → holder.isScope = true) : s.Held N holder := by
  refine ⟨hdeclares, ?_, ?_⟩
  · cases s with
    | ifElse _ _ elseBranch =>
        cases elseBranch with
        | none => exact List.forall_mem_singleton.2 h.2.1
        | some _ => exact List.forall_mem_cons.2 ⟨h.2.1.1, List.forall_mem_singleton.2 h.2.2.1⟩
    | whileLoop _ _ => exact List.forall_mem_singleton.2 h.2.1
    | _ => exact List.forall_mem_nil _
  · cases s with
    | classDecl _ superclass _ =>
        refine List.forall_mem_cons.2 ⟨h.1, List.forall_mem_append.2
          ⟨?_, FunctionDecl.names_of_allShaped h.2.2⟩⟩
        cases superclass with
        | none => exact List.forall_mem_nil _
        | some ref => exact List.forall_mem_singleton.2 (h.2.1 ref rfl)
    | function _ => exact FunctionDecl.names_of_shaped h
    | varDecl _ _ => exact List.forall_mem_singleton.2 h.1
    | _ => exact List.forall_mem_nil _

/-- What declares nothing may stand anywhere. -/
theorem Stmt.Shaped.held_of_none {s : Stmt} {holder : Holder} (h : s.Shaped N)
    (hnone : s.declared? = none) : s.Held N holder :=
  h.held fun hdeclares => absurd hnone hdeclares

mutual

/-- By induction on the statement: what is inside it stands where it may, and declares good
names. -/
theorem Stmt.held_inside : ∀ {s : Stmt}, s.Shaped N → Stmt.AllHeld N s.inside
  | .block _, h => Stmt.held_standing rfl h
  | .classDecl _ _ _, ⟨_, _, hmethods⟩ => FunctionDecl.held_allInside hmethods
  | .function decl, h => @FunctionDecl.held_inside decl h
  | .ifElse _ _ none, ⟨_, hnone, hthen⟩ => by
      have hinside := Stmt.held_inside hthen
      exact .cons (hthen.held_of_none hnone) hinside
  | .ifElse _ _ (some _), ⟨_, ⟨hnone, hthen⟩, hnone', helse⟩ => by
      have hinside := Stmt.held_inside hthen
      have hinside' := Stmt.held_inside helse
      apply Stmt.AllHeld.append
      · exact .cons (hthen.held_of_none hnone) hinside
      · exact .cons (helse.held_of_none hnone') hinside'
  | .whileLoop _ _, ⟨_, hnone, hbody⟩ => by
      have hinside := Stmt.held_inside hbody
      exact .cons (hbody.held_of_none hnone) hinside
  | .expression _, _ | .print _, _ | .returnValue .., _ | .varDecl .., _ => List.forall_mem_nil _

/-- Everything that stands in a scope stands where it may. -/
theorem Stmt.held_standing {holder : Holder} (hholder : holder.isScope = true) :
    ∀ {ss : List Stmt}, Stmt.AllShaped N ss → Stmt.AllHeld N (Stmt.standing holder ss)
  | [], _ => List.forall_mem_nil _
  | _ :: _, h =>
      .append (.cons (h.1.held fun _ => hholder) (Stmt.held_inside h.1))
        (Stmt.held_standing hholder h.2)

theorem FunctionDecl.held_inside : ∀ {decl : FunctionDecl}, decl.Shaped N →
    Stmt.AllHeld N decl.inside
  | ⟨_, _, _⟩, h => Stmt.held_standing rfl h.2.2

theorem FunctionDecl.held_allInside : ∀ {decls : List FunctionDecl},
    FunctionDecl.AllShaped N decls → Stmt.AllHeld N (FunctionDecl.allInside decls)
  | [], _ => List.forall_mem_nil _
  | _ :: _, h => .append (FunctionDecl.held_inside h.1) (FunctionDecl.held_allInside h.2)

end

/-! ## Names of a source -/

/-- A word that is a name is not spelled like a keyword. -/
theorem LexicalClass.Names.ne_keyword {C : LexicalClass} {text : List Char}
    (h : C.Names text .identifier) : ∀ keyword ∈ Kind.keywords, keyword.text.toList ≠ text := by
  cases C with
  | word => exact h.elim (fun hkeyword => absurd hkeyword.1 (by decide)) And.right
  | number | string => exact nomatch h
  | operator => exact absurd h.1 (by decide)

namespace Token

/-- The names of a source are no keywords. -/
theorem lexeme_ne_keyword {source : String} {t : Token} (ht : t ∈ (scan source).1)
    (hkind : t.kind = .identifier) : ∀ keyword ∈ Kind.keywords, t.lexeme ≠ keyword.text := by
  intro keyword hkeyword heq
  have hword : t.word ∈ (scan source).1.map word := List.mem_map_of_mem ht
  rw [scan, map_word_ofPieces] at hword
  rcases List.mem_append.1 hword with hword | hword
  · rcases List.mem_map.1 hword with ⟨⟨kind, text⟩, hmem, hsame⟩
    -- the token is a lexeme of the division, and a word that is a keyword is named one
    rcases Piece.isWord_of_division (Piece.division_divide _) _ hmem with ⟨-, -, C, -, hnames⟩
    obtain rfl : kind = .identifier := (congrArg Prod.fst hsame).trans hkind
    have hlexeme : String.ofList text = t.lexeme := congrArg (·.2.1) hsame
    refine hnames.ne_keyword keyword hkeyword ?_
    rw [← heq, ← hlexeme, String.toList_ofList]
  -- the end of the input is no identifier
  · have heof : t.kind = .eof := congrArg Prod.fst (List.mem_singleton.1 hword)
    rw [hkind] at heof
    cases heof

end Token

/-! ## Programs -/

/-- A name token that is spelled like no keyword. -/
def Token.IsIdentifier (t : Token) : Prop :=
  t.kind = .identifier ∧ ∀ keyword ∈ Kind.keywords, t.lexeme ≠ keyword.text

namespace Program

/-- The statements of a source, whatever its faults, declare something only where a scope belongs to
what they stand in: branches and the bodies of loops are no declarations. All names that are
declared, read or assigned to, parameters and superclasses included, are identifiers and no
keywords; and all expressions have numbers that were given out when the source was read. -/
theorem declarations_held (source : String) (firstId : NodeId) :
    let p := ofSource source firstId
    (∀ part ∈ p.standing, (∀ branch ∈ part.2.branches, branch.declared? = none) ∧
      (part.2.declared? ≠ none → part.1.isScope = true) ∧
      ∀ name ∈ part.2.names, name.IsIdentifier) ∧
    (∀ e ∈ p.nodes, ∀ name ∈ e.names, name.IsIdentifier) ∧
    ∃ ids, Gives (Token.scan source).1 firstId ids ∧ ∀ e ∈ p.nodes, e.id ∈ ids := by
  intro p
  have hnames : Parser.Names Token.IsIdentifier (Token.scan source).1 :=
    fun t ht hkind => ⟨hkind, Token.lexeme_ne_keyword ht hkind⟩
  have hshaped : Stmt.AllShaped Token.IsIdentifier p.statements := shaped_ofTokens hnames firstId
  refine ⟨fun part hpart => ?_, Stmt.allNamed_allNodes hshaped, ?_⟩
  · have hprogram : Holder.program.isScope = true := rfl
    have hheld := Stmt.held_standing hprogram hshaped part hpart
    exact ⟨hheld.branches, hheld.declares, hheld.names⟩
  · rcases gives_between (Token.scan source).1 firstId with ⟨⟨ids, hids⟩, hbetween⟩
    exact ⟨ids, hids, (hbetween ids hids).1⟩

/-- A branch that declares something is a fault, and left out. The variable of a `for` stands in the
block that the loop is built into. -/
theorem declarations_held_faulty :
    let p := ofSource "if (true) var a; for (var i = 0;;) \x7b fun f(x) \x7b i = x; \x7d \x7d" 0
    p.errors.length = 1 ∧
      p.standing.map (fun part => (part.1, part.2.declared?)) =
        [(.program, none), (.block, some "i"), (.block, none), (.loop, none), (.block, some "f"),
          (.body, none)] ∧
      ∀ part ∈ p.standing, part.2.declared? ≠ none → part.1.isScope = true := by
  intro p
  rcases declarations_held _ 0 with ⟨hheld, -, -⟩
  exact ⟨by decide +kernel, by decide +kernel, fun part hpart => (hheld part hpart).2.1⟩

end Program

end LoxLang
