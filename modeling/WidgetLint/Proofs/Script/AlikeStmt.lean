import WidgetLint.Proofs.Script.AlikeExpr
import WidgetLint.Script.Parser

/-!
# The grammar of scripts does not look at positions

A statement is read before its place is known, so what a reader of statements returns is a function
of the place; two such functions belong together if they commute with the move (`MovesAlong`).

With the statements, every level of the grammar is natural (`level_natural`), and so are whole
expressions and scripts (`wholeExpression_alike`, `statements_alike`).
-/

namespace WidgetLint.Script.Parser

open Text

variable {f : Respelling}

/-- The second function gives for a moved place the moved statement of the first. -/
def MovesAlong (f : Respelling) (make make' : Span → Stmt) : Prop :=
  ∀ s, make' (s.move f.position) = (make s).move f.position

theorem atStatementEnd_alike : Alike f (Image id) atStatementEnd atStatementEnd :=
  peek_alike.andThen fun _ => .pure rfl

theorem endStatement_alike : Alike f (Image id) endStatement endStatement :=
  (eat_alike .semicolon).andThen fun _ => .ite (fun _ => .pure rfl) fun _ =>
    atStatementEnd_alike.andThen fun _ => .ite (fun _ => .pure rfl) fun _ => unexpected_alike

/-! ## Declarations -/

theorem declarationKind?_alike : Alike f (Image id) declarationKind? declarationKind? := by
  refine peek_alike.andThen fun t => peekSecond_alike.andThen fun next => ?_
  refine .ite (fun _ => .pure rfl) fun _ => .ite (fun _ => .pure rfl) fun _ => ?_
  exact .ite (fun _ => .ite (fun _ => .pure rfl) fun _ => .pure rfl) fun _ => .pure rfl

section
variable {sub : Level} (hsub : sub.Natural f)
include hsub

theorem declarator_alike (noIn : Bool) :
    Alike f (Image (Declarator.relabel (.moving f.position))) (declarator sub noIn)
      (declarator sub noIn) := by
  refine (bindingTarget_alike hsub).andThen fun target => (eat_alike .eq).andThen fun _ => ?_
  refine .ite (fun _ => ?_) fun _ => ?_
  · exact (hsub.assignment noIn).andThen fun _ =>
      .pure (by simp [Image, Declarator.relabel, relabelOption])
  · exact .pure (by simp [Image, Declarator.relabel, relabelOption])

theorem declarators_alike (noIn : Bool) :
    Alike f (Image (List.map (Declarator.relabel (.moving f.position)))) (declarators sub noIn)
      (declarators sub noIn) := by
  have hitem : Alike f (Image (Option.map (Declarator.relabel (.moving f.position))))
      (do if ← eat .comma then return some (← declarator sub noIn) else return none)
      (do if ← eat .comma then return some (← declarator sub noIn) else return none) :=
    (eat_alike .comma).andThen fun _ =>
      .ite (fun _ => (declarator_alike hsub noIn).andThen fun _ => .pure rfl) fun _ => .pure rfl
  exact advance_alike.andThen fun _ => (declarator_alike hsub noIn).andThen fun _ =>
    (many_alike hitem).andThen fun _ => .pure rfl

theorem declaration_alike (kind : VarKind) :
    Alike f (MovesAlong f) (declaration sub kind) (declaration sub kind) :=
  (declarators_alike hsub false).andThen fun _ => endStatement_alike.andThen fun _ =>
    .pure fun _ => by simp [Stmt.relabel, relabelDeclarators_eq]

theorem functionDeclaration_alike :
    Alike f (MovesAlong f) (functionDeclaration sub) (functionDeclaration sub) := by
  refine (eat_alike .star).andThen fun _ => functionName?_alike.andThen fun name => ?_
  cases name with
  | none => exact unexpected_alike
  | some name =>
    exact (functionRest_alike hsub).andThen fun _ =>
      .pure fun _ => by simp [Stmt.relabel, relabelAll_eq, relabelBody_eq]

/-! ## Loops -/

theorem forInit_alike :
    Alike f (Image (ForInit.relabel (.moving f.position))) (forInit sub) (forInit sub) := by
  refine declarationKind?_alike.andThen fun kind => ?_
  cases kind with
  | some kind =>
    exact (declarators_alike hsub true).andThen fun _ =>
      .pure (by simp [Image, ForInit.relabel, relabelDeclarators_eq])
  | none =>
    exact (sequence_alike hsub true).andThen fun _ => .pure (by simp [Image, ForInit.relabel])

theorem unlessAt_alike (s : Symbol) :
    Alike f (Image (Option.map (Expr.move f.position))) (unlessAt sub s) (unlessAt sub s) :=
  (check_alike s).andThen fun _ => .ite (fun _ => .pure rfl) fun _ =>
    (sequence_alike hsub false).andThen fun _ => .pure rfl

theorem forEachRest_alike (left : ForInit) :
    Alike f (MovesAlong f) (forEachRest sub left)
      (forEachRest sub (left.relabel (.moving f.position))) := by
  refine (checkWord_alike "of").andThen fun of => advance_alike.andThen fun _ => ?_
  have hbody (right : Expr) : Alike f (MovesAlong f)
      (do
        expect .rparen
        let body ← sub.statement
        return fun span => .forEach span left right body of)
      (do
        expect .rparen
        let body ← sub.statement
        return fun span =>
          .forEach span (left.relabel (.moving f.position)) (right.move f.position) body of) :=
    (expect_alike .rparen).andThen fun _ => hsub.statement.andThen fun _ =>
      .pure fun _ => by simp [Stmt.relabel]
  refine .ite (fun _ => ?_) fun _ => ?_
  · exact (hsub.assignment false).andThen hbody
  · exact (sequence_alike hsub false).andThen hbody

theorem forLoopRest_alike (init : Option ForInit) :
    Alike f (MovesAlong f) (forLoopRest sub init)
      (forLoopRest sub (init.map (ForInit.relabel (.moving f.position)))) := by
  refine (expect_alike .semicolon).andThen fun _ => ?_
  refine (unlessAt_alike hsub .semicolon).andThen fun test => ?_
  refine (expect_alike .semicolon).andThen fun _ => ?_
  refine (unlessAt_alike hsub .rparen).andThen fun update => ?_
  refine (expect_alike .rparen).andThen fun _ => hsub.statement.andThen fun body => ?_
  exact .pure fun _ => by simp [Stmt.relabel, relabelInit_eq, relabelOption_eq]

theorem forStatement_alike : Alike f (MovesAlong f) (forStatement sub) (forStatement sub) := by
  refine advance_alike.andThen fun _ => (expect_alike .lparen).andThen fun _ => ?_
  refine (check_alike .semicolon).andThen fun _ => .ite (fun _ => ?_) fun _ => ?_
  · exact forLoopRest_alike hsub none
  · refine (forInit_alike hsub).andThen fun left => peek_alike.andThen fun t => ?_
    exact .ite (fun _ => forEachRest_alike hsub left) fun _ => forLoopRest_alike hsub (some left)

theorem whileStatement_alike :
    Alike f (MovesAlong f) (whileStatement sub) (whileStatement sub) :=
  advance_alike.andThen fun _ => (parenthesized_alike hsub).andThen fun _ =>
    hsub.statement.andThen fun _ => .pure fun _ => by simp [Stmt.relabel]

theorem doStatement_alike : Alike f (MovesAlong f) (doStatement sub) (doStatement sub) := by
  refine advance_alike.andThen fun _ => hsub.statement.andThen fun body => ?_
  refine (expectWord_alike "while").andThen fun _ => (parenthesized_alike hsub).andThen fun test => ?_
  exact (eat_alike .semicolon).andThen fun _ => .pure fun _ => by simp [Stmt.relabel]

/-! ## Branches and jumps -/

theorem ifStatement_alike : Alike f (MovesAlong f) (ifStatement sub) (ifStatement sub) := by
  refine advance_alike.andThen fun _ => (parenthesized_alike hsub).andThen fun test => ?_
  refine hsub.statement.andThen fun whenTrue => (eatWord_alike "else").andThen fun _ => ?_
  refine .ite (fun _ => ?_) fun _ => ?_
  · exact hsub.statement.andThen fun _ => .pure fun _ => by simp [Stmt.relabel, relabelElse]
  · exact .pure fun _ => by simp [Stmt.relabel, relabelElse]

theorem returnStatement_alike :
    Alike f (MovesAlong f) (returnStatement sub) (returnStatement sub) := by
  have hend (value : Option Expr) : Alike f (MovesAlong f)
      (do
        endStatement
        return fun span => .returning span value)
      (do
        endStatement
        return fun span => .returning span (value.map (Expr.move f.position))) :=
    endStatement_alike.andThen fun _ => .pure fun _ => by simp [Stmt.relabel, relabelOption_eq]
  refine advance_alike.andThen fun _ => atStatementEnd_alike.andThen fun _ => ?_
  exact .ite (fun _ => hend none) fun _ => (sequence_alike hsub false).some.andThen hend

omit hsub in
theorem jumpLabel?_alike : Alike f (Image id) jumpLabel? jumpLabel? := by
  refine peek_alike.andThen fun t => ?_
  rw [Token.respell_name?, Token.respell_newlineBefore]
  split
  · exact advance_alike.andThen fun _ => .pure rfl
  · exact .pure rfl

omit hsub in
theorem jumpStatement_alike {make : Span → Option String → Stmt}
    (h : ∀ label, MovesAlong f (make · label) (make · label)) :
    Alike f (MovesAlong f) (jumpStatement make) (jumpStatement make) :=
  advance_alike.andThen fun _ => jumpLabel?_alike.andThen fun label =>
    endStatement_alike.andThen fun _ => .pure (h label)

theorem throwStatement_alike :
    Alike f (MovesAlong f) (throwStatement sub) (throwStatement sub) := by
  have hvalue : Alike f (MovesAlong f)
      (do
        let value ← sequence sub false
        endStatement
        return fun span => .throwing span value)
      (do
        let value ← sequence sub false
        endStatement
        return fun span => .throwing span value) :=
    (sequence_alike hsub false).andThen fun _ => endStatement_alike.andThen fun _ =>
      .pure fun _ => by simp [Stmt.relabel]
  refine advance_alike.andThen fun _ => peek_alike.andThen fun t => .ite (fun _ => ?_) fun _ => hvalue
  exact fail_alike.bind (R := Image id) fun _ _ _ => hvalue

theorem handlerParam?_alike :
    Alike f (Image (Option.map (Expr.move f.position))) (handlerParam? sub)
      (handlerParam? sub) := by
  refine (eat_alike .lparen).andThen fun _ => .ite (fun _ => ?_) fun _ => .pure rfl
  exact (bindingTarget_alike hsub).andThen fun _ => (expect_alike .rparen).andThen fun _ =>
    .pure rfl

theorem tryStatement_alike : Alike f (MovesAlong f) (tryStatement sub) (tryStatement sub) := by
  refine advance_alike.andThen fun _ => (block_alike hsub).andThen fun body => ?_
  have hmake (handler : Option Handler) (finalizer : Option (List Stmt)) :
      Alike f (MovesAlong f)
        (do
          if handler.isNone && finalizer.isNone then fail .missingHandler
          return fun span => .trying span body handler finalizer)
        (do
          if (handler.map (Handler.relabel (.moving f.position))).isNone &&
            (finalizer.map (List.map (Stmt.move f.position))).isNone then fail .missingHandler
          return fun span => .trying span (body.map (Stmt.move f.position))
            (handler.map (Handler.relabel (.moving f.position)))
            (finalizer.map (List.map (Stmt.move f.position)))) := by
    rw [Option.isNone_map, Option.isNone_map]
    have hpure : Alike f (MovesAlong f) (pure fun span => .trying span body handler finalizer)
        (pure fun span => .trying span (body.map (Stmt.move f.position))
          (handler.map (Handler.relabel (.moving f.position)))
          (finalizer.map (List.map (Stmt.move f.position)))) :=
      .pure fun _ => by
        simp [Stmt.relabel, relabelBody_eq, relabelHandler_eq, relabelFinalizer_eq]
    refine .ite (fun _ => ?_) fun _ => hpure
    exact fail_alike.bind (R := Image id) fun _ _ _ => hpure
  have hfinally (handler : Option Handler) : Alike f (MovesAlong f)
      (do
        let finalizer ← if ← eatWord "finally" then some <$> block sub else pure none
        if handler.isNone && finalizer.isNone then fail .missingHandler
        return fun span => .trying span body handler finalizer)
      (do
        let finalizer ← if ← eatWord "finally" then some <$> block sub else pure none
        if (handler.map (Handler.relabel (.moving f.position))).isNone && finalizer.isNone then
          fail .missingHandler
        return fun span => .trying span (body.map (Stmt.move f.position))
          (handler.map (Handler.relabel (.moving f.position))) finalizer) := by
    exact (eatWord_alike "finally").andThen fun _ =>
      .ite (fun _ => (block_alike hsub).some.andThen (hmake handler)) fun _ => hmake handler none
  refine (eatWord_alike "catch").andThen fun _ => .ite (fun _ => ?_) fun _ => hfinally none
  refine (handlerParam?_alike hsub).andThen fun param => (block_alike hsub).andThen fun block => ?_
  have h := hfinally (some (.mk param block))
  simp only [Option.map_some, Handler.relabel, relabelOption_eq, relabelBody_eq] at h
  exact h

theorem caseTest_alike :
    Alike f (Image (Option.map (Expr.move f.position))) (caseTest sub) (caseTest sub) := by
  refine (eatWord_alike "case").andThen fun _ => .ite (fun _ => ?_) fun _ => ?_
  · exact (sequence_alike hsub false).andThen fun _ => .pure rfl
  · exact (eatWord_alike "default").andThen fun _ =>
      .ite (fun _ => .pure rfl) fun _ => unexpected_alike

theorem caseBody_alike :
    Alike f (Image (List.map (Stmt.move f.position))) (caseBody sub) (caseBody sub) := by
  refine many_alike (peek_alike.andThen fun t => .ite (fun _ => .pure rfl) fun _ => ?_)
  have hstmt : Alike f (Image (Option.map (Stmt.move f.position))) (do return some (← sub.statement))
      (do return some (← sub.statement)) := hsub.statement.andThen fun _ => .pure rfl
  refine .ite (fun _ => ?_) fun _ => hstmt
  exact unexpected_alike.bind (R := Image id) fun _ _ _ => hstmt

theorem switchStatement_alike :
    Alike f (MovesAlong f) (switchStatement sub) (switchStatement sub) := by
  refine advance_alike.andThen fun _ => (parenthesized_alike hsub).andThen fun subject => ?_
  refine (expect_alike .lbrace).andThen fun _ => ?_
  have hcase : Alike f (Image (Option.map (Case.relabel (.moving f.position))))
      (do
        if ← eat .rbrace then return none
        let test ← caseTest sub
        expect .colon
        return some (Case.mk test (← caseBody sub)))
      (do
        if ← eat .rbrace then return none
        let test ← caseTest sub
        expect .colon
        return some (Case.mk test (← caseBody sub))) := by
    refine (eat_alike .rbrace).andThen fun _ => .ite (fun _ => .pure rfl) fun _ => ?_
    refine (caseTest_alike hsub).andThen fun test => (expect_alike .colon).andThen fun _ => ?_
    exact (caseBody_alike hsub).andThen fun _ =>
      .pure (by simp [Image, Case.relabel, relabelOption_eq, relabelBody_eq])
  exact (many_alike hcase).andThen fun _ =>
    .pure fun _ => by simp [Stmt.relabel, relabelCases_eq]

/-! ## Statements -/

theorem expressionStatement_alike :
    Alike f (MovesAlong f) (expressionStatement sub) (expressionStatement sub) :=
  (sequence_alike hsub false).andThen fun _ => endStatement_alike.andThen fun _ =>
    .pure fun _ => by simp [Stmt.relabel]

theorem labeledOrExpression_alike (name : String) :
    Alike f (MovesAlong f) (labeledOrExpression sub name) (labeledOrExpression sub name) := by
  refine peekSecond_alike.andThen fun t => .ite (fun _ => ?_) fun _ => expressionStatement_alike hsub
  exact advance_alike.andThen fun _ => advance_alike.andThen fun _ =>
    hsub.statement.andThen fun _ => .pure fun _ => by simp [Stmt.relabel]

theorem wordStatement_alike (name : String) :
    Alike f (MovesAlong f) (wordStatement sub name) (wordStatement sub name) := by
  refine declarationKind?_alike.andThen fun kind => ?_
  cases kind with
  | some kind => exact declaration_alike hsub kind
  | none =>
    simp only [id]
    split
    · exact advance_alike.andThen fun _ => functionDeclaration_alike hsub
    · refine asyncFunctionAhead_alike.andThen fun _ => .ite (fun _ => ?_) fun _ =>
        labeledOrExpression_alike hsub _
      exact advance_alike.andThen fun _ => advance_alike.andThen fun _ =>
        functionDeclaration_alike hsub
    · exact ifStatement_alike hsub
    · exact forStatement_alike hsub
    · exact whileStatement_alike hsub
    · exact doStatement_alike hsub
    · exact returnStatement_alike hsub
    · exact jumpStatement_alike fun _ _ => by simp [Stmt.relabel]
    · exact jumpStatement_alike fun _ _ => by simp [Stmt.relabel]
    · exact throwStatement_alike hsub
    · exact tryStatement_alike hsub
    · exact switchStatement_alike hsub
    · exact advance_alike.andThen fun _ => endStatement_alike.andThen fun _ =>
        .pure fun _ => by simp [Stmt.relabel]
    · exact labeledOrExpression_alike hsub _

theorem statementAt_alike :
    Alike f (Image (Stmt.move f.position)) (statementAt sub) (statementAt sub) := by
  refine here_alike.andThen fun start => peek_alike.andThen fun t => ?_
  have hmake (make make' : Span → Stmt) (h : MovesAlong f make make') :
      Alike f (Image (Stmt.move f.position)) (do return make (← spanFrom start))
        (do return make' (← spanFrom (f.position start))) :=
    (spanFrom_alike start).andThen fun s => .pure (h s)
  rw [Token.respell_body]
  split
  · refine (block_alike hsub).andThen fun body => ?_
    exact hmake (.block · body) (.block · (body.map (Stmt.move f.position))) fun _ => by
      simp [Stmt.relabel, relabelBody_eq]
  · exact advance_alike.andThen fun _ => hmake .empty .empty fun _ => by simp [Stmt.relabel]
  · exact (wordStatement_alike hsub _).bind hmake
  · exact (expressionStatement_alike hsub).bind hmake

end

/-! ## Levels and whole texts -/

theorem exhausted_natural : Level.exhausted.Natural f :=
  ⟨fail_alike, fun _ => fail_alike, fun _ _ => fail_alike, fail_alike, fail_alike⟩

/-- **No part of the grammar looks at positions.** -/
theorem level_natural (descents budget : Nat) : (level descents budget).Natural f := by
  induction descents generalizing budget with
  | zero => exact exhausted_natural
  | succ descents ih =>
    rw [level]
    split
    · exact exhausted_natural
    · exact ⟨statementAt_alike (ih _), fun noIn => assignmentAt_alike (ih _) noIn,
        fun noIn least => binaryAt_alike ih _ noIn least, unaryAt_alike ih _,
        constructionAt_alike ih _⟩

theorem wholeExpression_alike :
    Alike f (Image (Expr.move f.position)) wholeExpression wholeExpression :=
  (sequence_alike (level_natural _ _) false).andThen fun _ => atEnd_alike.andThen fun _ =>
    .ite (fun _ => .pure rfl) fun _ => unexpected_alike

theorem statements_alike :
    Alike f (Image (List.map (Stmt.move f.position))) statements statements :=
  many_alike (atEnd_alike.andThen fun _ => .ite (fun _ => .pure rfl) fun _ =>
    (level_natural _ _).statement.andThen fun _ => .pure rfl)

end WidgetLint.Script.Parser
