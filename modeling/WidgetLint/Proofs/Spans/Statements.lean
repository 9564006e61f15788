import WidgetLint.Proofs.Spans.Expressions
import WidgetLint.Script.Parser

/-!
# The parts that readers of statements add

A statement is read before its place is known in full. Its reader returns what makes the statement of
any place; its direct parts were read since the statement was opened (`Made`). Tied together level by
level, all readers add the parts they return (`level_lays`).
-/

namespace WidgetLint.Script.Parser

open Text

/-- A statement whose place is still to be given: its direct parts are what was read since it was
opened. -/
def Made (text : List Char) (start : Position) (make : Span → Stmt) (i : Input) : Prop :=
  ∃ ps, Laid text start true ps i ∧ ∀ s, (make s).span = s ∧ (make s).parts = ps

/-- The reader returns what makes a statement of the tokens it takes. -/
def LaysMade (text : List Char) (p : Parser (Span → Stmt)) : Prop :=
  ∀ start, Yields (Laid text start false []) p (Made text start)

section
variable {text : List Char} {base start : Position} {moved : Bool} {ps : List Part}

/-! ## Ends and declarations -/

theorem atStatementEnd_ite {β : Type} {P : Input → Prop} {R : β → Input → Prop}
    {yes no : Parser β} (hyes : Yields P yes R) (hno : Yields P no R) :
    Yields P (atStatementEnd >>= fun b => if b = true then yes else no) R :=
  Yields.bind (peek_yields.bind fun _ => .pure fun _ h => h.2.2 : Yields P atStatementEnd fun _ => P)
    fun _ => .ite (fun _ => hyes) fun _ => hno

theorem endStatement_laid :
    Yields (Laid text base moved ps) endStatement fun _ => Laid text base moved ps :=
  eat_ite (.pure fun _ h => h.weaken) (atStatementEnd_ite (.pure fun _ h => h) unexpected_yields)

theorem declarationKind?_stays {P : Input → Prop} : Yields P declarationKind? fun _ => P := by
  refine peek_yields.bind fun t => peekSecond_then fun next => Yields.from (P := P) ?_ fun _ h => h.2.2
  have hdone (o : Option VarKind) : Yields P (pure o) fun _ => P := .pure fun _ h => h
  refine .ite (fun _ => hdone _) fun _ => .ite (fun _ => hdone _) fun _ => ?_
  exact .ite (fun _ => .ite (fun _ => hdone _) fun _ => hdone _) fun _ => hdone _

section
variable {sub : Level} (hsub : sub.Lays text)
include hsub

theorem declarator_lays (noIn : Bool) : Lays text (declarator sub noIn) Declarator.parts :=
  fun _ _ _ => (bindingTarget_lays hsub).then fun _ => eat_ite
    ((hsub.assignment noIn).then fun _ => .pure fun _ h => by simpa [Declarator.parts, optionalPart] using h)
    (.pure fun _ h => h)

theorem declarators_lays (noIn : Bool) :
    Lays text (declarators sub noIn) (·.flatMap Declarator.parts) :=
  fun _ _ _ => advance_laid.bind fun _ => (declarator_lays hsub noIn).then fun _ =>
    (many_adds (afterComma_lays (declarator_lays hsub noIn))).then fun _ =>
      .pure fun _ h => by simpa only [List.flatMap_cons, List.append_assoc] using h

theorem declaration_laysMade (kind : VarKind) : LaysMade text (declaration sub kind) :=
  fun _ => (declarators_lays hsub false).then fun _ => endStatement_laid.bind fun _ =>
    .pure fun _ h => ⟨_, h, fun _ => ⟨rfl, rfl⟩⟩

theorem functionDeclaration_laid :
    Yields (Laid text start moved []) (functionDeclaration sub) (Made text start) := by
  refine (eat_stays .star).bind fun _ => functionName?_laid.bind fun o => ?_
  cases o with
  | none => exact unexpected_yields
  | some name =>
    exact (functionRest_lays hsub).then fun _ => .pure fun _ h => ⟨_, h, fun _ => ⟨rfl, rfl⟩⟩

/-! ## Loops -/

theorem forInit_lays : Lays text (forInit sub) ForInit.parts := by
  refine fun base moved ps => declarationKind?_stays.bind fun o => ?_
  cases o with
  | none => exact (sequence_lays hsub true).then fun _ => .pure fun _ h => h
  | some kind => exact (declarators_lays hsub true).then fun _ => .pure fun _ h => h

theorem unlessAt_adds (s : Symbol) : Adds text (unlessAt sub s) optionalPart :=
  fun _ _ _ => check_ite (.pure fun _ h => by simpa [optionalPart] using h.1)
    ((sequence_lays hsub false).then fun _ => .pure fun _ h => h.weaken)

theorem forEachRest_laid {left : ForInit} :
    Yields (Laid text start true left.parts) (forEachRest sub left) (Made text start) := by
  have hrest {right : Expr} (of : Bool) :
      Yields (Laid text start true (left.parts ++ [Part.expr right])) (do
        expect .rparen
        let body ← sub.statement
        return fun span => Stmt.forEach span left right body of) (Made text start) :=
    (expect_laid .rparen).bind fun _ => hsub.statement.then fun _ =>
      .pure fun _ h => ⟨_, h, fun _ => ⟨rfl, by simp [Stmt.parts]⟩⟩
  refine (checkWord_yields "of").bind fun of => ?_
  refine Yields.from (P := Laid text start true left.parts) ?_ fun _ h => h.2
  refine advance_laid.bind fun _ => .ite (fun _ => ?_) fun _ => ?_
  · exact (hsub.assignment false).then fun _ => hrest of
  · exact (sequence_lays hsub false).then fun _ => hrest of

theorem forLoopRest_laid {init : Option ForInit} (hinit : init.toList.flatMap ForInit.parts = ps) :
    Yields (Laid text start moved ps) (forLoopRest sub init) (Made text start) :=
  (expect_laid .semicolon).bind fun _ => (unlessAt_adds hsub .semicolon).then fun _ =>
    (expect_laid .semicolon).bind fun _ => (unlessAt_adds hsub .rparen).then fun _ =>
      (expect_laid .rparen).bind fun _ => hsub.statement.then fun _ =>
        .pure fun _ h => ⟨_, h, fun _ => ⟨rfl, by rw [← hinit]; rfl⟩⟩

theorem forStatement_laysMade : LaysMade text (forStatement sub) := by
  refine fun start => advance_laid.bind fun _ => (expect_laid .lparen).bind fun _ => ?_
  refine check_ite (Yields.left (forLoopRest_laid hsub (by simp))) ?_
  refine (forInit_lays hsub).then fun left => peek_then fun t => Yields.left ?_
  exact .ite (fun _ => forEachRest_laid hsub) fun _ => forLoopRest_laid hsub (by simp)

theorem whileStatement_laysMade : LaysMade text (whileStatement sub) :=
  fun _ => advance_laid.bind fun _ => (parenthesized_lays hsub).then fun _ =>
    hsub.statement.then fun _ => .pure fun _ h => ⟨_, h, fun _ => ⟨rfl, rfl⟩⟩

theorem doStatement_laysMade : LaysMade text (doStatement sub) :=
  fun _ => advance_laid.bind fun _ => hsub.statement.then fun _ => (expectWord_laid "while").bind
    fun _ => (parenthesized_lays hsub).then fun _ => (eat_stays .semicolon).bind fun _ =>
      .pure fun _ h => ⟨_, h, fun _ => ⟨rfl, rfl⟩⟩

/-! ## Branches and jumps -/

theorem ifStatement_laysMade : LaysMade text (ifStatement sub) :=
  fun _ => advance_laid.bind fun _ => (parenthesized_lays hsub).then fun _ =>
    hsub.statement.then fun _ => eatWord_ite
      (hsub.statement.then fun _ => .pure fun _ h => ⟨_, h, fun _ => ⟨rfl, rfl⟩⟩)
      (.pure fun _ h => ⟨_, h, fun _ => ⟨rfl, rfl⟩⟩)

theorem returnStatement_laid {t : Token} (hbody : t.body ≠ .eof) :
    Yields (fun i => Laid text start false [] i ∧ t = i.current) (returnStatement sub)
      (Made text start) := by
  have hend (value : Option Expr) : Yields (Laid text start true (optionalPart value)) (do
      endStatement
      return fun span => Stmt.returning span value) (Made text start) :=
    endStatement_laid.bind fun _ => .pure fun _ h => ⟨_, h, fun _ => ⟨rfl, rfl⟩⟩
  refine (advance_peeked hbody).bind fun _ => atStatementEnd_ite ?_ ?_
  · exact hend none
  · rw [map_eq_pure_bind, bind_assoc]
    refine (sequence_lays hsub false).then fun value => ?_
    rw [pure_bind]
    exact hend (some value)

omit hsub in
theorem jumpLabel?_laid : Yields (Laid text base moved ps) jumpLabel?
    fun _ => Laid text base moved ps := by
  refine peek_then fun t => Yields.left ?_
  split
  · exact advance_laid.bind fun _ => .pure fun _ h => h
  · exact .pure fun _ h => h

omit hsub in
theorem jumpStatement_laid {make : Span → Option String → Stmt}
    (hmake : ∀ s label, (make s label).span = s ∧ (make s label).parts = []) {t : Token}
    (hbody : t.body ≠ .eof) :
    Yields (fun i => Laid text start false [] i ∧ t = i.current) (jumpStatement make)
      (Made text start) :=
  (advance_peeked hbody).bind fun _ => jumpLabel?_laid.bind fun label =>
    endStatement_laid.bind fun _ => .pure fun _ h => ⟨_, h, fun s => hmake s label⟩

theorem throwStatement_laysMade : LaysMade text (throwStatement sub) :=
  fun _ => advance_laid.bind fun _ => peek_then fun _ => Yields.left <| .ite (fun _ => fail_yields)
    fun _ => (sequence_lays hsub false).then fun _ => endStatement_laid.bind fun _ =>
      .pure fun _ h => ⟨_, h, fun _ => ⟨rfl, rfl⟩⟩

theorem handlerParam?_adds : Adds text (handlerParam? sub) optionalPart :=
  fun _ _ _ => eat_ite
    ((bindingTarget_lays hsub).then fun _ => (expect_laid .rparen).bind fun _ =>
      .pure fun _ h => h.weaken)
    (.pure fun _ h => by simpa [optionalPart] using h)

theorem tryStatement_laysMade : LaysMade text (tryStatement sub) := by
  refine fun start => advance_laid.bind fun _ => (block_lays hsub).then fun body => ?_
  have hend {handler : Option Handler} (finalizer : Option (List Stmt)) :
      Yields (Laid text start true (body.map .stmt ++ handler.toList.flatMap Handler.parts ++
          finalizer.toList.flatMap (·.map .stmt))) (do
        if handler.isNone && finalizer.isNone then fail .missingHandler
        return fun span => Stmt.trying span body handler finalizer) (Made text start) :=
    .ite (fun _ => Yields.bind (Q := fun _ _ => False) fail_yields fun _ _ _ _ _ h => h.elim)
      fun _ => .pure fun _ h => ⟨_, h, fun _ => ⟨rfl, rfl⟩⟩
  have hfinally (handler : Option Handler) : Yields
      (Laid text start true (body.map .stmt ++ handler.toList.flatMap Handler.parts)) (do
        let finalizer ← if ← eatWord "finally" then some <$> block sub else pure none
        if handler.isNone && finalizer.isNone then fail .missingHandler
        return fun span => Stmt.trying span body handler finalizer) (Made text start) := by
    refine eatWord_ite ?_ ?_
    · rw [map_eq_pure_bind, bind_assoc]
      refine (block_lays hsub).then fun rest => ?_
      rw [pure_bind]
      exact (hend (some rest)).from fun _ h => by simpa using h
    · rw [pure_bind]
      exact (hend none).from fun _ h => by simpa using h
  refine eatWord_ite ?_ ?_
  · refine (handlerParam?_adds hsub).then fun param => (block_lays hsub).then fun rest => ?_
    rw [pure_bind]
    exact (hfinally (some (.mk param rest))).from fun _ h => by simpa [Handler.parts] using h
  · rw [pure_bind]
    exact (hfinally none).from fun _ h => by simpa using h

theorem caseTest_lays : Lays text (caseTest sub) optionalPart :=
  fun _ _ _ => eatWord_ite ((sequence_lays hsub false).then fun _ => .pure fun _ h => h) <|
    eatWord_ite (.pure fun _ h => by simpa [optionalPart] using h) unexpected_yields

theorem caseBody_adds : Adds text (caseBody sub) (·.map .stmt) := by
  refine many_adds_each fun base moved ps => peek_then fun t => Yields.left ?_
  refine .ite (fun _ => .pure fun _ h => ⟨by simp, fun _ => h⟩) fun _ => ?_
  refine .ite (fun _ => unexpected_yields) fun _ => hsub.statement.then fun s => .pure fun _ h => ?_
  exact ⟨fun a ha => by cases ha; exact h, by simp⟩

theorem switchStatement_laysMade : LaysMade text (switchStatement sub) := by
  have hcase : LaysItem text (do
      if ← eat .rbrace then return none
      let test ← caseTest sub
      expect .colon
      return some (Case.mk test (← caseBody sub))) Case.parts := by
    refine fun base moved ps => eat_ite (.pure fun _ h => ⟨by simp, fun _ => h.weaken⟩) ?_
    refine (caseTest_lays hsub).then fun test => (expect_laid .colon).bind fun _ => ?_
    refine (caseBody_adds hsub).then fun body => .pure fun _ h => ⟨fun a ha => ?_, by simp⟩
    cases ha
    rwa [Case.parts, ← List.append_assoc]
  exact fun _ => advance_laid.bind fun _ => (parenthesized_lays hsub).then fun _ =>
    (expect_laid .lbrace).bind fun _ => (many_adds hcase).then fun _ =>
      .pure fun _ h => ⟨_, h, fun _ => ⟨rfl, rfl⟩⟩

/-! ## Statements -/

theorem expressionStatement_laysMade : LaysMade text (expressionStatement sub) :=
  fun _ => (sequence_lays hsub false).then fun _ => endStatement_laid.bind fun _ =>
    .pure fun _ h => ⟨_, h, fun _ => ⟨rfl, rfl⟩⟩

theorem labeledOrExpression_laysMade (name : String) : LaysMade text (labeledOrExpression sub name) :=
  fun start => peekSecond_then fun _ => .ite
    (fun _ => advance_laid.bind fun _ => advance_laid.bind fun _ => hsub.statement.then fun _ =>
      .pure fun _ h => ⟨_, h, fun _ => ⟨rfl, rfl⟩⟩)
    fun _ => expressionStatement_laysMade hsub start

theorem wordStatement_laid {t : Token} {name : String} (hbody : t.body = .word name) :
    Yields (fun i => Laid text start false [] i ∧ t = i.current) (wordStatement sub name)
      (Made text start) := by
  have hword : t.body ≠ .eof := by simp [hbody]
  refine declarationKind?_stays.bind fun o => ?_
  cases o with
  | some kind => exact (declaration_laysMade hsub kind start).left
  | none =>
    dsimp only
    split
    · exact Yields.left <| advance_laid.bind fun _ => functionDeclaration_laid hsub
    · refine Yields.left <| asyncFunctionAhead_then fun _ => .ite (fun _ => ?_) fun _ => ?_
      · exact advance_laid.bind fun _ => advance_laid.bind fun _ => functionDeclaration_laid hsub
      · exact labeledOrExpression_laysMade hsub _ start
    · exact (ifStatement_laysMade hsub start).left
    · exact (forStatement_laysMade hsub start).left
    · exact (whileStatement_laysMade hsub start).left
    · exact (doStatement_laysMade hsub start).left
    · exact returnStatement_laid hsub hword
    · exact jumpStatement_laid (fun _ _ => ⟨rfl, rfl⟩) hword
    · exact jumpStatement_laid (fun _ _ => ⟨rfl, rfl⟩) hword
    · exact (throwStatement_laysMade hsub start).left
    · exact (tryStatement_laysMade hsub start).left
    · exact (switchStatement_laysMade hsub start).left
    · exact (advance_peeked hword).bind fun _ => endStatement_laid.bind fun _ =>
        .pure fun _ h => ⟨_, h, fun _ => ⟨rfl, rfl⟩⟩
    · exact (labeledOrExpression_laysMade hsub _ start).left

theorem statementAt_lays : Lays text (statementAt sub) fun s => [.stmt s] := by
  have hend {start : Position} (make : Span → Stmt) :
      Yields (Made text start make) (do return make (← spanFrom start))
        fun s => Laid text start true [.stmt s] := by
    rintro i _ j hi ⟨ps, h, hmake⟩ heq
    cases heq
    exact ⟨hi, h.close (p := .stmt (make _)) (hmake _).1 (hmake _).2 trivial⟩
  refine lays_here fun start => peek_then fun t => ?_
  split
  · refine Yields.left <| (block_lays hsub).then fun body => ?_
    rw [pure_bind]
    exact (hend fun span => .block span body).from fun _ h => ⟨_, h, fun _ => ⟨rfl, rfl⟩⟩
  · rename_i hbody
    refine (advance_peeked (by simp [hbody])).bind fun _ => ?_
    rw [pure_bind]
    exact (hend .empty).from fun _ h => ⟨_, h, fun _ => ⟨rfl, rfl⟩⟩
  · rename_i hbody
    exact (wordStatement_laid hsub hbody).bind hend
  · exact Yields.left ((expressionStatement_laysMade hsub start).bind hend)

end

/-! ## Levels -/

theorem exhausted_lays : Level.exhausted.Lays text :=
  ⟨fun _ _ _ => fail_yields, fun _ _ _ _ => fail_yields, fun _ _ _ _ _ => fail_yields,
    fun _ _ _ => fail_yields, fun _ _ _ => fail_yields⟩

/-- **All readers add the parts they return.** -/
theorem level_lays (descents budget : Nat) : (level descents budget).Lays text := by
  induction descents generalizing budget with
  | zero => exact exhausted_lays
  | succ descents ih =>
    rw [level]
    split
    · exact exhausted_lays
    · exact ⟨statementAt_lays (ih _), assignmentAt_lays (ih _), fun _ _ => binaryAt_lays ih _ _ _,
        unaryAt_lays ih _, constructionAt_lays ih _⟩

theorem statements_adds : Adds text statements (·.map .stmt) :=
  many_adds_each fun _ _ _ => atEnd_ite (.pure fun _ h => ⟨by simp, fun _ => h⟩) <|
    (level_lays _ _).statement.then fun s => .pure fun _ h => ⟨fun a ha => by cases ha; exact h, by simp⟩

theorem wholeExpression_lays : Lays text wholeExpression fun e => [.expr e] :=
  fun _ _ _ => (sequence_lays (level_lays _ _) false).then fun _ =>
    atEnd_ite (.pure fun _ h => h) unexpected_yields

end

end WidgetLint.Script.Parser
