import WidgetLint.Proofs.Safety.Counted

/-!
# The grammar leaves the counter alone

A part of the grammar that does not spend budget itself leaves the counter as it found it, if the
parts below it do (`LevelOf.Counts`). The parts that spend give back on every way out what they have
spent, so all levels do (`level_counts`).
-/

namespace WidgetLint.Script

open Text WidgetLint.Script.Parser Counting

/-- The parts of a level leave the counter at `depth` and read what the parts of the other level
read. -/
structure Parser.LevelOf.Counts (depth : Nat) (q : LevelOf Counting) (p : Level) : Prop where
  statement : Counting.Counts depth depth q.statement p.statement
  assignment (noIn : Bool) : Counting.Counts depth depth (q.assignment noIn) (p.assignment noIn)
  binary (noIn : Bool) (least : Nat) :
    Counting.Counts depth depth (q.binary noIn least) (p.binary noIn least)
  unary : Counting.Counts depth depth q.unary p.unary
  construction : Counting.Counts depth depth q.construction p.construction

namespace Counting

variable {depth : Nat}

/-! ## Names and lists of expressions -/

theorem identifier_counts : Counts depth depth identifier identifier := by
  refine here_counts.andThen fun start => peek_counts.andThen fun t => ?_
  cases t.name? with
  | none => exact unexpected_follows
  | some name => exact advance_counts.andThen fun _ => placed_counts start _

theorem memberName_counts : Counts depth depth memberName memberName := by
  refine here_counts.andThen fun start => peek_counts.andThen fun t => ?_
  cases t.body.memberName? with
  | none => exact unexpected_follows
  | some name => exact advance_counts.andThen fun _ => placed_counts start _

theorem functionName?_counts : Counts depth depth functionName? functionName? := by
  refine peek_counts.andThen fun t => .ite (peek_counts.andThen fun t => ?_) .pure
  cases t.name? with
  | none => exact unexpected_follows
  | some name => exact advance_counts.andThen fun _ => .pure

theorem asyncFunctionAhead_counts :
    Counts depth depth asyncFunctionAhead asyncFunctionAhead :=
  peekSecond_counts.andThen fun _ => .pure

theorem atom_counts (make : Span → Expr) : Counts depth depth (atom make) (atom make) :=
  here_counts.andThen fun start => advance_counts.andThen fun _ =>
    placed_counts start _

theorem postfixedFrom_counts {q : Counting Expr} {p : Parser Expr} (h : Counts depth depth q p) :
    Counts depth depth (postfixedFrom q) (postfixedFrom p) := by
  refine here_counts.andThen fun start => h.andThen fun e => peek_counts.andThen fun t => ?_
  split
  · exact advance_counts.andThen fun _ => placed_counts start _
  · exact .pure

section
variable {sub : LevelOf Counting} {plain : Level} (h : sub.Counts depth plain)
include h

theorem sequence_counts (noIn : Bool) :
    Counts depth depth (sequence sub noIn) (sequence plain noIn) := by
  refine here_counts.andThen fun start => (h.assignment noIn).andThen fun first => ?_
  refine (check_counts .comma).andThen fun _ => .ite ?_ .pure
  refine (many_counts ?_).andThen fun others => placed_counts start _
  exact (eat_counts .comma).andThen fun _ =>
    .ite ((h.assignment noIn).andThen fun _ => .pure) .pure

theorem parenthesized_counts : Counts depth depth (parenthesized sub) (parenthesized plain) :=
  (expect_counts .lparen).andThen fun _ => (sequence_counts h false).andThen fun _ =>
    (expect_counts .rparen).andThen fun _ => .pure

theorem spreadOrAssignment_counts :
    Counts depth depth (spreadOrAssignment sub) (spreadOrAssignment plain) := by
  refine here_counts.andThen fun start => (eat_counts .ellipsis).andThen fun _ => ?_
  exact .ite ((h.assignment false).andThen fun _ => placed_counts start _)
    (h.assignment false)

theorem arguments_counts : Counts depth depth (arguments sub) (arguments plain) :=
  bracketed_counts .lparen .rparen (spreadOrAssignment_counts h)

theorem array_counts : Counts depth depth (array sub) (array plain) := by
  refine here_counts.andThen fun start => (expect_counts .lbracket).andThen fun _ => ?_
  refine (many_counts ?_).andThen fun items => (expect_counts .rbracket).andThen fun _ =>
    placed_counts start _
  refine (check_counts .rbracket).andThen fun _ => .ite .pure ?_
  refine (eat_counts .comma).andThen fun _ => .ite .pure ?_
  refine (spreadOrAssignment_counts h).andThen fun item => ?_
  exact (check_counts .rbracket).andThen fun _ =>
    .ite .pure ((expect_counts .comma).andThen fun _ => .pure)

/-! ## Functions and objects -/

theorem block_counts : Counts depth depth (block sub) (block plain) := by
  refine (expect_counts .lbrace).andThen fun _ => ?_
  refine (many_counts ?_).andThen fun _ => advance_counts.andThen fun _ => .pure
  refine (check_counts .rbrace).andThen fun _ => .ite .pure ?_
  exact atEnd_counts.andThen fun _ =>
    .ite (.stop unexpected_follows) (h.statement.andThen fun _ => .pure)

theorem computedKey_counts : Counts depth depth (computedKey sub) (computedKey plain) :=
  advance_counts.andThen fun _ => (h.assignment false).andThen fun _ =>
    (expect_counts .rbracket).andThen fun _ => .pure

theorem memberKey_counts : Counts depth depth (memberKey sub) (memberKey plain) := by
  refine peek_counts.andThen fun t => ?_
  split
  · exact advance_counts.andThen fun _ => .pure
  · exact advance_counts.andThen fun _ => .pure
  · exact computedKey_counts h
  · split
    · exact advance_counts.andThen fun _ => .pure
    · exact unexpected_follows

section
variable {target : Counting Expr} {target' : Parser Expr}
  (htarget : Counts depth depth target target')
include htarget

theorem bindingElement_counts :
    Counts depth depth (bindingElement sub target) (bindingElement plain target') := by
  refine here_counts.andThen fun start => htarget.andThen fun name => ?_
  refine (eat_counts .eq).andThen fun _ => .ite ?_ .pure
  exact (h.assignment false).andThen fun _ => placed_counts start _

theorem param_counts : Counts depth depth (param sub target) (param plain target') := by
  refine here_counts.andThen fun start => (eat_counts .ellipsis).andThen fun _ => ?_
  exact .ite (htarget.andThen fun _ => placed_counts start _)
    (bindingElement_counts h htarget)

theorem paramsWith_counts :
    Counts depth depth (paramsWith sub target) (paramsWith plain target') :=
  bracketed_counts .lparen .rparen (param_counts h htarget)

theorem methodValue_counts :
    Counts depth depth (methodValue sub target) (methodValue plain target') :=
  here_counts.andThen fun start => (paramsWith_counts h htarget).andThen fun _ =>
    (block_counts h).andThen fun _ => placed_counts start _

theorem memberValue_counts (start : Position) (generator : Bool) (keyToken : Token) :
    Counts depth depth (memberValue sub target start generator keyToken)
      (memberValue plain target' start generator keyToken) := by
  refine peek_counts.andThen fun t => ?_
  split
  · exact advance_counts.andThen fun _ => (h.assignment false).andThen fun _ => .pure
  · exact (methodValue_counts h htarget).andThen fun _ => .pure
  · exact .pure
  · exact .pure
  · exact advance_counts.andThen fun _ => (h.assignment false).andThen fun _ =>
      placed_counts start _
  · exact unexpected_follows

theorem memberWith_counts :
    Counts depth depth (memberWith sub target) (memberWith plain target') := by
  refine here_counts.andThen fun start => (eat_counts .ellipsis).andThen fun _ => ?_
  refine .ite ((h.assignment false).andThen fun _ => .pure) ?_
  refine peek_counts.andThen fun t => peekSecond_counts.andThen fun next => ?_
  cases announcedKind? t next with
  | some kind =>
    exact advance_counts.andThen fun _ => (memberKey_counts h).andThen fun _ =>
      (methodValue_counts h htarget).andThen fun _ => placed_counts start _
  | none =>
    refine (eat_counts .star).andThen fun generator => peek_counts.andThen fun keyToken => ?_
    refine (memberKey_counts h).andThen fun _ => ?_
    exact (memberValue_counts h htarget start generator keyToken).andThen fun _ =>
      placed_counts start _

theorem objectWith_counts :
    Counts depth depth (objectWith sub target) (objectWith plain target') :=
  here_counts.andThen fun start =>
    (bracketed_counts .lbrace .rbrace (memberWith_counts h htarget)).andThen fun _ =>
      placed_counts start _

end

theorem bindingTargetWith_counts {object : Counting Expr} {object' : Parser Expr}
    (hobject : Counts depth depth object object') :
    Counts depth depth (bindingTargetWith sub object) (bindingTargetWith plain object') := by
  refine peek_counts.andThen fun t => ?_
  split
  · exact hobject
  · exact array_counts h
  · exact identifier_counts

theorem objectUpTo_counts (fuel : Nat) :
    Counts depth depth (objectUpTo sub fuel) (objectUpTo plain fuel) := by
  induction fuel with
  | zero => exact unexpected_follows
  | succ fuel ih => exact objectWith_counts h (bindingTargetWith_counts h ih)

theorem object_counts : Counts depth depth (object sub) (object plain) :=
  .get_bind fun _ => objectUpTo_counts h _

theorem bindingTarget_counts : Counts depth depth (bindingTarget sub) (bindingTarget plain) :=
  bindingTargetWith_counts h (object_counts h)

theorem params_counts : Counts depth depth (params sub) (params plain) :=
  paramsWith_counts h (bindingTarget_counts h)

theorem functionRest_counts : Counts depth depth (functionRest sub) (functionRest plain) :=
  (params_counts h).andThen fun _ => (block_counts h).andThen fun _ => .pure

theorem functionExpr_counts (start : Position) :
    Counts depth depth (functionExpr sub start) (functionExpr plain start) :=
  (eat_counts .star).andThen fun _ => functionName?_counts.andThen fun _ =>
    (functionRest_counts h).andThen fun _ => placed_counts start _

/-! ## Operands -/

theorem wordOperand_counts (name : String) :
    Counts depth depth (wordOperand sub name) (wordOperand plain name) := by
  refine here_counts.andThen fun start => .ite (atom_counts .this) ?_
  refine .ite (advance_counts.andThen fun _ => functionExpr_counts h start) ?_
  refine asyncFunctionAhead_counts.andThen fun _ => .ite ?_ ?_
  · exact advance_counts.andThen fun _ => advance_counts.andThen fun _ =>
      functionExpr_counts h start
  · exact .ite unexpected_follows (atom_counts _)

theorem primary_counts : Counts depth depth (primary sub) (primary plain) := by
  refine peek_counts.andThen fun t => ?_
  split
  · exact atom_counts _
  · exact atom_counts _
  · exact atom_counts _
  · exact atom_counts _
  · exact atom_counts _
  · exact atom_counts _
  · exact wordOperand_counts h _
  · exact parenthesized_counts h
  · exact array_counts h
  · exact object_counts h
  · exact unexpected_follows

theorem indexKey_counts : Counts depth depth (indexKey sub) (indexKey plain) :=
  (expect_counts .lbracket).andThen fun _ => (sequence_counts h false).andThen fun _ =>
    (expect_counts .rbracket).andThen fun _ => .pure

theorem access_counts (start : Position) (e : Expr) (optional : Bool) :
    Counts depth depth (access sub start e optional) (access plain start e optional) := by
  refine (check_counts .lbracket).andThen fun _ => .ite ?_ ?_
  · exact (indexKey_counts h).andThen fun _ => placed_counts start _
  · exact memberName_counts.andThen fun _ => placed_counts start _

theorem callOf_counts (start : Position) (e : Expr) (optional : Bool) :
    Counts depth depth (callOf sub start e optional) (callOf plain start e optional) :=
  (arguments_counts h).andThen fun _ => placed_counts start _

theorem chainLink_counts (start : Position) (e : Expr) (s : Symbol) :
    Counts depth depth (chainLink sub start e s) (chainLink plain start e s) := by
  unfold chainLink
  split
  · exact advance_counts.andThen fun _ => memberName_counts.andThen fun _ =>
      placed_counts start _
  · exact advance_counts.andThen fun _ => (check_counts .lparen).andThen fun _ =>
      .ite (callOf_counts h start e true) (access_counts h start e true)
  · exact callOf_counts h start e false
  · exact access_counts h start e false

/-! ## Conditionals and arrow functions -/

theorem conditional_counts (noIn : Bool) :
    Counts depth depth (conditional sub noIn) (conditional plain noIn) := by
  refine here_counts.andThen fun start => (h.binary noIn 0).andThen fun test => ?_
  refine (eat_counts .question).andThen fun _ => .ite ?_ .pure
  exact (h.assignment false).andThen fun _ => (expect_counts .colon).andThen fun _ =>
    (h.assignment noIn).andThen fun _ => placed_counts start _

theorem arrow_counts (noIn : Bool) (start : Position) :
    Counts depth depth (arrow sub noIn start) (arrow plain noIn start) := by
  have hrest (params : List Expr) : Counts depth depth
      (do
        expect .arrow
        let body ←
          if ← check .lbrace then Pure.pure (ArrowBody.block (← block sub))
          else Pure.pure (ArrowBody.expression (← sub.assignment noIn))
        return Expr.arrow (← spanFrom start) params body)
      (do
        expect .arrow
        let body ←
          if ← check .lbrace then Pure.pure (ArrowBody.block (← block plain))
          else Pure.pure (ArrowBody.expression (← plain.assignment noIn))
        return Expr.arrow (← spanFrom start) params body) := by
    refine (expect_counts .arrow).andThen fun _ => (check_counts .lbrace).andThen fun _ => ?_
    exact .ite
      ((block_counts h).andThen fun body =>
        placed_counts start (Expr.arrow · params (.block body)))
      ((h.assignment noIn).andThen fun value =>
        placed_counts start (Expr.arrow · params (.expression value)))
  exact peek_counts.andThen fun t =>
    .ite (identifier_counts.andThen fun e => hrest [e]) ((params_counts h).andThen hrest)

/-! ## Statements -/

omit h in
theorem atStatementEnd_counts : Counts depth depth atStatementEnd atStatementEnd :=
  peek_counts.andThen fun _ => .pure

omit h in
theorem endStatement_counts : Counts depth depth endStatement endStatement :=
  (eat_counts .semicolon).andThen fun _ => .ite .pure
    (atStatementEnd_counts.andThen fun _ => .ite .pure unexpected_follows)

omit h in
theorem declarationKind?_counts : Counts depth depth declarationKind? declarationKind? :=
  peek_counts.andThen fun _ => peekSecond_counts.andThen fun _ =>
    .ite .pure (.ite .pure (.ite (.ite .pure .pure) .pure))

theorem declarator_counts (noIn : Bool) :
    Counts depth depth (declarator sub noIn) (declarator plain noIn) :=
  (bindingTarget_counts h).andThen fun _ => (eat_counts .eq).andThen fun _ =>
    .ite ((h.assignment noIn).andThen fun _ => .pure) .pure

theorem declarators_counts (noIn : Bool) :
    Counts depth depth (declarators sub noIn) (declarators plain noIn) := by
  refine advance_counts.andThen fun _ => (declarator_counts h noIn).andThen fun first => ?_
  refine (many_counts ?_).andThen fun _ => .pure
  exact (eat_counts .comma).andThen fun _ =>
    .ite ((declarator_counts h noIn).andThen fun _ => .pure) .pure

theorem declaration_counts (kind : VarKind) :
    Counts depth depth (declaration sub kind) (declaration plain kind) :=
  (declarators_counts h false).andThen fun _ => endStatement_counts.andThen fun _ => .pure

theorem functionDeclaration_counts :
    Counts depth depth (functionDeclaration sub) (functionDeclaration plain) := by
  refine (eat_counts .star).andThen fun _ => functionName?_counts.andThen fun name => ?_
  cases name with
  | none => exact unexpected_follows
  | some name => exact (functionRest_counts h).andThen fun _ => .pure

theorem forInit_counts : Counts depth depth (forInit sub) (forInit plain) := by
  refine declarationKind?_counts.andThen fun kind => ?_
  cases kind with
  | none => exact (sequence_counts h true).andThen fun _ => .pure
  | some kind => exact (declarators_counts h true).andThen fun _ => .pure

theorem unlessAt_counts (s : Symbol) :
    Counts depth depth (unlessAt sub s) (unlessAt plain s) :=
  (check_counts s).andThen fun _ => .ite .pure ((sequence_counts h false).andThen fun _ => .pure)

theorem forEachRest_counts (left : ForInit) :
    Counts depth depth (forEachRest sub left) (forEachRest plain left) := by
  refine (checkWord_counts "of").andThen fun of => advance_counts.andThen fun _ => ?_
  refine .ite ((h.assignment false).andThen fun _ => ?_)
    ((sequence_counts h false).andThen fun _ => ?_)
  · exact (expect_counts .rparen).andThen fun _ => h.statement.andThen fun _ => .pure
  · exact (expect_counts .rparen).andThen fun _ => h.statement.andThen fun _ => .pure

theorem forLoopRest_counts (init : Option ForInit) :
    Counts depth depth (forLoopRest sub init) (forLoopRest plain init) :=
  (expect_counts .semicolon).andThen fun _ => (unlessAt_counts h .semicolon).andThen fun _ =>
    (expect_counts .semicolon).andThen fun _ => (unlessAt_counts h .rparen).andThen fun _ =>
      (expect_counts .rparen).andThen fun _ => h.statement.andThen fun _ => .pure

theorem forStatement_counts : Counts depth depth (forStatement sub) (forStatement plain) := by
  refine advance_counts.andThen fun _ => (expect_counts .lparen).andThen fun _ => ?_
  refine (check_counts .semicolon).andThen fun _ => .ite (forLoopRest_counts h none) ?_
  exact (forInit_counts h).andThen fun left => peek_counts.andThen fun t =>
    .ite (forEachRest_counts h left) (forLoopRest_counts h (some left))

theorem whileStatement_counts :
    Counts depth depth (whileStatement sub) (whileStatement plain) :=
  advance_counts.andThen fun _ => (parenthesized_counts h).andThen fun _ =>
    h.statement.andThen fun _ => .pure

theorem doStatement_counts : Counts depth depth (doStatement sub) (doStatement plain) :=
  advance_counts.andThen fun _ => h.statement.andThen fun _ =>
    (expectWord_counts "while").andThen fun _ => (parenthesized_counts h).andThen fun _ =>
      (eat_counts .semicolon).andThen fun _ => .pure

theorem ifStatement_counts : Counts depth depth (ifStatement sub) (ifStatement plain) := by
  refine advance_counts.andThen fun _ => (parenthesized_counts h).andThen fun _ => ?_
  exact h.statement.andThen fun _ => (eatWord_counts "else").andThen fun _ =>
    .ite (h.statement.andThen fun _ => .pure) .pure

theorem returnStatement_counts :
    Counts depth depth (returnStatement sub) (returnStatement plain) := by
  have hend (value : Option Expr) : Counts depth depth
      (do
        endStatement
        return fun span => Stmt.returning span value)
      (do
        endStatement
        return fun span => Stmt.returning span value) :=
    endStatement_counts.andThen fun _ => .pure
  exact advance_counts.andThen fun _ => atStatementEnd_counts.andThen fun _ =>
    .ite (hend none) ((sequence_counts h false).some.andThen hend)

omit h in
theorem jumpLabel?_counts : Counts depth depth jumpLabel? jumpLabel? := by
  refine peek_counts.andThen fun t => ?_
  split
  · exact advance_counts.andThen fun _ => .pure
  · exact .pure

omit h in
theorem jumpStatement_counts (make : Span → Option String → Stmt) :
    Counts depth depth (jumpStatement make) (jumpStatement make) :=
  advance_counts.andThen fun _ => jumpLabel?_counts.andThen fun _ =>
    endStatement_counts.andThen fun _ => .pure

theorem throwStatement_counts :
    Counts depth depth (throwStatement sub) (throwStatement plain) := by
  have hrest : Counts depth depth
      (do
        let value ← sequence sub false
        endStatement
        return fun span => Stmt.throwing span value)
      (do
        let value ← sequence plain false
        endStatement
        return fun span => Stmt.throwing span value) :=
    (sequence_counts h false).andThen fun _ => endStatement_counts.andThen fun _ => .pure
  exact advance_counts.andThen fun _ => peek_counts.andThen fun t =>
    .ite (.stop fail_follows) hrest

theorem handlerParam?_counts :
    Counts depth depth (handlerParam? sub) (handlerParam? plain) :=
  (eat_counts .lparen).andThen fun _ => .ite
    ((bindingTarget_counts h).andThen fun _ => (expect_counts .rparen).andThen fun _ => .pure) .pure

theorem tryStatement_counts : Counts depth depth (tryStatement sub) (tryStatement plain) := by
  refine advance_counts.andThen fun _ => (block_counts h).andThen fun body => ?_
  have hmake (handler : Option Handler) (finalizer : Option (List Stmt)) : Counts depth depth
      (do
        if handler.isNone && finalizer.isNone then fail .missingHandler
        return fun span => Stmt.trying span body handler finalizer)
      (do
        if handler.isNone && finalizer.isNone then fail .missingHandler
        return fun span => Stmt.trying span body handler finalizer) :=
    .ite (.stop fail_follows) .pure
  have hfinally (handler : Option Handler) : Counts depth depth
      (do
        let finalizer ← if ← eatWord "finally" then some <$> block sub else Pure.pure none
        if handler.isNone && finalizer.isNone then fail .missingHandler
        return fun span => Stmt.trying span body handler finalizer)
      (do
        let finalizer ← if ← eatWord "finally" then some <$> block plain else Pure.pure none
        if handler.isNone && finalizer.isNone then fail .missingHandler
        return fun span => Stmt.trying span body handler finalizer) :=
    (eatWord_counts "finally").andThen fun _ =>
      .ite ((block_counts h).some.andThen (hmake handler)) (hmake handler none)
  refine (eatWord_counts "catch").andThen fun _ => .ite ?_ (hfinally none)
  exact (handlerParam?_counts h).andThen fun param => (block_counts h).andThen fun block =>
    hfinally (some (.mk param block))

theorem caseTest_counts : Counts depth depth (caseTest sub) (caseTest plain) :=
  (eatWord_counts "case").andThen fun _ => .ite ((sequence_counts h false).andThen fun _ => .pure)
    ((eatWord_counts "default").andThen fun _ => .ite .pure unexpected_follows)

theorem caseBody_counts : Counts depth depth (caseBody sub) (caseBody plain) := by
  refine many_counts (peek_counts.andThen fun t => .ite .pure ?_)
  exact .ite (.stop unexpected_follows) (h.statement.andThen fun _ => .pure)

theorem switchStatement_counts :
    Counts depth depth (switchStatement sub) (switchStatement plain) := by
  refine advance_counts.andThen fun _ => (parenthesized_counts h).andThen fun subject => ?_
  refine (expect_counts .lbrace).andThen fun _ => (many_counts ?_).andThen fun _ => .pure
  refine (eat_counts .rbrace).andThen fun _ => .ite .pure ?_
  exact (caseTest_counts h).andThen fun _ => (expect_counts .colon).andThen fun _ =>
    (caseBody_counts h).andThen fun _ => .pure

theorem expressionStatement_counts :
    Counts depth depth (expressionStatement sub) (expressionStatement plain) :=
  (sequence_counts h false).andThen fun _ => endStatement_counts.andThen fun _ => .pure

theorem labeledOrExpression_counts (name : String) :
    Counts depth depth (labeledOrExpression sub name) (labeledOrExpression plain name) :=
  peekSecond_counts.andThen fun _ => .ite
    (advance_counts.andThen fun _ => advance_counts.andThen fun _ =>
      h.statement.andThen fun _ => .pure)
    (expressionStatement_counts h)

theorem wordStatement_counts (name : String) :
    Counts depth depth (wordStatement sub name) (wordStatement plain name) := by
  refine declarationKind?_counts.andThen fun kind => ?_
  cases kind with
  | some kind => exact declaration_counts h kind
  | none =>
    dsimp only
    split
    · exact advance_counts.andThen fun _ => functionDeclaration_counts h
    · refine asyncFunctionAhead_counts.andThen fun _ => .ite ?_ (labeledOrExpression_counts h _)
      exact advance_counts.andThen fun _ => advance_counts.andThen fun _ =>
        functionDeclaration_counts h
    · exact ifStatement_counts h
    · exact forStatement_counts h
    · exact whileStatement_counts h
    · exact doStatement_counts h
    · exact returnStatement_counts h
    · exact jumpStatement_counts _
    · exact jumpStatement_counts _
    · exact throwStatement_counts h
    · exact tryStatement_counts h
    · exact switchStatement_counts h
    · exact advance_counts.andThen fun _ => endStatement_counts.andThen fun _ => .pure
    · exact labeledOrExpression_counts h _

theorem statementAt_counts : Counts depth depth (statementAt sub) (statementAt plain) := by
  refine here_counts.andThen fun start => peek_counts.andThen fun t => ?_
  split
  · exact (block_counts h).andThen fun body => placed_counts start (Stmt.block · body)
  · exact advance_counts.andThen fun _ => placed_counts start Stmt.empty
  · exact (wordStatement_counts h _).andThen fun make => placed_counts start make
  · exact (expressionStatement_counts h).andThen fun make => placed_counts start make

theorem statementsFrom_counts :
    Counts depth depth (statementsFrom sub) (statementsFrom plain) :=
  many_counts (atEnd_counts.andThen fun _ => .ite .pure (h.statement.andThen fun _ => .pure))

theorem wholeExpressionFrom_counts :
    Counts depth depth (wholeExpressionFrom sub) (wholeExpressionFrom plain) :=
  (sequence_counts h false).andThen fun _ => atEnd_counts.andThen fun _ =>
    .ite .pure (.stop unexpected_follows)

end

end Counting

end WidgetLint.Script
