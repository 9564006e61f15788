import WidgetLint.Proofs.Printing.ParsedExpr
import WidgetLint.Proofs.Printing.Reparse

/-!
# The statements that are read

**Every tree that is read is sound** (`parseExpressionAt_whole`, `parseProgram_sound`): its nodes are
shaped as the grammar shapes them, and can be written if their strings and numbers are tame. A branch
without an alternative is never followed by one, since the reader would have taken it.
-/

namespace WidgetLint.Script

open Text

namespace Parser

/-- A statement whose place is still to be given: it is sound wherever it stands, and no alternative
of its last branch follows. -/
def Makes (make : Span → Stmt) (i : Input) : Prop :=
  ∀ s, (make s).Settled i

theorem Yields.makes {p : Parser (Span → Stmt)}
    (h : Gets p fun make => ∀ s, (make s).Sound ∧ (make s).endsOpen = false) :
    Yields (fun _ => True) p Makes :=
  h.imp fun _ _ hmake s => ⟨(hmake s).1, fun hopen => absurd hopen (by simp [(hmake s).2])⟩

/-! ## Declarations -/

theorem atStatementEnd_gets : Gets atStatementEnd fun _ => True :=
  peek_gets.bind fun _ _ => .pure True.intro

theorem endStatement_gets : Gets endStatement fun _ => True :=
  (eat_gets .semicolon).bind fun _ _ => .ite (fun _ => .pure True.intro) fun _ =>
    atStatementEnd_gets.bind fun _ _ => .ite (fun _ => .pure True.intro) fun _ => unexpected_yields

theorem declarationKind?_gets : Gets declarationKind? fun _ => True := by
  refine peek_gets.bind fun t _ => peekSecond_gets.bind fun next _ => ?_
  refine .ite (fun _ => .pure True.intro) fun _ => .ite (fun _ => .pure True.intro) fun _ => ?_
  exact .ite (fun _ => .ite (fun _ => .pure True.intro) fun _ => .pure True.intro)
    fun _ => .pure True.intro

section
variable {sub : Level} (hsub : sub.Sound)
include hsub

theorem declarator_gets (noIn : Bool) : Gets (declarator sub noIn) Declarator.Sound := by
  refine (bindingTarget_gets hsub).bind fun target htarget => (eat_gets .eq).bind fun _ _ => ?_
  refine .ite (fun _ => ?_) fun _ => .pure ⟨htarget, nofun⟩
  refine (hsub.assignment noIn).bind fun value hvalue => .pure ⟨htarget, ?_⟩
  rintro _ ⟨⟩
  exact hvalue

theorem declarators_gets (noIn : Bool) : Gets (declarators sub noIn) fun ds =>
    ds ≠ [] ∧ ∀ d ∈ ds, d.Sound := by
  refine advance_gets.bind fun _ _ => (declarator_gets hsub noIn).bind fun first hfirst => ?_
  have hitem : Gets (do if ← eat .comma then return some (← declarator sub noIn) else return none)
      fun o => ∀ d, o = some d → d.Sound :=
    (eat_gets .comma).bind fun _ _ => .ite (fun _ => (declarator_gets hsub noIn).some)
      fun _ => .pure nofun
  exact (many_gets hitem).bind fun others hothers =>
    .pure ⟨List.cons_ne_nil _ _, List.forall_mem_cons.2 ⟨hfirst, hothers⟩⟩

theorem declaration_yields (kind : VarKind) :
    Yields (fun _ => True) (declaration sub kind) Makes :=
  .makes ((declarators_gets hsub false).bind fun _ hdeclared => endStatement_gets.bind fun _ _ =>
    .pure fun _ => ⟨Stmt.sound_declaration kind hdeclared.1 hdeclared.2, rfl⟩)

theorem functionDeclaration_yields :
    Yields (fun _ => True) (functionDeclaration sub) Makes := by
  refine .makes ((eat_gets .star).bind fun _ _ => functionName?_gets.bind fun o ho => ?_)
  cases o with
  | none => exact unexpected_yields
  | some name =>
    exact (functionRest_gets hsub).bind fun _ hrest =>
      .pure fun _ => ⟨Stmt.sound_function (ho name rfl) hrest.1 hrest.2, rfl⟩

/-! ## Loops -/

theorem forInit_gets : Gets (forInit sub) ForInit.Sound := by
  refine declarationKind?_gets.bind fun o _ => ?_
  cases o with
  | none => exact (sequence_gets hsub true).bind fun _ he => .pure he
  | some kind => exact (declarators_gets hsub true).bind fun _ hdeclared => .pure hdeclared

theorem unlessAt_gets (s : Symbol) : Gets (unlessAt sub s) fun o => ∀ e, o = some e → e.Whole :=
  (check_gets s).bind fun _ _ => .ite (fun _ => .pure nofun) fun _ => (sequence_gets hsub false).some

theorem forEachRest_yields {left : ForInit} (hleft : left.Sound) :
    Yields (fun _ => True) (forEachRest sub left) Makes := by
  have hrest {right : Expr} (of : Bool) (hright : right.Whole) : Yields (fun _ => True) (do
      expect .rparen
      let body ← sub.statement
      return fun span => Stmt.forEach span left right body of) Makes :=
    (expect_gets .rparen).then fun _ _ => hsub.statement.bind fun _ => .pure fun _ hbody _ =>
      ⟨Stmt.sound_forEach of hleft hright hbody.1, hbody.2⟩
  refine (checkWord_gets "of").then fun of _ => advance_gets.then fun _ _ => ?_
  refine .ite (fun _ => ?_) fun _ => ?_
  · exact (hsub.assignment false).then fun _ hright => hrest of hright
  · exact (sequence_gets hsub false).then fun _ hright => hrest of hright

theorem forLoopRest_yields {init : Option ForInit} (hinit : ∀ i, init = some i → i.Sound) :
    Yields (fun _ => True) (forLoopRest sub init) Makes :=
  (expect_gets .semicolon).then fun _ _ => (unlessAt_gets hsub .semicolon).then fun _ htest =>
    (expect_gets .semicolon).then fun _ _ => (unlessAt_gets hsub .rparen).then fun _ hupdate =>
      (expect_gets .rparen).then fun _ _ => hsub.statement.bind fun _ => .pure fun _ hbody _ =>
        ⟨Stmt.sound_forLoop hinit htest hupdate hbody.1, hbody.2⟩

theorem forStatement_yields : Yields (fun _ => True) (forStatement sub) Makes := by
  refine advance_gets.then fun _ _ => (expect_gets .lparen).then fun _ _ => ?_
  refine (check_gets .semicolon).then fun _ _ => .ite (fun _ => ?_) fun _ => ?_
  · exact forLoopRest_yields hsub nofun
  · refine (forInit_gets hsub).then fun left hleft => peek_gets.then fun t _ => ?_
    refine .ite (fun _ => forEachRest_yields hsub hleft) fun _ => forLoopRest_yields hsub ?_
    rintro _ ⟨⟩
    exact hleft

theorem whileStatement_yields : Yields (fun _ => True) (whileStatement sub) Makes :=
  advance_gets.then fun _ _ => (parenthesized_gets hsub).then fun _ htest =>
    hsub.statement.bind fun _ => .pure fun _ hbody _ =>
      ⟨Stmt.sound_whileLoop htest hbody.1, hbody.2⟩

theorem doStatement_yields : Yields (fun _ => True) (doStatement sub) Makes :=
  .makes (advance_gets.bind fun _ _ => hsub.body.bind fun _ hbody =>
    (expectWord_gets "while").bind fun _ _ => (parenthesized_gets hsub).bind fun _ htest =>
      (eat_gets .semicolon).bind fun _ _ => .pure fun _ => ⟨Stmt.sound_doWhile hbody htest, rfl⟩)

/-! ## Branches and jumps -/

/-- Where the reader of a branch finds no alternative, none follows; where it finds one, the branch
taken before it has an alternative of its own wherever it needs one. -/
theorem ifStatement_yields : Yields (fun _ => True) (ifStatement sub) Makes := by
  refine advance_gets.then fun _ _ => (parenthesized_gets hsub).then fun test htest => ?_
  refine hsub.statement.bind fun whenTrue => (eatWord_yields "else").bind fun b => ?_
  refine .ite (fun hb => ?_) fun hb => ?_
  · refine (Yields.assume (c := whenTrue.Sound ∧ whenTrue.endsOpen = false) ?_).from ?_
    · rintro ⟨htrue, hclosed⟩
      refine hsub.statement.bind fun whenFalse => .pure fun _ hfalse _ => ⟨?_, hfalse.2⟩
      refine Stmt.sound_branch htest htrue ?_ fun _ => hclosed
      rintro _ ⟨⟩
      exact hfalse.1
    · rintro i (⟨-, j, helse, hsettled⟩ | ⟨hfalse, -⟩)
      · refine ⟨hsettled.1, Bool.eq_false_iff.2 fun hopen => ?_⟩
        rw [hsettled.2 hopen] at helse
        cases helse
      · exact absurd hb (by simp [hfalse])
  · refine .pure ?_
    rintro i (⟨htrue, -⟩ | ⟨-, helse, hsettled⟩) s
    · exact absurd htrue hb
    · exact ⟨Stmt.sound_branch htest hsettled.1 nofun nofun, fun _ => helse⟩

theorem returnStatement_yields : Yields (fun _ => True) (returnStatement sub) Makes := by
  have hrest {value : Option Expr} (hvalue : ∀ e, value = some e → e.Whole) : Gets (do
      endStatement
      return fun span => Stmt.returning span value)
      fun make => ∀ s, (make s).Sound ∧ (make s).endsOpen = false :=
    endStatement_gets.bind fun _ _ => .pure fun _ => ⟨Stmt.sound_returning hvalue, rfl⟩
  refine .makes (advance_gets.bind fun _ _ => atStatementEnd_gets.bind fun _ _ => ?_)
  refine .ite (fun _ => hrest nofun) fun _ => ?_
  exact (sequence_gets hsub false).map_some.bind fun _ hvalue => hrest hvalue

omit hsub in
theorem jumpLabel?_gets : Gets jumpLabel? fun o => ∀ n, o = some n → IsUsable n := by
  refine peek_gets.bind fun t ht => ?_
  split
  · rename_i hname _
    refine advance_gets.bind fun _ _ => .pure ?_
    rintro _ ⟨⟩
    exact isUsable_of_name? ht.body hname
  · exact .pure nofun

omit hsub in
theorem jumpStatement_yields {make : Span → Option String → Stmt}
    (h : ∀ s label, (∀ n, label = some n → IsUsable n) →
      (make s label).Sound ∧ (make s label).endsOpen = false) :
    Yields (fun _ => True) (jumpStatement make) Makes :=
  .makes (advance_gets.bind fun _ _ => jumpLabel?_gets.bind fun label hlabel =>
    endStatement_gets.bind fun _ _ => .pure fun s => h s label hlabel)

theorem throwStatement_yields : Yields (fun _ => True) (throwStatement sub) Makes := by
  have hrest : Gets (do
      let value ← sequence sub false
      endStatement
      return fun span => Stmt.throwing span value)
      fun make => ∀ s, (make s).Sound ∧ (make s).endsOpen = false :=
    (sequence_gets hsub false).bind fun _ hvalue => endStatement_gets.bind fun _ _ =>
      .pure fun _ => ⟨Stmt.sound_throwing hvalue, rfl⟩
  exact .makes (advance_gets.bind fun _ _ => peek_gets.bind fun _ _ => .unless hrest fail_yields)

theorem handlerParam?_gets : Gets (handlerParam? sub) fun o => ∀ e, o = some e → e.Pattern := by
  refine (eat_gets .lparen).bind fun _ _ => .ite (fun _ => ?_) fun _ => .pure nofun
  refine (bindingTarget_gets hsub).bind fun _ hparam => (expect_gets .rparen).bind fun _ _ => ?_
  refine .pure ?_
  rintro _ ⟨⟩
  exact hparam

/-- A handler that was read from a text, if there is one. -/
def SoundHandler (handler : Option Handler) : Prop :=
  ∀ param rest, handler = some (.mk param rest) →
    (∀ e, param = some e → e.Pattern) ∧ ∀ s ∈ rest, s.Sound

theorem tryStatement_yields : Yields (fun _ => True) (tryStatement sub) Makes := by
  refine .makes (advance_gets.bind fun _ _ => (block_gets hsub).bind fun body hbody => ?_)
  have hend {handler : Option Handler} {finalizer : Option (List Stmt)}
      (hhandler : SoundHandler handler)
      (hfinalizer : ∀ rest, finalizer = some rest → ∀ s ∈ rest, s.Sound) : Gets (do
        if handler.isNone && finalizer.isNone then fail .missingHandler
        return fun span => Stmt.trying span body handler finalizer)
        fun make => ∀ s, (make s).Sound ∧ (make s).endsOpen = false := by
    refine .ite (fun _ => ?_) fun hsome => .pure fun _ => ⟨Stmt.sound_trying hbody ?_ hhandler
      hfinalizer, rfl⟩
    · exact Gets.bind (S := fun _ => False) fail_yields fun _ => False.elim
    · cases handler with
      | some => exact .inl rfl
      | none => cases finalizer with
        | some => exact .inr rfl
        | none => exact absurd rfl hsome
  have hfinally {handler : Option Handler} (hhandler : SoundHandler handler) : Gets (do
        let finalizer ← if ← eatWord "finally" then some <$> block sub else pure none
        if handler.isNone && finalizer.isNone then fail .missingHandler
        return fun span => Stmt.trying span body handler finalizer)
        fun make => ∀ s, (make s).Sound ∧ (make s).endsOpen = false := by
    refine (eatWord_gets "finally").bind fun _ _ => .ite (fun _ => ?_) fun _ => hend hhandler nofun
    exact (block_gets hsub).map_some.bind fun _ hfinalizer => hend hhandler hfinalizer
  refine (eatWord_gets "catch").bind fun _ _ => .ite (fun _ => ?_) fun _ => hfinally nofun
  refine (handlerParam?_gets hsub).bind fun _ hparam => (block_gets hsub).bind fun _ hrest => ?_
  refine hfinally ?_
  rintro _ _ ⟨⟩
  exact ⟨hparam, hrest⟩

theorem caseTest_gets : Gets (caseTest sub) fun o => ∀ e, o = some e → e.Whole :=
  (eatWord_gets "case").bind fun _ _ => .ite (fun _ => (sequence_gets hsub false).some) fun _ =>
    (eatWord_gets "default").bind fun _ _ => .ite (fun _ => .pure nofun) fun _ => unexpected_yields

theorem caseBody_gets : Gets (caseBody sub) fun body => ∀ s ∈ body, s.Sound :=
  many_gets (peek_gets.bind fun _ _ => .ite (fun _ => .pure nofun) fun _ =>
    .unless hsub.body.some unexpected_yields)

theorem switchStatement_yields : Yields (fun _ => True) (switchStatement sub) Makes := by
  refine .makes (advance_gets.bind fun _ _ => (parenthesized_gets hsub).bind fun _ hsubject => ?_)
  refine (expect_gets .lbrace).bind fun _ _ => ?_
  refine (many_gets (S := Case.Sound) ?_).bind fun _ hcases =>
    .pure fun _ => ⟨Stmt.sound_switch hsubject hcases, rfl⟩
  refine (eat_gets .rbrace).bind fun _ _ => .ite (fun _ => .pure nofun) fun _ => ?_
  refine (caseTest_gets hsub).bind fun _ htest => (expect_gets .colon).bind fun _ _ => ?_
  refine (caseBody_gets hsub).bind fun _ hbody => .pure ?_
  rintro _ ⟨⟩
  exact ⟨htest, hbody⟩

/-! ## Statements -/

theorem expressionStatement_yields : Yields (fun _ => True) (expressionStatement sub) Makes :=
  .makes ((sequence_gets hsub false).bind fun _ hvalue => endStatement_gets.bind fun _ _ =>
    .pure fun _ => ⟨Stmt.sound_expression hvalue, rfl⟩)

theorem labeledOrExpression_yields {name : String} (hname : isWordText name = true) :
    Yields (fun _ => True) (labeledOrExpression sub name) Makes := by
  refine peekSecond_gets.then fun _ _ => .ite (fun hlabel => ?_) fun _ =>
    expressionStatement_yields hsub
  rw [Bool.and_eq_true, Bool.not_eq_true'] at hlabel
  exact advance_gets.then fun _ _ => advance_gets.then fun _ _ => hsub.statement.bind fun _ =>
    .pure fun _ hbody _ => ⟨Stmt.sound_labeled ⟨hname, hlabel.2⟩ hbody.1, hbody.2⟩

theorem wordStatement_yields {name : String} (hname : isWordText name = true) :
    Yields (fun _ => True) (wordStatement sub name) Makes := by
  refine declarationKind?_gets.then fun o _ => ?_
  cases o with
  | some kind => exact declaration_yields hsub kind
  | none =>
    dsimp only
    split
    · exact advance_gets.then fun _ _ => functionDeclaration_yields hsub
    · refine asyncFunctionAhead_gets.then fun _ _ => .ite (fun _ => ?_) fun _ =>
        labeledOrExpression_yields hsub hname
      exact advance_gets.then fun _ _ => advance_gets.then fun _ _ =>
        functionDeclaration_yields hsub
    · exact ifStatement_yields hsub
    · exact forStatement_yields hsub
    · exact whileStatement_yields hsub
    · exact doStatement_yields hsub
    · exact returnStatement_yields hsub
    · exact jumpStatement_yields fun _ _ h => ⟨Stmt.sound_breaking h, rfl⟩
    · exact jumpStatement_yields fun _ _ h => ⟨Stmt.sound_continuing h, rfl⟩
    · exact throwStatement_yields hsub
    · exact tryStatement_yields hsub
    · exact switchStatement_yields hsub
    · exact .makes (advance_gets.bind fun _ _ => endStatement_gets.bind fun _ _ =>
        .pure fun _ => ⟨Stmt.sound_debugger, rfl⟩)
    · exact labeledOrExpression_yields hsub hname

theorem statementAt_yields :
    Yields (fun _ => True) (statementAt sub) fun s i => s.Settled i := by
  have hplace {make : Span → Stmt} (start : Position) :
      Yields (Makes make) (do return make (← spanFrom start)) fun s i => s.Settled i :=
    (spanFrom_yields start).bind fun s => .pure fun _ hmake => hmake s
  refine here_gets.then fun start _ => peek_gets.then fun t ht => ?_
  dsimp only
  split
  · refine (block_gets hsub).then fun body hbody => ?_
    rw [pure_bind]
    exact (hplace start).from fun _ _ _ => ⟨Stmt.sound_block hbody, nofun⟩
  · refine advance_gets.then fun _ _ => ?_
    rw [pure_bind]
    exact (hplace start).from fun _ _ _ => ⟨Stmt.sound_empty, nofun⟩
  · rename_i name hbody
    have hname := ht.body
    rw [hbody] at hname
    exact (wordStatement_yields hsub hname).bind fun _ => hplace start
  · exact (expressionStatement_yields hsub).bind fun _ => hplace start

end

/-! ## Levels and texts -/

theorem exhausted_sound : Level.exhausted.Sound :=
  ⟨fail_yields, fun _ => fail_yields, fun _ _ => fail_yields, fail_yields, fail_yields⟩

theorem level_sound (descents budget : Nat) : (level descents budget).Sound := by
  induction descents generalizing budget with
  | zero => exact exhausted_sound
  | succ descents ih =>
    rw [level]
    split
    · exact exhausted_sound
    · exact ⟨statementAt_yields (ih _), fun noIn => assignmentAt_gets (ih _) noIn,
        fun noIn least => binaryAt_gets ih _ noIn least, unaryAt_gets ih _,
        constructionAt_gets ih _⟩

theorem statements_gets : Gets statements fun body => ∀ s ∈ body, s.Sound :=
  many_gets (atEnd_gets.bind fun _ _ => .ite (fun _ => .pure nofun) fun _ =>
    (level_sound _ _).body.some)

theorem wholeExpression_gets : Gets wholeExpression Expr.Whole :=
  (sequence_gets (level_sound _ _) false).bind fun _ he => atEnd_gets.bind fun _ _ =>
    .ite (fun _ => .pure he) fun _ => Gets.bind (S := fun _ => False) unexpected_yields
      fun _ => False.elim

theorem inputOf_lexed {text : String} {origin : Position} {tokens : Tokens}
    (h : tokenize text origin = .ok tokens) : (inputOf tokens origin).Lexed :=
  ⟨(tokenize_lexed h).1, (tokenize_lexed h).2⟩

end Parser

open WidgetLint.Script.Parser

/-- **The tree of an expression is sound.** -/
theorem parseExpressionAt_whole {text : String} {origin : Position} {e : Expr}
    (h : parseExpressionAt text origin = .ok e) : e.Whole := by
  rw [parseExpressionAt_eq] at h
  split at h
  · cases h
  · rename_i tokens hlex
    split at h
    · cases h
    · rename_i hread
      cases h
      exact (wholeExpression_gets _ _ _ (inputOf_lexed hlex) True.intro hread).2

/-- **The trees of a script are sound.** -/
theorem parseProgram_sound {text : String} {p : Program} (h : parseProgram text = .ok p) :
    ∀ s ∈ p.body, s.Sound := by
  rw [parseProgram_eq] at h
  split at h
  · cases h
  · rename_i tokens hlex
    split at h
    · cases h
    · rename_i hread
      cases h
      exact (statements_gets _ _ _ (inputOf_lexed hlex) True.intro hread).2

end WidgetLint.Script
