import WidgetLint.Proofs.Inset.Begins
import WidgetLint.Proofs.Inset.Expr

/-!
# Statements inside a larger text

Statements stand between braces, where their readers stop before the end of the text, or a semicolon
follows their text, which the last of them may take. With the statements, every level of the grammar
finds the same in a larger text (`level_agrees`).
-/

namespace WidgetLint.Script.Parser

open Text

variable {c : Inset} {ends : Ending} {P : Input → Prop} {m : Nat}

/-! ## Ends of statements -/

theorem Inset.Statements.unlike (h : c.Statements ends) {s : Symbol} (hs : s ≠ .semicolon) :
    c.Unlike ends s := by
  rcases h with rfl | ⟨-, hnext, -⟩
  · exact .inl rfl
  · refine .inr fun heq => hs ?_
    rw [hnext] at heq
    exact (TokenBody.symbol.inj heq).symm

theorem Inset.Statements.no_else (h : c.Statements ends) (hbehind : ends = .behind) :
    c.past.current.isWord "else" = false := by
  rcases h with rfl | ⟨-, -, helse⟩
  · cases hbehind
  · exact helse

theorem eatWord_bind {α : Type} {name : String} {k : Bool → Parser α} {i : Input}
    (h : i.current.isWord name = false) : (eatWord name >>= k) i = k false i := by
  change (((eatWord name : Parser Bool) i).bind fun x => k x.1 x.2) = _
  rw [eatWord_run, h]
  rfl

theorem needs_expectWord {α : Type} {name : String} {k : Unit → Parser α} :
    Needs c (expectWord name >>= k) := by
  intro i x hi hnil hrun
  obtain ⟨_, _, hexpect, -⟩ := bind_ok (b := x.1) (j := x.2) hrun
  have hlast : i.current.isWord name = false := by
    rw [hi.current_nil hnil, Token.isWord, c.eof]
    rfl
  rw [expectWord, eatWord_bind hlast] at hexpect
  cases hexpect

theorem atStatementEnd_keeps (hends : c.Statements ends) :
    Keeps c ends.first P m atStatementEnd atStatementEnd := by
  rcases hends with rfl | ⟨-, hnext, -⟩
  · exact peek_inner.andThen fun _ => Keeps.pure
  · refine .peek_bind (fun _ => Keeps.pure) (.pure ?_ rfl fun _ _ => True.intro)
    simp [Token.isSymbol, hnext, c.eof]

theorem endStatement_run (i : Input) :
    (endStatement : Parser Unit) i = if i.current.isSymbol .semicolon then .ok ((), i.advance)
      else if i.current.isSymbol .semicolon || i.current.isSymbol .rbrace ||
        i.current.body == .eof || i.current.newlineBefore then .ok ((), i)
      else .error i.current.complaint := by
  change (((eat .semicolon : Parser Bool) i).bind fun x => (if x.1 = true then Pure.pure () else
    atStatementEnd >>= fun b => if b = true then Pure.pure () else unexpected : Parser Unit) x.2) = _
  rw [eat_run]
  split
  · rfl
  · change (if _ then Pure.pure () else unexpected : Parser Unit) i = _
    split <;> rfl

theorem Inset.semicolon_put_nil (hnext : c.next.body = .symbol .semicolon) {i : Input}
    (h : i.rest = []) : (c.put i).current.isSymbol .semicolon = true := by
  rw [Inset.current_put_nil h, Token.isSymbol, hnext]
  rfl

theorem endStatement_keeps (hends : c.Statements ends) :
    Keeps c ends P m endStatement endStatement := by
  have hinner : Keeps c .inner P m endStatement endStatement :=
    (eat_keeps .semicolon c.unlike_inner rfl).andThen fun _ => .ite (fun _ => Keeps.pure) fun _ =>
      (atStatementEnd_keeps c.statements_inner).andThen fun _ =>
        .ite (fun _ => Keeps.pure) fun _ => unexpected_agree
  rcases hends with rfl | ⟨rfl, hnext, -⟩
  · exact hinner
  · refine hinner.toEnd fun i a j hi hrun hnil => ?_
    rw [endStatement_run] at hrun
    by_cases hsemicolon : i.current.isSymbol .semicolon = true
    · have hne : i.rest ≠ [] := hi.rest_ne_of_isSymbol hsemicolon
      rw [if_pos hsemicolon] at hrun
      cases hrun
      refine .inl ⟨(), _, ?_, rfl, .inl rfl⟩
      rw [endStatement_run, Inset.current_put hne, if_pos hsemicolon, Inset.advance_put hne]
    · rw [if_neg hsemicolon] at hrun
      split at hrun
      · cases hrun
        refine .inl ⟨(), _, ?_, rfl, .inr ⟨rfl, hnil, rfl⟩⟩
        rw [endStatement_run, if_pos (c.semicolon_put_nil hnext hnil), Inset.advance_put_nil hnil]
      · cases hrun

theorem eatSemicolon_keeps {α : Type} {a : α} (hends : c.Statements ends) :
    Keeps c ends P m (do let _ ← eat .semicolon; return a)
      (do let _ ← eat .semicolon; return a) := by
  have hinner : Keeps c .inner P m (do let _ ← eat .semicolon; return a)
      (do let _ ← eat .semicolon; return a) :=
    (eat_keeps .semicolon c.unlike_inner rfl).andThen fun _ => Keeps.pure
  rcases hends with rfl | ⟨rfl, hnext, -⟩
  · exact hinner
  · refine hinner.toEnd fun i b j hi hrun hnil => ?_
    have heat (i : Input) : (do let _ ← eat .semicolon; return a : Parser α) i =
        .ok (a, if i.current.isSymbol .semicolon then i.advance else i) := by
      change (((eat .semicolon : Parser Bool) i).bind fun x => (Pure.pure a : Parser α) x.2) = _
      rw [eat_run]
      split <;> rfl
    rw [heat] at hrun
    cases hrun
    refine .inl ⟨a, _, heat _, rfl, ?_⟩
    by_cases hsemicolon : i.current.isSymbol .semicolon = true
    · have hne : i.rest ≠ [] := hi.rest_ne_of_isSymbol hsemicolon
      rw [if_pos hsemicolon, Inset.current_put hne, if_pos hsemicolon, Inset.advance_put hne]
      exact .inl rfl
    · rw [if_neg hsemicolon] at hnil ⊢
      rw [if_pos (c.semicolon_put_nil hnext hnil), Inset.advance_put_nil hnil]
      exact .inr ⟨rfl, hnil, rfl⟩

/-! ## Declarations -/

theorem plain_of_declares? {t next : Token} {kind : VarKind} (h : declares? t next = some kind) :
    Plain t.body := by
  unfold declares? at h
  split at h
  · exact plain_of_isWord ‹_›
  split at h
  · exact plain_of_isWord ‹_›
  split at h
  · exact plain_of_isWord ‹_›
  · cases h

theorem declarationKind?_agree (hP : ∀ i, P i → ends ≠ .inner → i.current.body ≠ .eof) :
    Agree c ends P m declarationKind? declarationKind? Eq (fun _ => m)
      fun kind i => P i ∧ (kind.isSome = true → Plain i.current.body) := by
  refine (agree_look declarationKind?_run fun i hi hPi hends => ?_).post fun kind i hi => ⟨hi.1, ?_⟩
  · have hne : i.rest ≠ [] := hi.rest_ne_or hends (hP i hPi)
    have hsecond := hi.seen_second hne
    rw [Inset.current_put hne, declares?, declares?, hsecond.isAnyWord,
      hsecond.isSymbol (c.inside (s := .lbracket) (by decide)),
      hsecond.isSymbol (c.inside (s := .lbrace) (by decide))]
  · intro hsome
    obtain ⟨kind, rfl⟩ := Option.isSome_iff_exists.1 hsome
    exact plain_of_declares? hi.2

section
variable {sub sub' : Level} (hsub : sub.Agrees c sub')
include hsub

theorem declarator_keeps (noIn : Bool) :
    Keeps c ends P m (declarator sub noIn) (declarator sub' noIn) := by
  refine (bindingTarget_keeps hsub).andThen fun target => ?_
  refine (eat_keeps .eq (c.unlike (by decide)) rfl).andThen fun _ => ?_
  exact .ite (fun _ => (hsub.assignment noIn).then) fun _ => Keeps.pure

theorem declarators_keeps (noIn : Bool) (hcomma : c.Unlike ends .comma)
    (hP : ∀ i, P i → Plain i.current.body) :
    Keeps c ends P m (declarators sub noIn) (declarators sub' noIn) := by
  refine (advance_plain hP).andThen fun _ => (declarator_keeps hsub noIn).andThen fun _ => ?_
  refine Keeps.then (many_keeps fun P => ?_)
  refine (eat_keeps .comma hcomma.first.first rfl).andThen fun _ => ?_
  exact .ite (fun _ => (declarator_keeps hsub noIn).then) fun _ => Keeps.pure

theorem declaration_keeps (hends : c.Statements ends) (kind : VarKind)
    (hP : ∀ i, P i → Plain i.current.body) :
    Keeps c ends P m (declaration sub kind) (declaration sub' kind) :=
  (declarators_keeps hsub false (hends.unlike (by decide)).first hP).andThen fun _ =>
    (endStatement_keeps hends).then

theorem functionDeclaration_keeps :
    Keeps c ends P m (functionDeclaration sub) (functionDeclaration sub') := by
  refine (eat_keeps .star (c.unlike (by decide)) rfl).andThen fun _ => ?_
  refine functionName?_keeps.andThen fun name => ?_
  cases name with
  | none => exact unexpected_agree
  | some name => exact (functionRest_keeps hsub).then

/-! ## Loops -/

theorem forInit_keeps : Keeps c .inner P m (forInit sub) (forInit sub') := by
  refine (declarationKind?_agree fun _ _ h => absurd rfl h).andThen fun kind => ?_
  cases kind with
  | some kind => exact (declarators_keeps hsub true c.unlike_inner fun i hi => hi.2 rfl).then
  | none => exact (sequence_keeps hsub true c.unlike_inner).then

theorem unlessAt_keeps (s : Symbol) : Keeps c .inner P m (unlessAt sub s) (unlessAt sub' s) :=
  (check_agree s c.unlike_inner).andThen fun _ => .ite (fun _ => Keeps.pure) fun _ =>
    (sequence_keeps hsub false c.unlike_inner).then

theorem forEachRest_agree (hends : c.Statements ends) (left : ForInit)
    (hP : ∀ i, P i → Plain i.current.body) :
    Agree c ends P (m + 1) (forEachRest sub left) (forEachRest sub' left) Eq (fun _ => m)
      fun _ _ => True := by
  refine (checkWord_agree "of").andThen fun of => ?_
  refine (advance_plain fun i hi => hP i hi.1).andThen fun _ => .ite (fun _ => ?_) fun _ => ?_
  · refine (hsub.assignment false).before (fun _ => needs_expect) fun _ => ?_
    exact (expect_agree .rparen rfl).andThen fun _ => (hsub.statement hends).then
  · refine (sequence_keeps hsub false c.unlike_inner).before (fun _ => needs_expect) fun _ => ?_
    exact (expect_agree .rparen rfl).andThen fun _ => (hsub.statement hends).then

theorem forLoopRest_agree (hends : c.Statements ends) (init : Option ForInit) :
    Agree c ends P (m + 1) (forLoopRest sub init) (forLoopRest sub' init) Eq (fun _ => m)
      fun _ _ => True := by
  refine (expect_agree .semicolon rfl).andThen fun _ => ?_
  refine (unlessAt_keeps hsub .semicolon).before (fun _ => needs_expect) fun test => ?_
  refine (expect_agree .semicolon rfl).andThen fun _ => ?_
  refine (unlessAt_keeps hsub .rparen).before (fun _ => needs_expect) fun update => ?_
  exact (expect_agree .rparen rfl).andThen fun _ => (hsub.statement hends).then

theorem forStatement_keeps (hrefuses : sub.Refuses) (hends : c.Statements ends)
    (hP : ∀ i, P i → Plain i.current.body) :
    Keeps c ends P m (forStatement sub) (forStatement sub') := by
  refine (advance_plain hP).andThen fun _ => (expect_agree .lparen rfl).andThen fun _ => ?_
  refine (check_agree .semicolon c.unlike_inner).before (fun _ => Refuses.needs ?_) fun _ =>
    .ite (fun _ => forLoopRest_agree hsub hends none) fun _ => ?_
  · exact .ite (forLoopRest_refuses none) (forInit_refuses hrefuses).bind
  refine (forInit_keeps hsub).before (fun left => Refuses.needs ?_) fun left => ?_
  · refine peek_refuses fun t ht => ?_
    rw [ht.isWord_eq_false (by decide), ht.isWord_eq_false (by decide)]
    exact forLoopRest_refuses (some left)
  refine peek_agree.bind seen_refl fun t t' hseen => ?_
  rw [hseen.isWord, hseen.isWord]
  refine .ite (fun ht => forEachRest_agree hsub hends left fun i hi => ?_) fun _ =>
    forLoopRest_agree hsub hends (some left)
  rw [hi.2]
  rcases Bool.or_eq_true_iff.1 ht with ht | ht
  · exact plain_of_isWord ht
  · exact plain_of_isWord ht

theorem whileStatement_keeps (hends : c.Statements ends) (hP : ∀ i, P i → Plain i.current.body) :
    Keeps c ends P m (whileStatement sub) (whileStatement sub') :=
  (advance_plain hP).andThen fun _ => (parenthesized_keeps hsub).andThen fun _ =>
    (hsub.statement hends).then

theorem doStatement_keeps (hends : c.Statements ends) (hP : ∀ i, P i → Plain i.current.body) :
    Keeps c ends P m (doStatement sub) (doStatement sub') := by
  refine (advance_plain hP).andThen fun _ => ?_
  refine (hsub.statement c.statements_inner).before (fun _ => needs_expectWord) fun body => ?_
  refine (expectWord_agree "while").andThen fun _ => ?_
  exact (parenthesized_keeps hsub).andThen fun test => eatSemicolon_keeps hends

/-! ## Branches and jumps -/

theorem ifStatement_keeps (hends : c.Statements ends) (hP : ∀ i, P i → Plain i.current.body) :
    Keeps c ends P m (ifStatement sub) (ifStatement sub') := by
  refine (advance_plain hP).andThen fun _ => (parenthesized_keeps hsub).andThen fun test => ?_
  refine (hsub.statement hends).thenLook (fun whenTrue => ?_) ?_
  · exact (eatWord_agree "else").andThen fun _ =>
      .ite (fun _ => (hsub.statement hends).then) fun _ => Keeps.pure
  · -- no `else` follows at the end nor behind the semicolon
    intro hbehind whenTrue i make j hi hnil hrun
    have hlast : i.current.isWord "else" = false := by
      rw [hi.current_nil hnil, Token.isWord, c.eof]
      rfl
    rw [eatWord_bind hlast] at hrun
    cases hrun
    refine ⟨rfl, .inl ⟨_, _, eatWord_bind (hends.no_else hbehind), rfl, rfl⟩⟩

theorem returnStatement_keeps (hends : c.Statements ends) (hP : ∀ i, P i → Plain i.current.body) :
    Keeps c ends P m (returnStatement sub) (returnStatement sub') := by
  refine (advance_plain hP).andThen fun _ => (atStatementEnd_keeps hends).andThen fun _ => ?_
  refine .ite (fun _ => ?_) fun _ => ?_
  · exact Keeps.pure.andThen fun _ => (endStatement_keeps hends).then
  · exact (sequence_keeps hsub false (hends.unlike (by decide)).first).map.andThen fun _ =>
      (endStatement_keeps hends).then

omit hsub in
theorem jumpLabel?_keeps : Keeps c ends P m jumpLabel? jumpLabel? := by
  refine .peek_bind (fun t => ?_) ?_
  · split
    · refine (advance_plain fun i hi => ?_).andThen fun _ => Keeps.pure
      rw [hi.2, body_of_name? ‹_›]
      exact ⟨nofun, rfl⟩
    · exact Keeps.pure
  · rw [c.last_name?, c.next_name?]
    exact Keeps.pure

omit hsub in
theorem jumpStatement_keeps {make : Span → Option String → Stmt} (hends : c.Statements ends)
    (hP : ∀ i, P i → Plain i.current.body) :
    Keeps c ends P m (jumpStatement make) (jumpStatement make) :=
  (advance_plain hP).andThen fun _ => jumpLabel?_keeps.andThen fun _ =>
    (endStatement_keeps hends).then

theorem throwStatement_keeps (hrefuses : sub.Refuses) (hends : c.Statements ends)
    (hP : ∀ i, P i → Plain i.current.body) :
    Keeps c ends P m (throwStatement sub) (throwStatement sub') := by
  refine (advance_plain hP).andThen fun _ => ?_
  refine peek_inner.before (fun t => Refuses.needs ?_) fun t =>
    .ite (fun _ => fail_bind_agree) fun _ => ?_
  · exact .ite fail_refuses.bind (sequence_refuses hrefuses false).bind
  · exact (sequence_keeps hsub false (hends.unlike (by decide)).first).andThen fun _ =>
      (endStatement_keeps hends).then

theorem handlerParam?_keeps : Keeps c ends P m (handlerParam? sub) (handlerParam? sub') := by
  refine (eat_agree .lparen (c.unlike (by decide)) rfl).andThen fun b => ?_
  cases b with
  | true =>
    exact (bindingTarget_keeps hsub).andThen fun _ => (expect_agree .rparen rfl).andThen fun _ =>
      Keeps.pure
  | false => exact Keeps.pure

theorem tryStatement_keeps (hP : ∀ i, P i → Plain i.current.body) :
    Keeps c ends P m (tryStatement sub) (tryStatement sub') := by
  refine (advance_plain hP).andThen fun _ => (block_keeps hsub).andThen fun body => ?_
  have hmake (handler : Option Handler) (finalizer : Option (List Stmt)) {P : Input → Prop} :
      Keeps c ends P m
        (do
          if handler.isNone && finalizer.isNone then fail .missingHandler
          return fun span => Stmt.trying span body handler finalizer)
        (do
          if handler.isNone && finalizer.isNone then fail .missingHandler
          return fun span => Stmt.trying span body handler finalizer) :=
    .ite (fun _ => fail_bind_agree) fun _ => Keeps.pure
  have hfinally (handler : Option Handler) {P : Input → Prop} : Keeps c ends P m
      (do
        let finalizer ← if ← eatWord "finally" then some <$> block sub else pure none
        if handler.isNone && finalizer.isNone then fail .missingHandler
        return fun span => Stmt.trying span body handler finalizer)
      (do
        let finalizer ← if ← eatWord "finally" then some <$> block sub' else pure none
        if handler.isNone && finalizer.isNone then fail .missingHandler
        return fun span => Stmt.trying span body handler finalizer) := by
    refine (eatWord_agree "finally").andThen fun _ => .ite (fun _ => ?_) fun _ => ?_
    · exact (block_keeps hsub).map.andThen fun _ => hmake _ _
    · exact Keeps.pure.andThen fun _ => hmake _ _
  refine (eatWord_agree "catch").andThen fun _ => .ite (fun _ => ?_) fun _ => ?_
  · refine (handlerParam?_keeps hsub).andThen fun _ => (block_keeps hsub).andThen fun _ => ?_
    exact Keeps.pure.andThen fun _ => hfinally _
  · exact Keeps.pure.andThen fun _ => hfinally _

theorem caseTest_keeps : Keeps c .inner P m (caseTest sub) (caseTest sub') := by
  refine (eatWord_agree "case").andThen fun _ => .ite (fun _ => ?_) fun _ => ?_
  · exact (sequence_keeps hsub false c.unlike_inner).then
  · exact (eatWord_agree "default").andThen fun _ =>
      .ite (fun _ => Keeps.pure) fun _ => unexpected_agree

theorem caseBody_keeps : Keeps c .inner P m (caseBody sub) (caseBody sub') := by
  refine many_keeps fun P => peek_inner.andThen fun t => .ite (fun _ => Keeps.pure) fun _ => ?_
  exact .ite (fun _ => unexpected_bind_agree) fun _ => (hsub.statement c.statements_inner).then

def caseItem (sub : Level) : Parser (Option Case) := do
  if ← eat .rbrace then return none
  let test ← caseTest sub
  expect .colon
  return some (Case.mk test (← caseBody sub))

omit hsub in
theorem manyUpTo_caseItem (sub : Level) (fuel : Nat) :
    manyUpTo (caseItem sub) (fuel + 1) = do
      if ← eat .rbrace then return []
      let test ← caseTest sub
      expect .colon
      let body ← caseBody sub
      return Case.mk test body :: (← manyUpTo (caseItem sub) fuel) := by
  change ((eat .rbrace >>= fun b => if b = true then pure none else caseTest sub >>= fun test =>
    expect .colon >>= fun _ => caseBody sub >>= fun body => pure (some (Case.mk test body))) >>=
    _) = _
  rw [bind_assoc]
  refine bind_congr fun b => ?_
  cases b with
  | true => rfl
  | false => simp only [Bool.false_eq_true, if_false, bind_assoc, pure_bind]

omit hsub in
theorem manyUpTo_caseItem_refuses (sub : Level) (fuel : Nat) :
    Refuses (manyUpTo (caseItem sub) fuel) := by
  cases fuel with
  | zero => exact unexpected_refuses
  | succ fuel => exact Refuses.bind (eat_refuses caseTest_refuses.bind)

theorem cases_agree (hends : c.Statements ends) {fuel fuel' : Nat} (hfuel : fuel ≤ fuel') :
    Agree c ends P (m + 1) (manyUpTo (caseItem sub) fuel) (manyUpTo (caseItem sub') fuel') Eq
      (fun _ => m) fun _ _ => True := by
  induction fuel generalizing fuel' P with
  | zero => exact unexpected_agree
  | succ fuel ih =>
    obtain ⟨fuel', rfl⟩ : ∃ f, fuel' = f + 1 := ⟨fuel' - 1, by omega⟩
    rw [manyUpTo_caseItem, manyUpTo_caseItem]
    -- the brace that ends the switch closes a bracket, a part of it none
    refine (eat_agree .rbrace (hends.unlike (by decide)).first (n := m) rfl).andThen fun b => ?_
    cases b with
    | true => exact .pure rfl rfl fun _ _ => True.intro
    | false =>
      refine (caseTest_keeps hsub).before (fun _ => needs_expect) fun test => ?_
      refine (expect_agree .colon rfl).andThen fun _ => ?_
      refine (caseBody_keeps hsub).before
        (fun _ => (manyUpTo_caseItem_refuses sub fuel).bind.needs) fun body => ?_
      exact (ih (by omega)).thenPure (fun _ => rfl) fun _ _ _ => True.intro

theorem switchStatement_keeps (hends : c.Statements ends) (hP : ∀ i, P i → Plain i.current.body) :
    Keeps c ends P m (switchStatement sub) (switchStatement sub') := by
  refine (advance_plain hP).andThen fun _ => (parenthesized_keeps hsub).andThen fun subject => ?_
  refine (expect_agree .lbrace rfl).andThen fun _ => ?_
  have hcases {P : Input → Prop} : Agree c ends P (m + 1) (many (caseItem sub))
      (many (caseItem sub')) Eq (fun _ => m) fun _ _ => True := by
    intro i a j hi hPi hrun
    refine cases_agree hsub hends ?_ i a j hi hPi hrun
    rw [Inset.put_rest, List.length_append]
    omega
  exact hcases.thenPure (fun _ => rfl) fun _ _ _ => True.intro

/-! ## Statements -/

theorem expressionStatement_keeps (hends : c.Statements ends) :
    Keeps c ends P m (expressionStatement sub) (expressionStatement sub') :=
  (sequence_keeps hsub false (hends.unlike (by decide)).first).andThen fun _ =>
    (endStatement_keeps hends).then

theorem labeledOrExpression_keeps (hends : c.Statements ends) (name : String)
    (hP : ∀ i, P i → Plain i.current.body) :
    Keeps c ends P m (labeledOrExpression sub name) (labeledOrExpression sub' name) := by
  refine (peekSecond_agree fun i hi _ => (hP i hi).1).bind seen_refl fun t t' hseen => ?_
  rw [hseen.isSymbol (c.inside (s := .colon) (by decide))]
  refine .ite (fun ht => ?_) fun _ => expressionStatement_keeps hsub hends
  refine (advance_plain fun i hi => hP i hi.1).andThen fun _ => ?_
  refine (advance_past (.symbol .colon) ?_ nofun rfl).andThen fun _ => (hsub.statement hends).then
  rintro _ ⟨i, hi, rfl⟩
  rw [Input.current_advance, hi.2]
  exact beq_iff_eq.1 (Bool.and_eq_true_iff.1 ht).1

variable (hrefuses : sub.Refuses)
include hrefuses

theorem wordStatement_keeps (hends : c.Statements ends) (name : String)
    (hP : ∀ i, P i → Plain i.current.body) :
    Keeps c ends P m (wordStatement sub name) (wordStatement sub' name) := by
  refine (declarationKind?_agree fun i hi _ => (hP i hi).1).andThen fun kind => ?_
  cases kind with
  | some kind => exact declaration_keeps hsub hends kind fun i hi => hi.2 rfl
  | none =>
    have hnone : ∀ i, (P i ∧ ((none : Option VarKind).isSome = true → Plain i.current.body)) →
        Plain i.current.body :=
      fun i hi => hP i hi.1
    dsimp only
    split
    · exact (advance_plain hnone).andThen fun _ => functionDeclaration_keeps hsub
    · refine (asyncFunctionAhead_agree fun i hi => (hnone i hi).1).andThen fun b => ?_
      refine .ite (fun hb => ?_) fun _ =>
        labeledOrExpression_keeps hsub hends _ fun i hi => hnone i hi.1
      refine (advance_plain fun i hi => hnone i hi.1).andThen fun _ => ?_
      refine (advance_past (.word "function") ?_ nofun rfl).andThen fun _ =>
        functionDeclaration_keeps hsub
      rintro _ ⟨i, hi, rfl⟩
      rw [Input.current_advance]
      exact hi.2 hb
    · exact ifStatement_keeps hsub hends hnone
    · exact forStatement_keeps hsub hrefuses hends hnone
    · exact whileStatement_keeps hsub hends hnone
    · exact doStatement_keeps hsub hends hnone
    · exact returnStatement_keeps hsub hends hnone
    · exact jumpStatement_keeps hends hnone
    · exact jumpStatement_keeps hends hnone
    · exact throwStatement_keeps hsub hrefuses hends hnone
    · exact tryStatement_keeps hsub hnone
    · exact switchStatement_keeps hsub hends hnone
    · exact (advance_plain hnone).andThen fun _ => (endStatement_keeps hends).then
    · exact labeledOrExpression_keeps hsub hends _ hnone

theorem statementAt_keeps (hends : c.Statements ends) :
    Keeps c ends P m (statementAt sub) (statementAt sub') := by
  refine .opens (statementAt_refuses hrefuses).needs (here_agree.andThen fun start => ?_)
  refine peek_inner.within (fun t i x hi hP _ => hP.1.1.2) fun t => ?_
  -- behind the text a statement ends where the text does, since the tokens have no places
  have hspan : ends = .behind → ∀ (make : Span → Stmt) i s j, c.Fits i → i.rest = [] →
      (do return make (← spanFrom start) : Parser Stmt) i = .ok (s, j) →
      j = i ∧ Finds c.poorer (do return make (← spanFrom start)) c.past (s = ·) (· = c.past) := by
    intro _ make i s j hi _ hrun
    cases hrun
    refine ⟨rfl, .inl ⟨_, _, rfl, ?_, rfl⟩⟩
    rw [hi.prevEnd]
    rfl
  split
  · exact (block_keeps hsub).andThen fun _ => Keeps.pure.andThen fun _ => spanned_keeps start
  · refine (advance_past (.symbol .semicolon) (fun i hi => ?_) nofun rfl).andThen fun _ =>
      Keeps.pure.andThen fun _ => spanned_keeps start
    rw [hi.2]
    assumption
  · refine (wordStatement_keeps hsub hrefuses hends _ fun i hi => ?_).thenLook
      (fun _ => spanned_keeps start) hspan
    rw [hi.2, ‹t.body = _›]
    exact ⟨nofun, rfl⟩
  · exact (expressionStatement_keeps hsub hends).thenLook (fun _ => spanned_keeps start) hspan

end

/-! ## Levels -/

theorem exhausted_agrees {l : Level} : Level.exhausted.Agrees c l :=
  ⟨fun _ => fail_agree, fun _ => fail_agree, fun _ _ => fail_agree, fail_agree,
    fun _ => fail_agree⟩

/-- A level that finds the same as some level also does if the budget of the other is spent. -/
theorem Level.Agrees.spent {l l' : Level} (hpoorer : c.poorer) (h : l.Agrees c l') :
    l.Agrees c .exhausted :=
  ⟨fun hends => (h.statement hends).spent hpoorer, fun noIn => (h.assignment noIn).spent hpoorer,
    fun noIn least => (h.binary noIn least).spent hpoorer, h.unary.spent hpoorer,
    fun hP => (h.construction hP).spent hpoorer⟩

theorem descent_agrees (lower lower' : Nat → Level) (hrefuses : ∀ b, (lower b).Refuses)
    (h : ∀ b b', c.Budgets b b' → (lower b).Agrees c (lower' b')) {left left' : Nat}
    (hleft : c.Budgets left left') :
    Level.Agrees c
      ⟨statementAt (lower left), assignmentAt (lower left), binaryAt lower left,
        unaryAt lower left, constructionAt lower left⟩
      ⟨statementAt (lower' left'), assignmentAt (lower' left'), binaryAt lower' left',
        unaryAt lower' left', constructionAt lower' left'⟩ :=
  ⟨statementAt_keeps (h _ _ hleft) (hrefuses left), assignmentAt_keeps (h _ _ hleft),
    binaryAt_keeps h hleft, unaryAt_keeps h hleft, constructionAt_keeps h hleft⟩

/-- **Every level of the grammar finds the same in a larger text.** A smaller budget may be spent
on the way. -/
theorem level_agrees {descents descents' budget budget' : Nat}
    (h : c.poorer ∨ descents = descents' ∧ budget = budget') :
    (level descents budget).Agrees c (level descents' budget') := by
  induction descents generalizing descents' budget budget' with
  | zero => exact exhausted_agrees
  | succ descents ih =>
    rw [level]
    split
    · exact exhausted_agrees
    rename_i hbudget
    have hrefuses := level_refuses descents
    rcases h with hpoorer | ⟨rfl, rfl⟩
    · have hbudgets : c.Budgets (budget - nestCost) 0 := .inl hpoorer
      have hself := descent_agrees (level descents) (level descents) hrefuses
        (fun _ _ _ => ih (.inl hpoorer)) hbudgets
      cases descents' with
      | zero => exact hself.spent hpoorer
      | succ descents' =>
        rw [level]
        split
        · exact hself.spent hpoorer
        · exact descent_agrees (level descents) (level descents') hrefuses
            (fun _ _ _ => ih (.inl hpoorer)) (.inl hpoorer)
    · rw [level, if_neg hbudget]
      exact descent_agrees (level descents) (level descents) hrefuses
        (fun _ _ hb => ih (hb.imp_right fun h => ⟨rfl, h⟩)) (.inr rfl)

end WidgetLint.Script.Parser
