import WidgetLint.Proofs.Script.Alike
import WidgetLint.Script.Parser.Expr

/-!
# The grammar of expressions does not look at positions

Every reader of expressions is alike on an input and on the moved input, provided that the level
below it is (`Level.Natural`).
-/

namespace WidgetLint.Script.Parser

open Text

variable {f : Respelling} {α : Type}

/-! ## Names and lists of expressions -/

/-- The parts of the grammar at a level do not look at positions. -/
structure Level.Natural (f : Respelling) (l : Level) : Prop where
  statement : Alike f (Image (Stmt.move f.position)) l.statement l.statement
  assignment : ∀ noIn,
    Alike f (Image (Expr.move f.position)) (l.assignment noIn) (l.assignment noIn)
  binary : ∀ noIn least,
    Alike f (Image (Expr.move f.position)) (l.binary noIn least) (l.binary noIn least)
  unary : Alike f (Image (Expr.move f.position)) l.unary l.unary
  construction : Alike f (Image (Expr.move f.position)) l.construction l.construction

theorem identifier_alike : Alike f (Image (Expr.move f.position)) identifier identifier := by
  refine here_alike.andThen fun start => peek_alike.andThen fun t => ?_
  rw [Token.respell_name?]
  cases t.name? with
  | none => exact unexpected_alike
  | some name =>
    exact advance_alike.andThen fun _ => (spanFrom_alike start).andThen fun _ =>
      .pure (by simp [Image, Expr.relabel])

theorem memberName_alike :
    Alike f (Image (Prod.map id (Span.move f.position))) memberName memberName := by
  refine here_alike.andThen fun start => peek_alike.andThen fun t => ?_
  rw [Token.respell_body]
  cases t.body.memberName? with
  | none => exact unexpected_alike
  | some name =>
    exact advance_alike.andThen fun _ => (spanFrom_alike start).andThen fun _ => .pure rfl

section
variable {sub : Level} (hsub : sub.Natural f)
include hsub

theorem sequence_alike (noIn : Bool) :
    Alike f (Image (Expr.move f.position)) (sequence sub noIn) (sequence sub noIn) := by
  refine here_alike.andThen fun start => (hsub.assignment noIn).andThen fun first => ?_
  refine (check_alike .comma).andThen fun _ => .ite (fun _ => ?_) fun _ => .pure rfl
  have hitem : Alike f (Image (Option.map (Expr.move f.position)))
      (do if ← eat .comma then return some (← sub.assignment noIn) else return none)
      (do if ← eat .comma then return some (← sub.assignment noIn) else return none) :=
    (eat_alike .comma).andThen fun _ =>
      .ite (fun _ => (hsub.assignment noIn).andThen fun _ => .pure rfl) fun _ => .pure rfl
  refine (many_alike hitem).andThen fun others => (spanFrom_alike start).andThen fun _ => ?_
  exact .pure (by simp [Image, Expr.relabel, relabelAll_eq])

theorem parenthesized_alike :
    Alike f (Image (Expr.move f.position)) (parenthesized sub) (parenthesized sub) :=
  (expect_alike .lparen).andThen fun _ => (sequence_alike hsub false).andThen fun _ =>
    (expect_alike .rparen).andThen fun _ => .pure rfl

theorem spreadOrAssignment_alike :
    Alike f (Image (Expr.move f.position)) (spreadOrAssignment sub) (spreadOrAssignment sub) := by
  refine here_alike.andThen fun start => (eat_alike .ellipsis).andThen fun _ => ?_
  refine .ite (fun _ => ?_) fun _ => hsub.assignment false
  exact (hsub.assignment false).andThen fun _ => (spanFrom_alike start).andThen fun _ =>
    .pure (by simp [Image, Expr.relabel])

theorem arguments_alike :
    Alike f (Image (List.map (Expr.move f.position))) (arguments sub) (arguments sub) :=
  bracketed_alike .lparen .rparen (spreadOrAssignment_alike hsub)

theorem array_alike : Alike f (Image (Expr.move f.position)) (array sub) (array sub) := by
  refine here_alike.andThen fun start => (expect_alike .lbracket).andThen fun _ => ?_
  have hitem : Alike f (Image (Option.map (Option.map (Expr.move f.position))))
      (do
        if ← check .rbracket then return none
        if ← eat .comma then return some none
        let item ← spreadOrAssignment sub
        unless ← check .rbracket do expect .comma
        return some (some item))
      (do
        if ← check .rbracket then return none
        if ← eat .comma then return some none
        let item ← spreadOrAssignment sub
        unless ← check .rbracket do expect .comma
        return some (some item)) := by
    refine (check_alike .rbracket).andThen fun _ => .ite (fun _ => .pure rfl) fun _ => ?_
    refine (eat_alike .comma).andThen fun _ => .ite (fun _ => .pure rfl) fun _ => ?_
    refine (spreadOrAssignment_alike hsub).andThen fun item => ?_
    refine (check_alike .rbracket).andThen fun _ => .ite (fun _ => .pure rfl) fun _ => ?_
    exact (expect_alike .comma).andThen fun _ => .pure rfl
  refine (many_alike hitem).andThen fun items => (expect_alike .rbracket).andThen fun _ => ?_
  exact (spanFrom_alike start).andThen fun _ =>
    .pure (by simp [Image, Expr.relabel, relabelItems_eq])

/-! ## Functions and objects -/

theorem block_alike :
    Alike f (Image (List.map (Stmt.move f.position))) (block sub) (block sub) := by
  refine (expect_alike .lbrace).andThen fun _ => ?_
  have hitem : Alike f (Image (Option.map (Stmt.move f.position)))
      (do
        if ← check .rbrace then return none
        if ← atEnd then unexpected
        return some (← sub.statement))
      (do
        if ← check .rbrace then return none
        if ← atEnd then unexpected
        return some (← sub.statement)) := by
    refine (check_alike .rbrace).andThen fun _ => .ite (fun _ => .pure rfl) fun _ => ?_
    refine atEnd_alike.andThen fun _ => .ite (fun _ => ?_) fun _ => ?_
    · exact unexpected_alike.bind (R := Image id) fun _ _ _ =>
        hsub.statement.andThen fun _ => .pure rfl
    · exact hsub.statement.andThen fun _ => .pure rfl
  exact (many_alike hitem).andThen fun _ => advance_alike.andThen fun _ => .pure rfl

theorem computedKey_alike :
    Alike f (Image (Key.relabel (.moving f.position))) (computedKey sub) (computedKey sub) :=
  advance_alike.andThen fun _ => (hsub.assignment false).andThen fun _ =>
    (expect_alike .rbracket).andThen fun _ => .pure (by simp [Image, Key.relabel])

theorem memberKey_alike :
    Alike f (Image (Key.relabel (.moving f.position))) (memberKey sub) (memberKey sub) := by
  refine peek_alike.andThen fun t => ?_
  rw [Token.respell_body]
  split
  · exact advance_alike.andThen fun _ => .pure (by simp [Image, Key.relabel])
  · exact advance_alike.andThen fun _ => .pure (by simp [Image, Key.relabel])
  · exact computedKey_alike hsub
  · split
    · exact advance_alike.andThen fun _ => .pure (by simp [Image, Key.relabel])
    · exact unexpected_alike

variable {target : Parser Expr} (htarget : Alike f (Image (Expr.move f.position)) target target)
include htarget

theorem bindingElement_alike :
    Alike f (Image (Expr.move f.position)) (bindingElement sub target)
      (bindingElement sub target) := by
  refine here_alike.andThen fun start => htarget.andThen fun name => ?_
  refine (eat_alike .eq).andThen fun _ => .ite (fun _ => ?_) fun _ => .pure rfl
  exact (hsub.assignment false).andThen fun _ => (spanFrom_alike start).andThen fun _ =>
    .pure (by simp [Image, Expr.relabel])

theorem param_alike :
    Alike f (Image (Expr.move f.position)) (param sub target) (param sub target) := by
  refine here_alike.andThen fun start => (eat_alike .ellipsis).andThen fun _ => ?_
  refine .ite (fun _ => ?_) fun _ => bindingElement_alike hsub htarget
  exact htarget.andThen fun _ => (spanFrom_alike start).andThen fun _ =>
    .pure (by simp [Image, Expr.relabel])

theorem paramsWith_alike :
    Alike f (Image (List.map (Expr.move f.position))) (paramsWith sub target)
      (paramsWith sub target) :=
  bracketed_alike .lparen .rparen (param_alike hsub htarget)

theorem methodValue_alike :
    Alike f (Image (Expr.move f.position)) (methodValue sub target) (methodValue sub target) := by
  refine here_alike.andThen fun start => (paramsWith_alike hsub htarget).andThen fun params => ?_
  exact (block_alike hsub).andThen fun _ => (spanFrom_alike start).andThen fun _ =>
    .pure (by simp [Image, Expr.relabel, relabelAll_eq, relabelBody_eq])

theorem memberValue_alike (start : Position) (generator : Bool) (keyToken : Token) :
    Alike f (Image (Prod.map id (Expr.move f.position)))
      (memberValue sub target start generator keyToken)
      (memberValue sub target (f.position start) generator (keyToken.respell f)) := by
  refine peek_alike.andThen fun t => ?_
  rw [Token.respell_body, Token.respell_name?]
  split
  · exact advance_alike.andThen fun _ => (hsub.assignment false).andThen fun _ => .pure rfl
  · exact (methodValue_alike hsub htarget).andThen fun _ => .pure rfl
  · exact .pure (by simp [Image, Expr.relabel])
  · exact .pure (by simp [Image, Expr.relabel])
  · refine advance_alike.andThen fun _ => (hsub.assignment false).andThen fun _ => ?_
    exact (spanFrom_alike start).andThen fun _ => .pure (by simp [Image, Expr.relabel])
  · exact unexpected_alike

theorem memberWith_alike :
    Alike f (Image (Member.relabel (.moving f.position))) (memberWith sub target)
      (memberWith sub target) := by
  refine here_alike.andThen fun start => (eat_alike .ellipsis).andThen fun _ => ?_
  refine .ite (fun _ => ?_) fun _ => ?_
  · exact (hsub.assignment false).andThen fun _ => .pure (by simp [Image, Member.relabel])
  · refine peek_alike.andThen fun t => peekSecond_alike.andThen fun next => ?_
    rw [show announcedKind? (t.respell f) (next.respell f) = announcedKind? t next from rfl]
    cases announcedKind? t next with
    | some kind =>
      refine advance_alike.andThen fun _ => (memberKey_alike hsub).andThen fun key => ?_
      refine (methodValue_alike hsub htarget).andThen fun value => ?_
      exact (spanFrom_alike start).andThen fun _ => .pure (by simp [Image, Member.relabel])
    | none =>
      refine (eat_alike .star).andThen fun generator => peek_alike.andThen fun keyToken => ?_
      refine (memberKey_alike hsub).andThen fun key => ?_
      refine (memberValue_alike hsub htarget start generator keyToken).andThen fun value => ?_
      exact (spanFrom_alike start).andThen fun _ => .pure (by simp [Image, Member.relabel])

theorem objectWith_alike :
    Alike f (Image (Expr.move f.position)) (objectWith sub target) (objectWith sub target) := by
  refine here_alike.andThen fun start => ?_
  refine (bracketed_alike .lbrace .rbrace (memberWith_alike hsub htarget)).andThen fun _ => ?_
  exact (spanFrom_alike start).andThen fun _ =>
    .pure (by simp [Image, Expr.relabel, relabelMembers_eq])

omit htarget in
theorem bindingTargetWith_alike {object : Parser Expr}
    (hobject : Alike f (Image (Expr.move f.position)) object object) :
    Alike f (Image (Expr.move f.position)) (bindingTargetWith sub object)
      (bindingTargetWith sub object) := by
  refine peek_alike.andThen fun t => ?_
  rw [Token.respell_body]
  split
  · exact hobject
  · exact array_alike hsub
  · exact identifier_alike

omit htarget in
theorem objectUpTo_alike (fuel : Nat) :
    Alike f (Image (Expr.move f.position)) (objectUpTo sub fuel) (objectUpTo sub fuel) := by
  induction fuel with
  | zero => exact unexpected_alike
  | succ fuel ih => exact objectWith_alike hsub (bindingTargetWith_alike hsub ih)

omit htarget in
theorem object_alike : Alike f (Image (Expr.move f.position)) (object sub) (object sub) := by
  refine .get_bind fun i => ?_
  rw [Input.respell_rest_length]
  exact objectUpTo_alike hsub _

omit htarget in
theorem bindingTarget_alike :
    Alike f (Image (Expr.move f.position)) (bindingTarget sub) (bindingTarget sub) :=
  bindingTargetWith_alike hsub (object_alike hsub)

omit htarget in
theorem params_alike :
    Alike f (Image (List.map (Expr.move f.position))) (params sub) (params sub) :=
  paramsWith_alike hsub (bindingTarget_alike hsub)

omit hsub htarget in
theorem functionName?_alike : Alike f (Image id) functionName? functionName? := by
  refine peek_alike.andThen fun t => .ite (fun _ => ?_) fun _ => .pure rfl
  refine peek_alike.andThen fun t => ?_
  rw [Token.respell_name?]
  cases t.name? with
  | none => exact unexpected_alike
  | some name => exact advance_alike.andThen fun _ => .pure rfl

omit htarget in
theorem functionRest_alike :
    Alike f (Image (Prod.map (List.map (Expr.move f.position)) (List.map (Stmt.move f.position))))
      (functionRest sub) (functionRest sub) :=
  (params_alike hsub).andThen fun _ => (block_alike hsub).andThen fun _ => .pure rfl

omit htarget in
theorem functionExpr_alike (start : Position) :
    Alike f (Image (Expr.move f.position)) (functionExpr sub start)
      (functionExpr sub (f.position start)) := by
  refine (eat_alike .star).andThen fun _ => functionName?_alike.andThen fun name => ?_
  refine (functionRest_alike hsub).andThen fun _ => (spanFrom_alike start).andThen fun _ => ?_
  exact .pure (by simp [Image, Expr.relabel, relabelAll_eq, relabelBody_eq])

end

/-! ## Operands -/

theorem asyncFunctionAhead_alike : Alike f (Image id) asyncFunctionAhead asyncFunctionAhead :=
  peekSecond_alike.andThen fun _ => .pure rfl

theorem atom_alike {make : Span → Expr}
    (h : ∀ s, make (s.move f.position) = (make s).move f.position) :
    Alike f (Image (Expr.move f.position)) (atom make) (atom make) :=
  here_alike.andThen fun start => advance_alike.andThen fun _ =>
    (spanFrom_alike start).andThen fun s => .pure (h s)

section
variable {sub : Level} (hsub : sub.Natural f)
include hsub

theorem wordOperand_alike (name : String) :
    Alike f (Image (Expr.move f.position)) (wordOperand sub name) (wordOperand sub name) := by
  refine here_alike.andThen fun start => .ite (fun _ => ?_) fun _ => ?_
  · exact atom_alike fun s => by simp [Expr.relabel]
  · refine .ite (fun _ => advance_alike.andThen fun _ => functionExpr_alike hsub start) fun _ => ?_
    refine asyncFunctionAhead_alike.andThen fun _ => .ite (fun _ => ?_) fun _ => ?_
    · exact advance_alike.andThen fun _ => advance_alike.andThen fun _ =>
        functionExpr_alike hsub start
    · exact .ite (fun _ => unexpected_alike) fun _ => atom_alike fun s => by simp [Expr.relabel]

theorem primary_alike : Alike f (Image (Expr.move f.position)) (primary sub) (primary sub) := by
  refine peek_alike.andThen fun t => ?_
  rw [Token.respell_body]
  split
  · exact atom_alike fun s => by simp [Expr.relabel]
  · exact atom_alike fun s => by simp [Expr.relabel]
  · exact atom_alike fun s => by simp [Expr.relabel]
  · exact atom_alike fun s => by simp [Expr.relabel]
  · exact atom_alike fun s => by simp [Expr.relabel]
  · exact atom_alike fun s => by simp [Expr.relabel]
  · exact wordOperand_alike hsub _
  · exact parenthesized_alike hsub
  · exact array_alike hsub
  · exact object_alike hsub
  · exact unexpected_alike

theorem indexKey_alike : Alike f (Image (Expr.move f.position)) (indexKey sub) (indexKey sub) :=
  (expect_alike .lbracket).andThen fun _ => (sequence_alike hsub false).andThen fun _ =>
    (expect_alike .rbracket).andThen fun _ => .pure rfl

theorem access_alike (start : Position) (e : Expr) (optional : Bool) :
    Alike f (Image (Expr.move f.position)) (access sub start e optional)
      (access sub (f.position start) (e.move f.position) optional) := by
  refine (check_alike .lbracket).andThen fun _ => .ite (fun _ => ?_) fun _ => ?_
  · exact (indexKey_alike hsub).andThen fun _ => (spanFrom_alike start).andThen fun _ =>
      .pure (by simp [Image, Expr.relabel])
  · exact memberName_alike.andThen fun _ => (spanFrom_alike start).andThen fun _ =>
      .pure (by simp [Image, Expr.relabel])

theorem callOf_alike (start : Position) (e : Expr) (optional : Bool) :
    Alike f (Image (Expr.move f.position)) (callOf sub start e optional)
      (callOf sub (f.position start) (e.move f.position) optional) :=
  (arguments_alike hsub).andThen fun _ => (spanFrom_alike start).andThen fun _ =>
    .pure (by simp [Image, Expr.relabel, relabelAll_eq])

theorem chainLink_alike (start : Position) (e : Expr) (s : Symbol) :
    Alike f (Image (Expr.move f.position)) (chainLink sub start e s)
      (chainLink sub (f.position start) (e.move f.position) s) := by
  unfold chainLink
  split
  · exact advance_alike.andThen fun _ => memberName_alike.andThen fun _ =>
      (spanFrom_alike start).andThen fun _ => .pure (by simp [Image, Expr.relabel])
  · exact advance_alike.andThen fun _ => (check_alike .lparen).andThen fun _ =>
      .ite (fun _ => callOf_alike hsub start e true) fun _ => access_alike hsub start e true
  · exact callOf_alike hsub start e false
  · exact access_alike hsub start e false

end

section
variable {lower : Nat → Level} (hlower : ∀ budget, (lower budget).Natural f)
include hlower

theorem chainStep_alike (start : Position) (links : List Symbol) (state : Nat × Expr) :
    Alike f
      (Image (Sum.map (Prod.map id (Expr.move f.position)) (Prod.map id (Expr.move f.position))))
      (chainStep lower start links state)
      (chainStep lower (f.position start) links (state.map id (Expr.move f.position))) := by
  obtain ⟨budget, e⟩ := state
  refine peek_alike.andThen fun t => ?_
  rw [Token.respell_body]
  split
  · refine .ite (fun _ => link_alike budget fun b => ?_) fun _ => .pure rfl
    exact (chainLink_alike (hlower b) start e _).andThen fun _ => .pure rfl
  · exact .pure rfl

theorem newRest_alike (budget : Nat) (start : Position) :
    Alike f (Image (Expr.move f.position)) (newRest lower budget start)
      (newRest lower budget (f.position start)) := by
  have hrest (callee : Expr) : Alike f (Image (Expr.move f.position))
      (do
        let state ← iterate (chainStep lower start [.dot, .lbracket]) (budget, callee)
        let arguments ← if ← check .lparen then arguments (lower state.1) else pure []
        return .new (← spanFrom start) state.2 arguments)
      (do
        let state ← iterate (chainStep lower (f.position start) [.dot, .lbracket])
          (budget, callee.move f.position)
        let arguments ← if ← check .lparen then arguments (lower state.1) else pure []
        return .new (← spanFrom (f.position start)) state.2 arguments) := by
    have hchain := iterate_alike (chainStep_alike hlower start [.dot, .lbracket]) (budget, callee)
    refine hchain.andThen fun state => (check_alike .lparen).andThen fun _ => ?_
    have hnew (arguments : List Expr) : Alike f (Image (Expr.move f.position))
        (do return .new (← spanFrom start) state.2 arguments)
        (do return .new (← spanFrom (f.position start)) (state.2.move f.position)
              (arguments.map (Expr.move f.position))) :=
      (spanFrom_alike start).andThen fun _ =>
        .pure (by simp [Image, Expr.relabel, relabelAll_eq])
    exact .ite (fun _ => (arguments_alike (hlower _)).andThen hnew) fun _ => hnew []
  refine (checkWord_alike "new").andThen fun _ => .ite (fun _ => ?_) fun _ => ?_
  · exact (hlower budget).construction.andThen hrest
  · exact (primary_alike (hlower budget)).andThen hrest

theorem constructionAt_alike (budget : Nat) :
    Alike f (Image (Expr.move f.position)) (constructionAt lower budget)
      (constructionAt lower budget) := by
  refine here_alike.andThen fun start => advance_alike.andThen fun _ => ?_
  refine (eat_alike .dot).andThen fun _ => .ite (fun _ => ?_) fun _ =>
    newRest_alike hlower budget start
  refine (spanFrom_alike start).andThen fun _ => memberName_alike.andThen fun _ => ?_
  exact (spanFrom_alike start).andThen fun _ => .pure (by simp [Image, Expr.relabel])

theorem callMember_alike (budget : Nat) :
    Alike f (Image (Expr.move f.position)) (callMember lower budget) (callMember lower budget) := by
  refine here_alike.andThen fun start => (checkWord_alike "new").andThen fun _ => ?_
  have hrest (first : Expr) : Alike f (Image (Expr.move f.position))
      (do
        let state ← iterate (chainStep lower start [.dot, .questionDot, .lbracket, .lparen])
          (budget, first)
        return state.2)
      (do
        let state ← iterate
          (chainStep lower (f.position start) [.dot, .questionDot, .lbracket, .lparen])
          (budget, first.move f.position)
        return state.2) :=
    (iterate_alike (chainStep_alike hlower start _) (budget, first)).andThen fun _ => .pure rfl
  refine .ite (fun _ => ?_) fun _ => ?_
  · exact (hlower budget).construction.andThen hrest
  · exact (primary_alike (hlower budget)).andThen hrest

theorem postfixed_alike (budget : Nat) :
    Alike f (Image (Expr.move f.position)) (postfixed lower budget) (postfixed lower budget) := by
  refine here_alike.andThen fun start => (callMember_alike hlower budget).andThen fun e => ?_
  refine peek_alike.andThen fun t => ?_
  rw [show updateOp? (t.respell f) = updateOp? t from rfl, Token.respell_newlineBefore]
  split
  · exact advance_alike.andThen fun _ => (spanFrom_alike start).andThen fun _ =>
      .pure (by simp [Image, Expr.relabel])
  · exact .pure rfl

theorem unaryAt_alike (budget : Nat) :
    Alike f (Image (Expr.move f.position)) (unaryAt lower budget) (unaryAt lower budget) := by
  refine here_alike.andThen fun start => peek_alike.andThen fun t => ?_
  rw [show unaryOp? (t.respell f) = unaryOp? t from rfl,
    show updateOp? (t.respell f) = updateOp? t from rfl]
  split
  · exact advance_alike.andThen fun _ => (hlower budget).unary.andThen fun _ =>
      (spanFrom_alike start).andThen fun _ => .pure (by simp [Image, Expr.relabel])
  · exact advance_alike.andThen fun _ => (hlower budget).unary.andThen fun _ =>
      (spanFrom_alike start).andThen fun _ => .pure (by simp [Image, Expr.relabel])
  · exact postfixed_alike hlower budget

/-! ## Operators -/

theorem binaryStep_alike (noIn : Bool) (least : Nat) (start : Position) (state : Nat × Expr) :
    Alike f (Image (Sum.map (Prod.map id (Expr.move f.position)) (Expr.move f.position)))
      (binaryStep lower noIn least start state)
      (binaryStep lower noIn least (f.position start) (state.map id (Expr.move f.position))) := by
  obtain ⟨budget, left⟩ := state
  refine peek_alike.andThen fun t => ?_
  rw [show binaryOp? noIn (t.respell f) = binaryOp? noIn t from rfl]
  cases binaryOp? noIn t with
  | none => exact .pure rfl
  | some op =>
    refine .ite (fun _ => .pure rfl) fun _ => link_alike budget fun b => ?_
    refine advance_alike.andThen fun _ => ((hlower b).binary noIn _).andThen fun right => ?_
    exact (spanFrom_alike start).andThen fun _ => .pure (by simp [Image, Expr.relabel])

theorem binaryAt_alike (budget : Nat) (noIn : Bool) (least : Nat) :
    Alike f (Image (Expr.move f.position)) (binaryAt lower budget noIn least)
      (binaryAt lower budget noIn least) := by
  refine here_alike.andThen fun start => (hlower budget).unary.andThen fun left => ?_
  exact iterate_alike (binaryStep_alike hlower noIn least start) (budget, left)

end

/-! ## Arrow functions and assignments -/

theorem afterClose_respell (depth : Nat) (tokens : List Token) :
    afterClose depth (tokens.map (Token.respell f)) =
      (afterClose depth tokens).map (List.map (Token.respell f)) := by
  induction tokens generalizing depth with
  | nil => rfl
  | cons t rest ih =>
    simp only [List.map_cons, afterClose, Token.respell_body]
    split
    · exact ih _
    · exact ih _
    · exact ih _
    · split
      · rfl
      · exact ih _
    · split
      · rfl
      · exact ih _
    · split
      · rfl
      · exact ih _
    · exact ih _

theorem arrowAhead_respell (tokens : List Token) :
    arrowAhead (tokens.map (Token.respell f)) = arrowAhead tokens := by
  cases tokens with
  | nil => rfl
  | cons t rest =>
    simp only [arrowAhead, List.map_cons, Token.respell_isAnyWord, Token.respell_isSymbol]
    rw [← List.map_cons, afterClose_respell]
    by_cases hword : t.isAnyWord = true
    · simp only [hword, if_true]
      cases rest <;> rfl
    · by_cases hparen : t.isSymbol .lparen = true
      · simp only [hword, hparen, if_true]
        rcases afterClose 0 (t :: rest) with _ | _ | ⟨u, us⟩ <;> rfl
      · simp [hword, hparen]

theorem asyncArrowAhead_respell (input : Input) :
    asyncArrowAhead (input.respell f) = asyncArrowAhead input := by
  rw [asyncArrowAhead, asyncArrowAhead, Input.respell_current, Input.respell_ahead,
    ← arrowAhead_respell (f := f) (input.rest.drop 1), List.map_drop]
  rfl

theorem isTarget_move (op : AssignOp) (e : Expr) :
    isTarget op (e.move f.position) = isTarget op e := by
  cases e <;> rfl

section
variable {sub : Level} (hsub : sub.Natural f)
include hsub

theorem conditional_alike (noIn : Bool) :
    Alike f (Image (Expr.move f.position)) (conditional sub noIn) (conditional sub noIn) := by
  refine here_alike.andThen fun start => (hsub.binary noIn 0).andThen fun test => ?_
  refine (eat_alike .question).andThen fun _ => .ite (fun _ => ?_) fun _ => .pure rfl
  refine (hsub.assignment false).andThen fun whenTrue => (expect_alike .colon).andThen fun _ => ?_
  exact (hsub.assignment noIn).andThen fun _ => (spanFrom_alike start).andThen fun _ =>
    .pure (by simp [Image, Expr.relabel])

theorem arrow_alike (noIn : Bool) (start : Position) :
    Alike f (Image (Expr.move f.position)) (arrow sub noIn start)
      (arrow sub noIn (f.position start)) := by
  have hbody (params : List Expr) : Alike f (Image (Expr.move f.position))
      (do
        expect .arrow
        let body ←
          if ← check .lbrace then pure (ArrowBody.block (← block sub))
          else pure (ArrowBody.expression (← sub.assignment noIn))
        return .arrow (← spanFrom start) params body)
      (do
        expect .arrow
        let body ←
          if ← check .lbrace then pure (ArrowBody.block (← block sub))
          else pure (ArrowBody.expression (← sub.assignment noIn))
        return .arrow (← spanFrom (f.position start)) (params.map (Expr.move f.position)) body) := by
    have hmake (body : ArrowBody) : Alike f (Image (Expr.move f.position))
        (do return .arrow (← spanFrom start) params body)
        (do return .arrow (← spanFrom (f.position start)) (params.map (Expr.move f.position))
              (body.relabel (.moving f.position))) :=
      (spanFrom_alike start).andThen fun _ =>
        .pure (by simp [Image, Expr.relabel, relabelAll_eq])
    refine (expect_alike .arrow).andThen fun _ => (check_alike .lbrace).andThen fun _ => ?_
    refine .ite (fun _ => ?_) fun _ => ?_
    · refine (block_alike hsub).andThen fun body => ?_
      rw [← relabelBody_eq]
      exact hmake (.block body)
    · exact (hsub.assignment noIn).andThen fun value => hmake (.expression value)
  refine peek_alike.andThen fun t => .ite (fun _ => ?_) fun _ => ?_
  · exact identifier_alike.andThen fun e => hbody [e]
  · exact (params_alike hsub).andThen hbody

theorem plainAssignment_alike (noIn : Bool) :
    Alike f (Image (Expr.move f.position)) (plainAssignment sub noIn)
      (plainAssignment sub noIn) := by
  refine here_alike.andThen fun start => (conditional_alike hsub noIn).andThen fun left => ?_
  refine peek_alike.andThen fun t => ?_
  rw [show assignOp? (t.respell f) = assignOp? t from rfl]
  cases assignOp? t with
  | none => exact .pure rfl
  | some op =>
    simp only [isTarget_move, Expr.relabel_span]
    refine .ite (fun _ => ?_) fun _ => alike_throw
    exact advance_alike.andThen fun _ => (hsub.assignment noIn).andThen fun _ =>
      (spanFrom_alike start).andThen fun _ => .pure (by simp [Image, Expr.relabel])

theorem assignmentAt_alike (noIn : Bool) :
    Alike f (Image (Expr.move f.position)) (assignmentAt sub noIn) (assignmentAt sub noIn) := by
  refine .get_bind fun input => here_alike.andThen fun start => ?_
  rw [asyncArrowAhead_respell]
  refine .ite (fun _ => ?_) fun _ => ?_
  · exact advance_alike.andThen fun _ => arrow_alike hsub noIn start
  · rw [show (input.respell f).rest = input.rest.map (Token.respell f) from rfl, arrowAhead_respell]
    exact .ite (fun _ => arrow_alike hsub noIn start) fun _ => plainAssignment_alike hsub noIn

end

end WidgetLint.Script.Parser
