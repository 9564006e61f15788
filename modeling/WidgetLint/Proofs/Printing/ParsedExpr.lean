import WidgetLint.Proofs.Printing.Yields

/-!
# The expressions that are read

Every reader of expressions returns sound trees in the role it reads them for, provided that the
level below it does (`Level.Sound`).
-/

namespace WidgetLint.Script

open Text

/-- A statement that was read up to an input: it is sound, and no alternative of its last branch
follows. -/
def Stmt.Settled (s : Stmt) (i : Input) : Prop :=
  s.Sound ∧ (s.endsOpen = true → i.current.isWord "else" = false)

namespace Parser

/-! ## Names -/

/-- The parts of the grammar at a level return sound trees. -/
structure Level.Sound (l : Level) : Prop where
  statement : Yields (fun _ => True) l.statement fun s i => s.Settled i
  assignment : ∀ noIn, Gets (l.assignment noIn) Expr.Whole
  binary : ∀ noIn least, Gets (l.binary noIn least) Expr.Whole
  unary : Gets l.unary Expr.Whole
  construction : Gets l.construction Expr.Whole

theorem Level.Sound.body {l : Level} (h : l.Sound) : Gets l.statement Stmt.Sound :=
  h.statement.imp fun _ _ hs => hs.1

theorem eq_word_of_name? {t : Token} {name : String} (h : t.name? = some name) :
    t.body = .word name ∧ isReserved name = false := by
  unfold Token.name? Token.word? at h
  split at h
  · rename_i found hbody
    rw [Option.filter_some] at h
    split at h
    · rename_i hfree
      cases h
      exact ⟨hbody, by simpa using hfree⟩
    · cases h
  · cases h

theorem isUsable_of_name? {t : Token} {name : String} (ht : t.body.Lexed)
    (h : t.name? = some name) : IsUsable name := by
  obtain ⟨hbody, hfree⟩ := eq_word_of_name? h
  rw [hbody] at ht
  exact ⟨ht, hfree⟩

theorem isWordText_of_memberName? {body : TokenBody} {name : String} (hbody : body.Lexed)
    (h : body.memberName? = some name) : isWordText name = true := by
  cases body with
  | word =>
    cases h
    exact hbody
  | boolean value =>
    cases h
    cases value with
    | true => exact isWordText_of_isLiteralWord rfl
    | false => exact isWordText_of_isLiteralWord rfl
  | null =>
    cases h
    exact isWordText_of_isLiteralWord rfl
  | _ => cases h

theorem identifier_gets : Gets identifier Expr.Pattern := by
  refine here_gets.bind fun start _ => peek_gets.bind fun t ht => ?_
  cases hname : t.name? with
  | none => exact unexpected_yields
  | some name =>
    exact advance_gets.bind fun _ _ => (spanFrom_gets start).bind fun _ _ =>
      .pure (Expr.pattern_ident (isUsable_of_name? ht.body hname))

theorem memberName_gets : Gets memberName fun found =>
    isWordText found.1 = true ∧ found.2.start.offset ≤ found.2.stop.offset := by
  intro i found j hi _ heq
  rw [memberName] at heq
  dsimp only [bind, StateT.bind, here, peek, get, getThe, MonadStateOf.get, StateT.get, pure,
    StateT.pure, Except.bind, Except.pure] at heq
  cases hname : i.current.body.memberName? with
  | none =>
    rw [hname] at heq
    cases heq
  | some name =>
    rw [hname] at heq
    cases heq
    exact ⟨hi.advance, isWordText_of_memberName? (hi.ahead 0).body hname, (hi.ahead 0).ordered⟩

theorem isWordText_new : isWordText "new" = true := by
  simp [isWordText, isWordStart_ascii, isWordPart_ascii]

theorem announcedKind?_eq_some {t next : Token} {kind : MemberKind}
    (h : announcedKind? t next = some kind) :
    kind = .getter ∨ kind = .setter ∨ kind = .method := by
  unfold announcedKind? at h
  grind

/-! ## Lists of expressions -/

section
variable {sub : Level} (hsub : sub.Sound)
include hsub

theorem sequence_gets (noIn : Bool) : Gets (sequence sub noIn) Expr.Whole := by
  refine here_gets.bind fun start _ => (hsub.assignment noIn).bind fun first hfirst => ?_
  -- the comma that was seen is the one the first step reads, so there are two items
  refine (check_yields .comma).bind fun b => .ite (fun hb => ?_) fun _ => .pure fun _ _ => hfirst
  have hitem : Gets (do if ← eat .comma then return some (← sub.assignment noIn) else return none)
      fun o => ∀ e, o = some e → e.Whole :=
    (eat_gets .comma).bind fun _ _ => .ite (fun _ => (hsub.assignment noIn).some)
      fun _ => .pure nofun
  have hnext : Yields (fun i => i.current.isSymbol .comma = true)
      (do if ← eat .comma then return some (← sub.assignment noIn) else return none)
      fun o _ => ∃ e, o = some e ∧ e.Whole := by
    refine (eat_yields .comma).bind fun b => .assume fun hb => ?_
    rw [if_pos hb]
    exact (hsub.assignment noIn).bind fun e he => .pure ⟨e, rfl, he⟩
  refine (many_yields (hnext.from fun i hi => hi.1.symm.trans hb) hitem).bind fun others =>
    .assume fun hothers => ?_
  refine (spanFrom_gets start).bind fun _ _ => .pure (Expr.whole_sequence ?_ ?_)
  · have := List.length_pos_of_ne_nil hothers.1
    rw [List.length_cons]
    omega
  · exact List.forall_mem_cons.2 ⟨hfirst, hothers.2⟩

theorem parenthesized_gets : Gets (parenthesized sub) Expr.Whole :=
  (expect_gets .lparen).bind fun _ _ => (sequence_gets hsub false).bind fun _ he =>
    (expect_gets .rparen).bind fun _ _ => .pure he

theorem spreadOrAssignment_gets : Gets (spreadOrAssignment sub) Expr.Element := by
  refine here_gets.bind fun start _ => (eat_gets .ellipsis).bind fun _ _ => ?_
  refine .ite (fun _ => ?_) fun _ => (hsub.assignment false).imp fun _ _ he => he.element
  exact (hsub.assignment false).bind fun _ he => (spanFrom_gets start).bind fun _ _ =>
    .pure ⟨he.spread, rfl⟩

theorem arguments_gets : Gets (arguments sub) fun es => ∀ e ∈ es, e.Element :=
  bracketed_gets .lparen .rparen (spreadOrAssignment_gets hsub)

theorem array_gets : Gets (array sub) Expr.Pattern := by
  refine here_gets.bind fun start _ => (expect_gets .lbracket).bind fun _ _ => ?_
  have hitem : Gets
      (do
        if ← check .rbracket then return none
        if ← eat .comma then return some none
        let item ← spreadOrAssignment sub
        unless ← check .rbracket do expect .comma
        return some (some item))
      fun o => ∀ item, o = some item → ∀ e, item = some e → e.Element := by
    refine (check_gets .rbracket).bind fun _ _ => .ite (fun _ => .pure nofun) fun _ => ?_
    refine (eat_gets .comma).bind fun _ _ => .ite (fun _ => .pure ?_) fun _ => ?_
    · rintro _ ⟨⟩ _ ⟨⟩
    refine (spreadOrAssignment_gets hsub).bind fun e he => ?_
    have hsome : ∀ item, some (some e) = some item → ∀ e, item = some e → e.Element := by
      rintro _ ⟨⟩ _ ⟨⟩
      exact he
    refine (check_gets .rbracket).bind fun _ _ => .ite (fun _ => .pure hsome) fun _ => ?_
    exact (expect_gets .comma).bind fun _ _ => .pure hsome
  refine (many_gets hitem).bind fun items hitems => (expect_gets .rbracket).bind fun _ _ => ?_
  exact (spanFrom_gets start).bind fun _ _ =>
    .pure (Expr.pattern_array fun e he => hitems (some e) he e rfl)

/-! ## Functions and objects -/

theorem block_gets : Gets (block sub) fun body => ∀ s ∈ body, s.Sound := by
  refine (expect_gets .lbrace).bind fun _ _ => ?_
  have hitem : Gets
      (do
        if ← check .rbrace then return none
        if ← atEnd then unexpected
        return some (← sub.statement))
      fun o => ∀ s, o = some s → s.Sound := by
    refine (check_gets .rbrace).bind fun _ _ => .ite (fun _ => .pure nofun) fun _ => ?_
    exact atEnd_gets.bind fun _ _ => .unless hsub.body.some unexpected_yields
  exact (many_gets hitem).bind fun _ hbody => advance_gets.bind fun _ _ => .pure hbody

theorem computedKey_gets : Gets (computedKey sub) Key.Sound :=
  advance_gets.bind fun _ _ => (hsub.assignment false).bind fun _ he =>
    (expect_gets .rbracket).bind fun _ _ => .pure (Key.sound_computed he)

/-- The key that is read is sound, and it is the name of the current token if that has one. -/
theorem memberKey_yields (t : Token) : Yields (fun i => i.current = t) (memberKey sub)
    fun key _ => key.Sound ∧ ∀ name, t.name? = some name → key = .ident name := by
  refine peek_yields.bind fun found => ?_
  refine (Yields.assume (c := found = t ∧ found.body.Lexed) ?_).from
    fun i hi => ⟨hi.1.trans hi.2.2, hi.2.1.body⟩
  rintro ⟨rfl, hlexed⟩
  have hname {body : TokenBody} (hbody : found.body = body) (hne : ∀ name, body ≠ .word name)
      (key : Key) : ∀ name, found.name? = some name → key = .ident name :=
    fun name hname => absurd (hbody.symm.trans (eq_word_of_name? hname).1) (hne name)
  split
  · rename_i value hbody
    exact advance_gets.bind fun _ _ => .pure ⟨Key.sound_string value, hname hbody nofun _⟩
  · rename_i value hbody
    rw [hbody] at hlexed
    exact advance_gets.bind fun _ _ => .pure ⟨Key.sound_number hlexed, hname hbody nofun _⟩
  · rename_i hbody
    exact (computedKey_gets hsub).imp fun key _ hkey => ⟨hkey, hname hbody nofun key⟩
  · split
    · rename_i name hmember
      refine advance_gets.bind fun _ _ =>
        .pure ⟨Key.sound_ident (isWordText_of_memberName? hlexed hmember), fun n hn => ?_⟩
      rw [(eq_word_of_name? hn).1] at hmember
      cases hmember
      rfl
    · exact unexpected_yields

theorem memberKey_gets : Gets (memberKey sub) Key.Sound :=
  fun i key j hi _ heq =>
    ((memberKey_yields hsub i.current).imp fun _ _ h => h.1) i key j hi rfl heq

variable {target : Parser Expr} (htarget : Gets target Expr.Pattern)
include htarget

theorem bindingElement_gets : Gets (bindingElement sub target) Expr.Param := by
  refine here_gets.bind fun start _ => htarget.bind fun name hname => ?_
  refine (eat_gets .eq).bind fun _ _ => .ite (fun _ => ?_) fun _ => .pure hname.param
  refine (hsub.assignment false).bind fun value hvalue => (spanFrom_gets start).bind fun _ _ => ?_
  exact .pure ⟨(Expr.Whole.assign hname.isTarget hname.whole hvalue).1, hname.2⟩

theorem param_gets : Gets (param sub target) Expr.Param := by
  refine here_gets.bind fun start _ => (eat_gets .ellipsis).bind fun _ _ => ?_
  refine .ite (fun _ => ?_) fun _ => bindingElement_gets hsub htarget
  exact htarget.bind fun _ hname => (spanFrom_gets start).bind fun _ _ =>
    .pure ⟨hname.whole.spread, hname.2⟩

theorem paramsWith_gets : Gets (paramsWith sub target) fun ps => ∀ p ∈ ps, p.Param :=
  bracketed_gets .lparen .rparen (param_gets hsub htarget)

theorem methodValue_gets : Gets (methodValue sub target) fun value =>
    value.Sound ∧ ∃ s params body, value = .function s none params body := by
  refine here_gets.bind fun start _ => (paramsWith_gets hsub htarget).bind fun params hparams => ?_
  refine (block_gets hsub).bind fun body hbody => (spanFrom_gets start).bind fun s _ => ?_
  exact .pure ⟨Expr.sound_function nofun hparams hbody, s, params, body, rfl⟩

theorem memberValue_gets (start : Position) (generator : Bool) {keyToken : Token}
    (htoken : keyToken.body.Lexed) {key : Key} (hkey : key.Sound)
    (hname : ∀ name, keyToken.name? = some name → key = .ident name) :
    Gets (memberValue sub target start generator keyToken) fun found =>
      ∀ s, (Member.named s found.1 key found.2).Sound := by
  refine peek_gets.bind fun t _ => ?_
  split
  · exact advance_gets.bind fun _ _ => (hsub.assignment false).bind fun value hvalue =>
      .pure fun _ => Member.sound_named hkey hvalue.1 ⟨hkey.ordinary, hvalue.2⟩
  · exact (methodValue_gets hsub htarget).bind fun value hvalue =>
      .pure fun _ => Member.sound_named hkey hvalue.1 ⟨hkey.ordinary, hvalue.2⟩
  iterate 2
    rename_i name _ hfound
    have husable := isUsable_of_name? htoken hfound
    exact .pure fun _ => Member.sound_named hkey (Expr.pattern_ident husable).1
      ⟨hkey.ordinary, name, hname name hfound, husable.2, .inl ⟨_, rfl⟩⟩
  · rename_i name _ hfound
    have husable := isUsable_of_name? htoken hfound
    have hident := (Expr.pattern_ident (s := keyToken.span) husable).whole
    refine advance_gets.bind fun _ _ => (hsub.assignment false).bind fun value hvalue => ?_
    exact (spanFrom_gets start).bind fun _ _ => .pure fun _ =>
      Member.sound_named hkey (Expr.Whole.assign rfl hident hvalue).1
        ⟨hkey.ordinary, name, hname name hfound, husable.2, .inr ⟨_, _, _, rfl⟩⟩
  · exact unexpected_yields

theorem memberWith_gets : Gets (memberWith sub target) Member.Sound := by
  refine here_gets.bind fun start _ => (eat_gets .ellipsis).bind fun _ _ => ?_
  refine .ite (fun _ => ?_) fun _ => ?_
  · exact (hsub.assignment false).bind fun _ he => .pure (Member.sound_spread he)
  refine peek_gets.bind fun t _ => peekSecond_gets.bind fun next _ => ?_
  cases hkind : announcedKind? t next with
  | some kind =>
    refine advance_gets.bind fun _ _ => (memberKey_gets hsub).bind fun key hkey => ?_
    refine (methodValue_gets hsub htarget).bind fun value hvalue => ?_
    refine (spanFrom_gets start).bind fun _ _ => .pure (Member.sound_named hkey hvalue.1 ?_)
    refine ⟨hkey.ordinary, ?_⟩
    rcases announcedKind?_eq_some hkind with rfl | rfl | rfl
    all_goals exact hvalue.2
  | none =>
    refine (eat_gets .star).bind fun generator _ => peek_yields.bind fun keyToken => ?_
    refine Yields.bind (Q := fun key _ => keyToken.body.Lexed ∧ key.Sound ∧
        ∀ name, keyToken.name? = some name → key = .ident name) ?_ fun key => .assume fun hkey => ?_
    · intro i key j hi hP heq
      obtain ⟨hj, hkey⟩ := memberKey_yields hsub keyToken i key j hi hP.1.symm heq
      exact ⟨hj, hP.2.1.body, hkey⟩
    · exact (memberValue_gets hsub htarget start generator hkey.1 hkey.2.1 hkey.2.2).bind
        fun found hfound => (spanFrom_gets start).bind fun s _ => .pure (hfound s)

theorem objectWith_gets : Gets (objectWith sub target) Expr.Pattern :=
  here_gets.bind fun start _ => (bracketed_gets .lbrace .rbrace (memberWith_gets hsub htarget)).bind
    fun _ hmembers => (spanFrom_gets start).bind fun _ _ => .pure (Expr.pattern_object hmembers)

omit htarget in
theorem bindingTargetWith_gets {object : Parser Expr} (hobject : Gets object Expr.Pattern) :
    Gets (bindingTargetWith sub object) Expr.Pattern := by
  refine peek_gets.bind fun t _ => ?_
  split
  · exact hobject
  · exact array_gets hsub
  · exact identifier_gets

end

section
variable {sub : Level} (hsub : sub.Sound)
include hsub

theorem objectUpTo_gets (fuel : Nat) : Gets (objectUpTo sub fuel) Expr.Pattern := by
  induction fuel with
  | zero => exact unexpected_yields
  | succ fuel ih => exact objectWith_gets hsub (bindingTargetWith_gets hsub ih)

theorem object_gets : Gets (object sub) Expr.Pattern :=
  .get_bind fun _ => objectUpTo_gets hsub _

theorem bindingTarget_gets : Gets (bindingTarget sub) Expr.Pattern :=
  bindingTargetWith_gets hsub (object_gets hsub)

theorem params_gets : Gets (params sub) fun ps => ∀ p ∈ ps, p.Param :=
  paramsWith_gets hsub (bindingTarget_gets hsub)

omit hsub in
theorem functionName?_gets : Gets functionName? fun o => ∀ n, o = some n → IsUsable n := by
  refine peek_gets.bind fun _ _ => .ite (fun _ => ?_) fun _ => .pure nofun
  refine peek_gets.bind fun t ht => ?_
  cases hname : t.name? with
  | none => exact unexpected_yields
  | some name =>
    refine advance_gets.bind fun _ _ => .pure ?_
    rintro _ ⟨⟩
    exact isUsable_of_name? ht.body hname

theorem functionRest_gets : Gets (functionRest sub) fun found =>
    (∀ p ∈ found.1, p.Param) ∧ ∀ s ∈ found.2, s.Sound :=
  (params_gets hsub).bind fun _ hparams => (block_gets hsub).bind fun _ hbody =>
    .pure ⟨hparams, hbody⟩

theorem functionExpr_gets (start : Position) : Gets (functionExpr sub start) Expr.Whole :=
  (eat_gets .star).bind fun _ _ => functionName?_gets.bind fun _ hname =>
    (functionRest_gets hsub).bind fun _ hrest => (spanFrom_gets start).bind fun _ _ =>
      .pure ⟨Expr.sound_function hname hrest.1 hrest.2, rfl⟩

/-! ## Operands -/

omit hsub in
theorem atom_gets {make : Span → Expr} (h : ∀ s, (make s).Whole) : Gets (atom make) Expr.Whole :=
  here_gets.bind fun start _ => advance_gets.bind fun _ _ => (spanFrom_gets start).bind fun s _ =>
    .pure (h s)

omit hsub in
theorem asyncFunctionAhead_gets : Gets asyncFunctionAhead fun _ => True :=
  peekSecond_gets.bind fun _ _ => .pure True.intro

theorem wordOperand_gets {name : String} (hname : isWordText name = true) :
    Gets (wordOperand sub name) Expr.Whole := by
  have hrest : Gets (if isReserved name = true then unexpected else atom (.ident · name))
      Expr.Whole :=
    .ite (fun _ => unexpected_yields) fun hfree => atom_gets fun _ =>
      (Expr.pattern_ident ⟨hname, Bool.eq_false_iff.2 hfree⟩).whole
  refine here_gets.bind fun start _ => .ite (fun _ => ?_) fun _ => .ite (fun _ => ?_) fun _ => ?_
  · exact atom_gets fun _ => Expr.whole_leaf ⟨True.intro, fun _ => True.intro⟩ True.intro (fun _ => rfl) rfl
  · exact advance_gets.bind fun _ _ => functionExpr_gets hsub start
  · refine asyncFunctionAhead_gets.bind fun _ _ => .ite (fun _ => ?_) fun _ => hrest
    exact advance_gets.bind fun _ _ => advance_gets.bind fun _ _ => functionExpr_gets hsub start

theorem primary_gets : Gets (primary sub) Expr.Whole := by
  refine peek_gets.bind fun t ht => ?_
  have hlexed := ht.body
  split
  · rename_i value hbody
    rw [hbody] at hlexed
    exact atom_gets fun _ => Expr.whole_leaf ⟨True.intro, fun htame => hlexed.number_plain htame⟩ True.intro
      (fun _ => rfl) rfl
  · exact atom_gets fun _ => Expr.whole_leaf ⟨True.intro, fun htame => htame⟩ True.intro (fun _ => rfl) rfl
  iterate 2
    rename_i hbody
    rw [hbody] at hlexed
    exact atom_gets fun _ => Expr.whole_leaf ⟨True.intro, fun _ => hlexed⟩ True.intro (fun _ => rfl) rfl
  iterate 2
    exact atom_gets fun _ => Expr.whole_leaf ⟨True.intro, fun _ => True.intro⟩ True.intro (fun _ => rfl) rfl
  · rename_i hbody
    rw [hbody] at hlexed
    exact wordOperand_gets hsub hlexed
  · exact parenthesized_gets hsub
  · exact (array_gets hsub).imp fun _ _ he => he.whole
  · exact (object_gets hsub).imp fun _ _ he => he.whole
  · exact unexpected_yields

theorem indexKey_gets : Gets (indexKey sub) Expr.Whole :=
  (expect_gets .lbracket).bind fun _ _ => (sequence_gets hsub false).bind fun _ he =>
    (expect_gets .rbracket).bind fun _ _ => .pure he

variable {e : Expr} (he : e.Whole)
include he

omit hsub in
theorem dot_gets (start : Position) (optional : Bool) : Gets (do
      let (name, nameSpan) ← memberName
      return .dot (← spanFrom start) e optional name nameSpan) Expr.Whole :=
  memberName_gets.bind fun _ hname => (spanFrom_gets start).bind fun _ _ =>
    .pure (Expr.whole_dot he.1 (.inl he.2) hname.1 hname.2)

theorem access_gets (start : Position) (optional : Bool) :
    Gets (access sub start e optional) Expr.Whole := by
  refine (check_gets .lbracket).bind fun _ _ => ?_
  refine .ite (fun _ => ?_) fun _ => dot_gets he start optional
  exact (indexKey_gets hsub).bind fun _ hkey => (spanFrom_gets start).bind fun _ _ =>
    .pure (he.index optional hkey)

theorem callOf_gets (start : Position) (optional : Bool) :
    Gets (callOf sub start e optional) Expr.Whole :=
  (arguments_gets hsub).bind fun _ harguments => (spanFrom_gets start).bind fun _ _ =>
    .pure (he.call optional harguments)

theorem chainLink_gets (start : Position) (s : Symbol) :
    Gets (chainLink sub start e s) Expr.Whole := by
  unfold chainLink
  split
  · exact advance_gets.bind fun _ _ => dot_gets he start false
  · exact advance_gets.bind fun _ _ => (check_gets .lparen).bind fun _ _ =>
      .ite (fun _ => callOf_gets hsub he start true) fun _ => access_gets hsub he start true
  · exact callOf_gets hsub he start false
  · exact access_gets hsub he start false

end

/-! ## Chains -/

section
variable {lower : Nat → Level} (hlower : ∀ budget, (lower budget).Sound)
include hlower

theorem chainStep_gets (start : Position) (links : List Symbol) (state : Nat × Expr)
    (hstate : state.2.Whole) : Gets (chainStep lower start links state)
      (Sum.elim (fun state => state.2.Whole) fun state => state.2.Whole) := by
  refine peek_gets.bind fun t _ => ?_
  split
  · refine .ite (fun _ => ?_) fun _ => .pure hstate
    exact link_gets _ fun budget _ => (chainLink_gets (hlower budget) hstate start _).bind
      fun _ he => .pure he
  · exact .pure hstate

theorem chain_gets (start : Position) (links : List Symbol) (budget : Nat) {e : Expr}
    (he : e.Whole) :
    Gets (iterate (chainStep lower start links) (budget, e)) fun state => state.2.Whole :=
  iterate_gets (chainStep_gets hlower start links) he

theorem newRest_gets (budget : Nat) (start : Position) :
    Gets (newRest lower budget start) Expr.Whole := by
  have hrest {callee : Expr} (hcallee : callee.Whole) : Gets (do
      let state ← iterate (chainStep lower start [.dot, .lbracket]) (budget, callee)
      let arguments ← if ← check .lparen then arguments (lower state.1) else pure []
      return .new (← spanFrom start) state.2 arguments) Expr.Whole := by
    refine (chain_gets hlower start [.dot, .lbracket] budget hcallee).bind fun state hstate => ?_
    have hend {arguments : List Expr} (harguments : ∀ e ∈ arguments, e.Element) :
        Gets (do return .new (← spanFrom start) state.2 arguments) Expr.Whole :=
      (spanFrom_gets start).bind fun _ _ => .pure (hstate.new harguments)
    refine (check_gets .lparen).bind fun _ _ => .ite (fun _ => ?_) fun _ => hend (by simp)
    exact (arguments_gets (hlower state.1)).bind fun _ harguments => hend harguments
  refine (checkWord_gets "new").bind fun _ _ => .ite (fun _ => ?_) fun _ => ?_
  · exact (hlower budget).construction.bind fun _ hcallee => hrest hcallee
  · exact (primary_gets (hlower budget)).bind fun _ hcallee => hrest hcallee

theorem constructionAt_gets (budget : Nat) : Gets (constructionAt lower budget) Expr.Whole := by
  refine here_gets.bind fun start _ => advance_gets.bind fun _ _ => ?_
  refine (eat_gets .dot).bind fun _ _ => ?_
  refine .ite (fun _ => ?_) fun _ => newRest_gets hlower budget start
  refine (spanFrom_gets start).bind fun s _ => memberName_gets.bind fun _ hname => ?_
  have hnew : (Expr.ident s "new").Sound :=
    Expr.sound_of ⟨.inr rfl, fun _ => isWordText_new⟩ True.intro fun _ => everywhere_nil
  exact (spanFrom_gets start).bind fun _ _ =>
    .pure (Expr.whole_dot hnew (.inr ⟨⟨s, rfl⟩, rfl⟩) hname.1 hname.2)

theorem callMember_gets (budget : Nat) : Gets (callMember lower budget) Expr.Whole := by
  have hrest {first : Expr} (start : Position) (hfirst : first.Whole) : Gets (do
      let state ← iterate (chainStep lower start [.dot, .questionDot, .lbracket, .lparen])
        (budget, first)
      return state.2) Expr.Whole :=
    (chain_gets hlower start _ budget hfirst).bind fun _ hstate => .pure hstate
  refine here_gets.bind fun start _ => (checkWord_gets "new").bind fun _ _ => ?_
  refine .ite (fun _ => ?_) fun _ => ?_
  · exact (hlower budget).construction.bind fun _ hfirst => hrest start hfirst
  · exact (primary_gets (hlower budget)).bind fun _ hfirst => hrest start hfirst

theorem postfixed_gets (budget : Nat) : Gets (postfixed lower budget) Expr.Whole := by
  refine here_gets.bind fun start _ => (callMember_gets hlower budget).bind fun e he => ?_
  refine peek_gets.bind fun t _ => ?_
  split
  · exact advance_gets.bind fun _ _ => (spanFrom_gets start).bind fun _ _ =>
      .pure (he.update _ .behind)
  · exact .pure he

theorem unaryAt_gets (budget : Nat) : Gets (unaryAt lower budget) Expr.Whole := by
  refine here_gets.bind fun start _ => peek_gets.bind fun t _ => ?_
  split
  · exact advance_gets.bind fun _ _ => (hlower budget).unary.bind fun _ he =>
      (spanFrom_gets start).bind fun _ _ => .pure (he.unary _)
  · exact advance_gets.bind fun _ _ => (hlower budget).unary.bind fun _ he =>
      (spanFrom_gets start).bind fun _ _ => .pure (he.update _ .before)
  · exact postfixed_gets hlower budget

/-! ## Operators -/

theorem binaryStep_gets (noIn : Bool) (least : Nat) (start : Position) (state : Nat × Expr)
    (hstate : state.2.Whole) : Gets (binaryStep lower noIn least start state)
      (Sum.elim (fun state => state.2.Whole) Expr.Whole) := by
  refine peek_gets.bind fun t _ => ?_
  split
  · exact .pure hstate
  · refine .ite (fun _ => .pure hstate) fun _ => link_gets _ fun budget _ => ?_
    exact advance_gets.bind fun _ _ => ((hlower budget).binary noIn _).bind fun _ hright =>
      (spanFrom_gets start).bind fun _ _ => .pure (hstate.binary _ hright)

theorem binaryAt_gets (budget : Nat) (noIn : Bool) (least : Nat) :
    Gets (binaryAt lower budget noIn least) Expr.Whole :=
  here_gets.bind fun start _ => (hlower budget).unary.bind fun _ hleft =>
    iterate_gets (binaryStep_gets hlower noIn least start) hleft

end

section
variable {sub : Level} (hsub : sub.Sound)
include hsub

theorem conditional_gets (noIn : Bool) : Gets (conditional sub noIn) Expr.Whole := by
  refine here_gets.bind fun start _ => (hsub.binary noIn 0).bind fun test htest => ?_
  refine (eat_gets .question).bind fun _ _ => .ite (fun _ => ?_) fun _ => .pure htest
  refine (hsub.assignment false).bind fun _ htrue => (expect_gets .colon).bind fun _ _ => ?_
  exact (hsub.assignment noIn).bind fun _ hfalse => (spanFrom_gets start).bind fun _ _ =>
    .pure (htest.conditional htrue hfalse)

/-! ## Arrow functions and assignments -/

theorem arrow_gets (noIn : Bool) (start : Position) : Gets (arrow sub noIn start) Expr.Whole := by
  have hrest {params : List Expr} (hparams : ∀ p ∈ params, p.Param) : Gets (do
      expect .arrow
      let body ←
        if ← check .lbrace then pure (ArrowBody.block (← block sub))
        else pure (ArrowBody.expression (← sub.assignment noIn))
      return .arrow (← spanFrom start) params body) Expr.Whole := by
    refine (expect_gets .arrow).bind fun _ _ => (check_gets .lbrace).bind fun _ _ => ?_
    refine .ite (fun _ => ?_) fun _ => ?_
    · refine (block_gets hsub).bind fun body hbody => ?_
      rw [pure_bind]
      refine (spanFrom_gets start).bind fun _ _ => .pure ?_
      exact Expr.whole_arrow hparams nofun fun d => by
        rw [ArrowBody.inside]
        exact visitBody_sound hbody d
    · refine (hsub.assignment noIn).bind fun value hvalue => ?_
      rw [pure_bind]
      refine (spanFrom_gets start).bind fun _ _ => .pure (Expr.whole_arrow hparams ?_ fun d => ?_)
      · rintro _ ⟨⟩
        exact hvalue.2
      · rw [ArrowBody.inside]
        exact hvalue.1 d
  refine peek_gets.bind fun _ _ => .ite (fun _ => ?_) fun _ => ?_
  · exact identifier_gets.bind fun _ hname => hrest fun p hp => by
      rw [List.mem_singleton.1 hp]
      exact hname.param
  · exact (params_gets hsub).bind fun _ hparams => hrest hparams

theorem plainAssignment_gets (noIn : Bool) : Gets (plainAssignment sub noIn) Expr.Whole := by
  refine here_gets.bind fun start _ => (conditional_gets hsub noIn).bind fun left hleft => ?_
  refine peek_gets.bind fun t _ => ?_
  split
  · exact .pure hleft
  · refine .ite (fun htarget => ?_) fun _ => yields_throw
    exact advance_gets.bind fun _ _ => (hsub.assignment noIn).bind fun _ hvalue =>
      (spanFrom_gets start).bind fun _ _ => .pure (Expr.Whole.assign htarget hleft hvalue)

theorem assignmentAt_gets (noIn : Bool) : Gets (assignmentAt sub noIn) Expr.Whole := by
  refine .get_bind fun input => here_gets.bind fun start _ => .ite (fun _ => ?_) fun _ => ?_
  · exact advance_gets.bind fun _ _ => arrow_gets hsub noIn start
  · exact .ite (fun _ => arrow_gets hsub noIn start) fun _ => plainAssignment_gets hsub noIn

end

end Parser

end WidgetLint.Script
