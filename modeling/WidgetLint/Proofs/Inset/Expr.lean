import WidgetLint.Proofs.Inset.Agree

/-!
# Expressions inside a larger text

Every reader of expressions finds the same in a larger text, provided that the level below it does
(`Level.Agrees`). Readers that may stop at a comma do so only before the end of the text.
-/

namespace WidgetLint.Script.Parser

open Text

/-- Where statements may stop: before the end of their text, or behind a semicolon that follows it,
if no `else` follows that. -/
def Inset.Statements (c : Inset) (ends : Ending) : Prop :=
  ends = .inner ∨
    ends = .behind ∧ c.next.body = .symbol .semicolon ∧ c.past.current.isWord "else" = false

theorem Inset.statements_inner (c : Inset) : c.Statements .inner :=
  .inl rfl

/-- The parts of the grammar at a level find the same as those of another level in a larger text. -/
structure Level.Agrees (c : Inset) (l l' : Level) : Prop where
  statement : ∀ {ends P m}, c.Statements ends → Keeps c ends P m l.statement l'.statement
  assignment : ∀ {ends P m} noIn, Keeps c ends P m (l.assignment noIn) (l'.assignment noIn)
  binary : ∀ {ends P m} noIn least,
    Keeps c ends P m (l.binary noIn least) (l'.binary noIn least)
  unary : ∀ {ends P m}, Keeps c ends P m l.unary l'.unary
  construction : ∀ {ends P m}, (∀ i, P i → i.current.isWord "new" = true) →
    Keeps c ends P m l.construction l'.construction

variable {c : Inset} {ends : Ending} {P : Input → Prop} {m : Nat}

/-! ## Names and lists of expressions -/

theorem Inset.last_name? (c : Inset) : c.last.name? = none := by
  rw [Token.name?, Token.word?, c.eof]
  rfl

theorem Inset.next_name? (c : Inset) : c.next.name? = none := by
  obtain ⟨s, -, hnext⟩ := c.follows
  rw [Token.name?, Token.word?, hnext]
  rfl

theorem Inset.last_memberName? (c : Inset) : c.last.body.memberName? = none := by
  rw [c.eof]
  rfl

theorem body_of_name? {t : Token} {name : String} (h : t.name? = some name) :
    t.body = .word name := by
  rw [Token.name?, Option.filter_eq_some_iff, Token.word?] at h
  split at h
  · rw [‹t.body = _›, Option.some.inj h.1]
  · cases h.1

theorem Seen.isAnyWord {t t' : Token} (h : Seen c t t') : t'.isAnyWord = t.isAnyWord := by
  rcases h with rfl | ⟨rfl, rfl⟩
  · rfl
  · obtain ⟨s, -, hstop⟩ := c.follows
    rw [Token.isAnyWord, Token.isAnyWord, Token.word?, Token.word?, c.eof, hstop]

theorem identifier_keeps : Keeps c ends P m identifier identifier := by
  refine here_agree.andThen fun start => .peek_bind (fun t => ?_) ?_
  · cases hname : t.name? with
    | none => exact unexpected_agree
    | some name =>
      refine (advance_past (.word name) (fun i hi => ?_) nofun rfl).andThen fun _ =>
        spanned_keeps start
      rw [hi.2, body_of_name? hname]
  · rw [c.last_name?]
    exact unexpected_agree

theorem plain_of_memberName? {b : TokenBody} {name : String} (h : b.memberName? = some name) :
    Plain b := by
  cases b with
  | word _ | boolean _ | null => exact ⟨nofun, rfl⟩
  | _ => cases h

theorem plain_of_isWord {t : Token} {name : String} (h : t.isWord name = true) : Plain t.body := by
  rw [beq_iff_eq.1 h]
  exact ⟨nofun, rfl⟩

theorem memberName_keeps : Keeps c ends P m memberName memberName := by
  refine here_agree.andThen fun start => .peek_bind (fun t => ?_) ?_
  · cases hname : t.body.memberName? with
    | none => exact unexpected_agree
    | some name =>
      refine (advance_plain fun i hi => ?_).andThen fun _ => spanned_keeps start
      rw [hi.2]
      exact plain_of_memberName? hname
  · rw [c.last_memberName?]
    exact unexpected_agree

section
variable {sub sub' : Level} (hsub : sub.Agrees c sub')
include hsub

theorem sequence_keeps (noIn : Bool) (hcomma : c.Unlike ends .comma) :
    Keeps c ends P m (sequence sub noIn) (sequence sub' noIn) := by
  refine here_agree.andThen fun start => (hsub.assignment noIn).andThen fun first => ?_
  refine (check_agree _ hcomma.first).andThen fun _ => .ite (fun _ => ?_) fun _ => Keeps.pure
  refine (many_keeps fun P => ?_).andThen fun others => spanned_keeps start
  refine (eat_keeps .comma hcomma.first.first.first rfl).andThen fun _ => ?_
  exact .ite (fun _ => (hsub.assignment noIn).then) fun _ => Keeps.pure

theorem parenthesized_keeps : Keeps c ends P m (parenthesized sub) (parenthesized sub') := by
  refine (expect_agree .lparen rfl).andThen fun _ => ?_
  refine (sequence_keeps hsub false c.unlike_inner).before (fun _ => needs_expect) fun _ => ?_
  exact (expect_agree .rparen rfl).andThen fun _ => Keeps.pure

theorem spreadOrAssignment_keeps :
    Keeps c ends P m (spreadOrAssignment sub) (spreadOrAssignment sub') := by
  refine here_agree.andThen fun start => ?_
  refine (eat_keeps .ellipsis (c.unlike (by decide)) rfl).andThen fun _ => ?_
  refine .ite (fun _ => ?_) fun _ => hsub.assignment false
  exact (hsub.assignment false).andThen fun _ => spanned_keeps start

theorem arguments_keeps : Keeps c ends P m (arguments sub) (arguments sub') :=
  bracketed_keeps rfl rfl fun _ _ => spreadOrAssignment_keeps hsub

theorem array_keeps : Keeps c ends P m (array sub) (array sub') := by
  refine here_agree.andThen fun start => ?_
  refine (expect_agree .lbracket rfl).andThen fun _ => ?_
  refine (many_keeps fun P => ?_).before (fun _ => needs_expect) fun items => ?_
  · refine (check_agree _ c.unlike_inner).andThen fun _ => .ite (fun _ => Keeps.pure) fun _ => ?_
    refine (eat_keeps .comma c.unlike_inner rfl).andThen fun _ =>
      .ite (fun _ => Keeps.pure) fun _ => ?_
    refine (spreadOrAssignment_keeps hsub).andThen fun item => ?_
    refine (check_agree _ c.unlike_inner).andThen fun _ => .ite (fun _ => Keeps.pure) fun _ => ?_
    exact (expect_agree .comma rfl).andThen fun _ => Keeps.pure
  · exact (expect_agree .rbracket rfl).andThen fun _ => spanned_keeps start

/-! ## Functions and objects -/

/-- Statements between braces: the braces around the last one are still open. -/
theorem block_keeps : Keeps c ends P m (block sub) (block sub') := by
  refine (expect_agree .lbrace rfl).andThen fun _ => ?_
  have hbody : Agree c .inner (fun _ => True) (m + 1)
      (many do
        if ← check .rbrace then return none
        if ← atEnd then unexpected
        return some (← sub.statement))
      (many do
        if ← check .rbrace then return none
        if ← atEnd then unexpected
        return some (← sub'.statement))
      Eq (fun _ => m + 1) fun _ i => i.current.body = .symbol .rbrace := by
    refine many_agree fun P => ?_
    refine (check_agree .rbrace c.unlike_inner).andThen fun b => .ite (fun hb => ?_) fun _ => ?_
    · exact .pure rfl rfl fun i hi _ => beq_iff_eq.1 (hi.2.trans hb)
    · refine atEnd_agree.andThen fun _ => .ite (fun _ => ?_) fun _ => ?_
      · exact unexpected_bind_agree
      · exact (hsub.statement c.statements_inner).andThen fun _ => .pure rfl rfl nofun
  refine hbody.within (fun _ i _ hi hP _ => hi.rest_ne (by simp [hP])) fun _ => ?_
  exact (advance_past (.symbol .rbrace) (fun _ hi => hi) nofun rfl).andThen fun _ => Keeps.pure

theorem computedKey_keeps (hP : ∀ i, P i → i.current.body = .symbol .lbracket) :
    Keeps c ends P m (computedKey sub) (computedKey sub') := by
  refine (advance_past (.symbol .lbracket) hP nofun rfl).andThen fun _ => ?_
  refine (hsub.assignment false).andThen fun _ => ?_
  exact (expect_agree .rbracket rfl).andThen fun _ => Keeps.pure

theorem memberKey_keeps : Keeps c ends P m (memberKey sub) (memberKey sub') := by
  refine .peek_bind (fun t => ?_) ?_
  · have hcurrent {body : TokenBody} (h : t.body = body) :
        ∀ i, P i ∧ i.current = t → i.current.body = body :=
      fun _ hi => hi.2 ▸ h
    split
    · exact (advance_past (.string _) (hcurrent ‹_›) nofun rfl).andThen fun _ => Keeps.pure
    · exact (advance_past (.number _) (hcurrent ‹_›) nofun rfl).andThen fun _ => Keeps.pure
    · exact computedKey_keeps hsub (hcurrent ‹_›)
    · cases hname : t.body.memberName? with
      | none => exact unexpected_agree
      | some name =>
        refine (advance_plain fun i hi => ?_).andThen fun _ => Keeps.pure
        rw [hi.2]
        exact plain_of_memberName? hname
  · rw [c.eof]
    exact unexpected_agree

variable {target target' : Parser Expr}

theorem bindingElement_keeps (htarget : ∀ {ends P m}, Keeps c ends P m target target') :
    Keeps c ends P m (bindingElement sub target) (bindingElement sub' target') := by
  refine here_agree.andThen fun start => htarget.andThen fun name => ?_
  refine (eat_keeps .eq (c.unlike (by decide)) rfl).andThen fun _ => ?_
  refine .ite (fun _ => ?_) fun _ => Keeps.pure
  exact (hsub.assignment false).andThen fun _ => spanned_keeps start

theorem param_keeps (htarget : ∀ {ends P m}, Keeps c ends P m target target') :
    Keeps c ends P m (param sub target) (param sub' target') := by
  refine here_agree.andThen fun start => ?_
  refine (eat_keeps .ellipsis (c.unlike (by decide)) rfl).andThen fun _ => ?_
  refine .ite (fun _ => ?_) fun _ => bindingElement_keeps hsub htarget
  exact htarget.andThen fun _ => spanned_keeps start

variable (htarget : ∀ {ends P m}, Keeps c ends P m target target')
include htarget

theorem paramsWith_keeps : Keeps c ends P m (paramsWith sub target) (paramsWith sub' target') :=
  bracketed_keeps rfl rfl fun _ _ => param_keeps hsub htarget

theorem methodValue_keeps :
    Keeps c ends P m (methodValue sub target) (methodValue sub' target') := by
  refine here_agree.andThen fun start => (paramsWith_keeps hsub htarget).andThen fun params => ?_
  exact (block_keeps hsub).andThen fun _ => spanned_keeps start

theorem memberValue_keeps (start : Position) (generator : Bool) (keyToken : Token) :
    Keeps c .inner P m (memberValue sub target start generator keyToken)
      (memberValue sub' target' start generator keyToken) := by
  refine peek_inner.andThen fun t => ?_
  split
  · refine (advance_past (.symbol .colon) (fun i hi => ?_) nofun rfl).andThen fun _ => ?_
    · rw [hi.2]
      assumption
    · exact (hsub.assignment false).andThen fun _ => Keeps.pure
  · exact (methodValue_keeps hsub htarget).andThen fun _ => Keeps.pure
  · exact Keeps.pure
  · exact Keeps.pure
  · refine (advance_past (.symbol .eq) (fun i hi => ?_) nofun rfl).andThen fun _ => ?_
    · rw [hi.2]
      assumption
    · exact (hsub.assignment false).andThen fun _ => (spanFrom_agree start).andThen fun _ =>
        Keeps.pure
  · exact unexpected_agree

omit hsub htarget in
theorem announcedKind?_seen {next next' : Token} (h : Seen c next next') (t : Token) :
    announcedKind? t next' = announcedKind? t next := by
  rcases h with rfl | ⟨rfl, rfl⟩
  · rfl
  · have hlast : opensKey c.last = false := by rw [opensKey, c.eof]
    have hnext : opensKey c.next = false := by
      obtain ⟨s, hs, hstop⟩ := c.follows
      rw [opensKey, hstop]
      cases s with
      | lbracket => exact absurd hs (by decide)
      | _ => rfl
    simp [announcedKind?, hlast, hnext]

omit hsub htarget in
theorem plain_of_announcedKind? {t next : Token} {kind : MemberKind}
    (h : announcedKind? t next = some kind) : Plain t.body := by
  unfold announcedKind? at h
  split at h
  · split at h
    · exact plain_of_isWord ‹_›
    · split at h
      · exact plain_of_isWord ‹_›
      · split at h
        · exact plain_of_isWord (Bool.and_eq_true_iff.1 ‹_›).1
        · cases h
  · cases h

theorem memberWith_keeps :
    Keeps c .inner P m (memberWith sub target) (memberWith sub' target') := by
  refine here_agree.andThen fun start => ?_
  refine (eat_keeps .ellipsis c.unlike_inner rfl).andThen fun _ => .ite (fun _ => ?_) fun _ => ?_
  · exact (hsub.assignment false).andThen fun _ => Keeps.pure
  · refine peek_inner.andThen fun t => (peekSecond_agree nofun).bind seen_refl
      fun next next' hseen => ?_
    rw [announcedKind?_seen hseen]
    cases hkind : announcedKind? t next with
    | some kind =>
      refine (advance_plain fun i hi => ?_).andThen fun _ => ?_
      · rw [hi.1.2]
        exact plain_of_announcedKind? hkind
      refine (memberKey_keeps hsub).andThen fun key => ?_
      refine (methodValue_keeps hsub htarget).andThen fun value => ?_
      exact (spanFrom_agree start).andThen fun _ => Keeps.pure
    | none =>
      refine (eat_keeps .star c.unlike_inner rfl).andThen fun generator => ?_
      refine peek_inner.andThen fun keyToken => ?_
      refine (memberKey_keeps hsub).andThen fun key => ?_
      refine (memberValue_keeps hsub htarget start generator keyToken).andThen fun value => ?_
      exact (spanFrom_agree start).andThen fun _ => Keeps.pure

theorem objectWith_keeps :
    Keeps c ends P m (objectWith sub target) (objectWith sub' target') := by
  refine here_agree.andThen fun start => ?_
  exact (bracketed_keeps rfl rfl fun _ _ => memberWith_keeps hsub htarget).andThen fun _ =>
    spanned_keeps start

omit htarget in
theorem bindingTargetWith_keeps {object object' : Parser Expr}
    (hobject : ∀ {P m}, Keeps c ends P m object object') :
    Keeps c ends P m (bindingTargetWith sub object) (bindingTargetWith sub' object') := by
  refine .peek_bind (fun t => ?_) ?_
  · split
    · exact hobject
    · exact array_keeps hsub
    · exact identifier_keeps
  · obtain ⟨s, hs, hstop⟩ := c.follows
    rw [c.eof, hstop]
    cases s with
    | lbrace => exact absurd hs (by decide)
    | lbracket => exact absurd hs (by decide)
    | _ => exact identifier_keeps

omit htarget in
theorem objectUpTo_keeps {fuel fuel' : Nat} (hfuel : fuel ≤ fuel') :
    Keeps c ends P m (objectUpTo sub fuel) (objectUpTo sub' fuel') := by
  induction fuel generalizing fuel' ends P m with
  | zero => exact unexpected_agree
  | succ fuel ih =>
    obtain ⟨fuel', rfl⟩ : ∃ f, fuel' = f + 1 := ⟨fuel' - 1, by omega⟩
    exact objectWith_keeps hsub (bindingTargetWith_keeps hsub (ih (by omega)))

omit htarget in
theorem object_keeps : Keeps c ends P m (object sub) (object sub') := by
  refine .get_bind fun i _ _ => ⟨_, objectUpTo_keeps hsub ?_, fun _ => rfl⟩
  rw [Inset.put_rest, List.length_append]
  omega

omit htarget in
theorem bindingTarget_keeps : Keeps c ends P m (bindingTarget sub) (bindingTarget sub') :=
  bindingTargetWith_keeps hsub (object_keeps hsub)

omit htarget in
theorem params_keeps : Keeps c ends P m (params sub) (params sub') :=
  paramsWith_keeps hsub (bindingTarget_keeps hsub)

omit hsub htarget in
theorem functionName?_keeps : Keeps c ends P m functionName? functionName? := by
  refine peek_agree.bind seen_refl fun t t' hseen => ?_
  rw [hseen.isAnyWord]
  refine .ite (fun _ => .peek_bind (fun t => ?_) ?_) fun _ => Keeps.pure
  · cases hname : t.name? with
    | none => exact unexpected_agree
    | some name =>
      refine (advance_past (.word name) (fun i hi => ?_) nofun rfl).andThen fun _ => Keeps.pure
      rw [hi.2, body_of_name? hname]
  · rw [c.last_name?]
    exact unexpected_agree

omit htarget in
theorem functionRest_keeps : Keeps c ends P m (functionRest sub) (functionRest sub') :=
  (params_keeps hsub).andThen fun _ => (block_keeps hsub).andThen fun _ => Keeps.pure

omit htarget in
theorem functionExpr_keeps (start : Position) :
    Keeps c ends P m (functionExpr sub start) (functionExpr sub' start) := by
  refine (eat_keeps .star (c.unlike (by decide)) rfl).andThen fun _ => ?_
  refine functionName?_keeps.andThen fun name => (functionRest_keeps hsub).andThen fun _ => ?_
  exact spanned_keeps start

end

/-! ## Operands -/

/-- Whether the word `async`, which is current, announces a function. -/
theorem asyncFunctionAhead_agree (hP : ∀ i, P i → i.current.body ≠ .eof) :
    Agree c ends P m asyncFunctionAhead asyncFunctionAhead Eq (fun _ => m)
      fun b i => P i ∧ (b = true → (i.ahead 1).body = .word "function") := by
  refine (peekSecond_agree fun i hi _ => hP i hi).bind seen_refl fun t t' hseen => ?_
  refine .pure ?_ rfl fun i hi => ⟨hi.1, fun hb => ?_⟩
  · rcases hseen with rfl | ⟨rfl, rfl⟩
    · rfl
    · have hlast : c.last.isWord "function" = false := by
        rw [Token.isWord, c.eof]
        rfl
      rw [(Seen.isWord (.inr ⟨rfl, rfl⟩) "function" : c.next.isWord "function" = _), hlast]
      rfl
  · rw [hi.2]
    exact beq_iff_eq.1 (Bool.and_eq_true_iff.1 hb).1

theorem atom_keeps {make : Span → Expr} (hP : ∀ i, P i → Plain i.current.body) :
    Keeps c ends P m (atom make) (atom make) := by
  refine here_agree.andThen fun start => (advance_plain fun i hi => hP i hi.1).andThen fun _ => ?_
  exact spanned_keeps start

section
variable {sub sub' : Level} (hsub : sub.Agrees c sub')
include hsub

theorem wordOperand_keeps (name : String) (hP : ∀ i, P i → i.current.body = .word name) :
    Keeps c ends P m (wordOperand sub name) (wordOperand sub' name) := by
  have hplain : ∀ i, P i → Plain i.current.body := by
    intro i hi
    rw [hP i hi]
    exact ⟨nofun, rfl⟩
  refine here_agree.andThen fun start => .ite (fun _ => ?_) fun _ => .ite (fun _ => ?_) fun _ => ?_
  · exact atom_keeps fun i hi => hplain i hi.1
  · exact (advance_plain fun i hi => hplain i hi.1).andThen fun _ => functionExpr_keeps hsub start
  · refine (asyncFunctionAhead_agree fun i hi => (hplain i hi.1).1).andThen fun b => ?_
    refine .ite (fun hb => ?_) fun _ => .ite (fun _ => unexpected_agree) fun _ => ?_
    · refine (advance_plain fun i hi => hplain i hi.1.1).andThen fun _ => ?_
      refine (advance_past (.word "function") ?_ nofun rfl).andThen fun _ =>
        functionExpr_keeps hsub start
      rintro _ ⟨i, hi, rfl⟩
      rw [Input.current_advance]
      exact hi.2 (Bool.and_eq_true_iff.1 hb).2
    · exact atom_keeps fun i hi => hplain i hi.1.1

theorem primary_keeps : Keeps c ends P m (primary sub) (primary sub') := by
  refine .peek_bind (fun t => ?_) ?_
  · have hatom {make : Span → Expr} (h : Plain t.body) :
        Keeps c ends (fun i => P i ∧ i.current = t) m (atom make) (atom make) :=
      atom_keeps fun _ hi => hi.2 ▸ h
    split
    · exact hatom (by simp [Plain, bracket, *])
    · exact hatom (by simp [Plain, bracket, *])
    · exact hatom (by simp [Plain, bracket, *])
    · exact hatom (by simp [Plain, bracket, *])
    · exact hatom (by simp [Plain, bracket, *])
    · exact hatom (by simp [Plain, bracket, *])
    · exact wordOperand_keeps hsub _ fun i hi => hi.2 ▸ ‹_›
    · exact parenthesized_keeps hsub
    · exact array_keeps hsub
    · exact object_keeps hsub
    · exact unexpected_agree
  · rw [c.eof]
    exact unexpected_agree

theorem indexKey_keeps : Keeps c ends P m (indexKey sub) (indexKey sub') := by
  refine (expect_agree .lbracket rfl).andThen fun _ => ?_
  refine (sequence_keeps hsub false c.unlike_inner).before (fun _ => needs_expect) fun _ => ?_
  exact (expect_agree .rbracket rfl).andThen fun _ => Keeps.pure

theorem access_keeps (start : Position) (e : Expr) (optional : Bool) :
    Keeps c ends P m (access sub start e optional) (access sub' start e optional) := by
  refine (check_agree .lbracket (c.unlike (by decide))).andThen fun _ => ?_
  refine .ite (fun _ => ?_) fun _ => ?_
  · exact (indexKey_keeps hsub).andThen fun _ => spanned_keeps start
  · exact memberName_keeps.andThen fun _ => spanned_keeps start

theorem callOf_keeps (start : Position) (e : Expr) (optional : Bool) :
    Keeps c ends P m (callOf sub start e optional) (callOf sub' start e optional) :=
  (arguments_keeps hsub).andThen fun _ => spanned_keeps start

theorem chainLink_keeps (start : Position) (e : Expr) (s : Symbol)
    (hP : ∀ i, P i → i.current.body = .symbol s) :
    Keeps c ends P m (chainLink sub start e s) (chainLink sub' start e s) := by
  unfold chainLink
  split
  · refine (advance_past _ hP nofun rfl).andThen fun _ => memberName_keeps.andThen fun _ => ?_
    exact spanned_keeps start
  · refine (advance_past _ hP nofun rfl).andThen fun _ => ?_
    refine (check_agree .lparen (c.unlike (by decide))).andThen fun _ => ?_
    exact .ite (fun _ => callOf_keeps hsub start e true) fun _ => access_keeps hsub start e true
  · exact callOf_keeps hsub start e false
  · exact access_keeps hsub start e false

end

/-! ## Operators -/

/-- Operators are no brackets and follow no text in a larger one. -/
def Operates {α : Type} (op? : Token → Option α) : Prop :=
  ∀ t op, op? t = some op → Plain t.body ∧ ∀ s, t.body = .symbol s → Inside s

theorem Operates.last {α : Type} {op? : Token → Option α} (h : Operates op?) (c : Inset) :
    op? c.last = none := by
  cases hop : op? c.last with
  | none => rfl
  | some op => exact absurd c.eof (h _ _ hop).1.1

theorem Operates.next {α : Type} {op? : Token → Option α} (h : Operates op?) (c : Inset) :
    op? c.next = none := by
  cases hop : op? c.next with
  | none => rfl
  | some op =>
    obtain ⟨s, hs, hstop⟩ := c.follows
    exact absurd hs ((h _ _ hop).2 s hstop)

theorem updateOp?_operates : Operates updateOp? := by
  intro t op h
  unfold updateOp? at h
  split at h
  · rename_i s hbody
    rw [hbody]
    cases s <;> simp_all [UpdateOp.ofSymbol?, Plain, bracket, Inside, followers]
  · cases h

theorem unaryOp?_operates : Operates unaryOp? := by
  intro t op h
  unfold unaryOp? at h
  split at h
  · rename_i s hbody
    rw [hbody]
    cases s <;> simp_all [UnaryOp.ofSymbol?, Plain, bracket, Inside, followers]
  · rename_i hbody
    rw [hbody]
    exact ⟨⟨nofun, rfl⟩, fun _ => nofun⟩
  · cases h

theorem binaryOp?_operates (noIn : Bool) : Operates (binaryOp? noIn) := by
  intro t op h
  unfold binaryOp? at h
  split at h
  · rename_i s hbody
    rw [hbody]
    cases s <;> simp_all [BinaryOp.ofSymbol?, Plain, bracket, Inside, followers]
  · rename_i hbody
    rw [hbody]
    exact ⟨⟨nofun, rfl⟩, fun _ => nofun⟩
  · cases h

theorem assignOp?_operates : Operates assignOp? := by
  intro t op h
  unfold assignOp? at h
  split at h
  · rename_i s hbody
    rw [hbody]
    cases s <;> simp_all [AssignOp.ofSymbol?, Plain, bracket, Inside, followers]
  · cases h

/-- Two states of a chain, with the budgets of both texts. -/
def SameChain (c : Inset) (s s' : Nat × Expr) : Prop :=
  s.2 = s'.2 ∧ c.Budgets s.1 s'.1

theorem sameChain_refl (s : Nat × Expr) : SameChain c s s :=
  ⟨rfl, .inr rfl⟩

section
variable {lower lower' : Nat → Level}
  (hlower : ∀ b b', c.Budgets b b' → (lower b).Agrees c (lower' b'))
include hlower

theorem chainStep_agree (start : Position) {links : List Symbol}
    (hlinks : ∀ s ∈ links, Inside s) {s s' : Nat × Expr} (hs : SameChain c s s') :
    Agree c ends P m (chainStep lower start links s) (chainStep lower' start links s')
      (Sum.LiftRel (SameChain c) (SameChain c)) (fun _ => m) fun _ _ => True := by
  obtain ⟨budget, e⟩ := s
  obtain ⟨budget', e'⟩ := s'
  obtain ⟨he, hbudgets⟩ := hs
  obtain rfl : e = e' := he
  refine .peek_bind (fun t => ?_) ?_
  · split
    · refine .ite (fun _ => link_agree hbudgets fun b b' hb => ?_) fun _ => ?_
      · refine (chainLink_keeps (hlower b b' hb) start e _ fun i hi => hi.2 ▸ ‹_›).andThen
          fun _ => ?_
        exact .pure (.inl ⟨rfl, hb⟩) rfl fun _ _ => True.intro
      · exact .pure (.inr ⟨rfl, hbudgets⟩) rfl fun _ _ => True.intro
    · exact .pure (.inr ⟨rfl, hbudgets⟩) rfl fun _ _ => True.intro
  · obtain ⟨s, hs, hnext⟩ := c.follows
    rw [c.eof, hnext]
    dsimp only
    rw [if_neg fun h => hlinks s (List.contains_iff_mem.1 h) hs]
    exact .pure (.inr ⟨rfl, hbudgets⟩) rfl fun _ _ => True.intro

theorem chain_agree (start : Position) (links : List Symbol) (hlinks : ∀ s ∈ links, Inside s)
    {s s' : Nat × Expr} (hs : SameChain c s s') :
    Agree c ends P m (iterate (chainStep lower start links) s)
      (iterate (chainStep lower' start links) s') (SameChain c) (fun _ => m) fun _ _ => True :=
  iterate_agree (U := SameChain c) (R := SameChain c) sameChain_refl sameChain_refl
    (fun _ _ _ hs => chainStep_agree hlower start hlinks hs) hs

variable {budget budget' : Nat} (hbudgets : c.Budgets budget budget')
include hbudgets

theorem newRest_keeps (start : Position) :
    Keeps c ends P m (newRest lower budget start) (newRest lower' budget' start) := by
  have hrest (callee : Expr) {P : Input → Prop} : Keeps c ends P m
      (do
        let state ← iterate (chainStep lower start [.dot, .lbracket]) (budget, callee)
        let arguments ← if ← check .lparen then arguments (lower state.1) else pure []
        return Expr.new (← spanFrom start) state.2 arguments)
      (do
        let state ← iterate (chainStep lower' start [.dot, .lbracket]) (budget', callee)
        let arguments ← if ← check .lparen then arguments (lower' state.1) else pure []
        return Expr.new (← spanFrom start) state.2 arguments) := by
    refine Agree.bind (R := SameChain c) sameChain_refl
      (chain_agree hlower start _ (by simp [Inside, followers]) ⟨rfl, hbudgets⟩)
      fun state state' hstate => ?_
    obtain ⟨budget, callee⟩ := state
    obtain ⟨budget', callee'⟩ := state'
    obtain ⟨hcallee, hbudgets⟩ := hstate
    obtain rfl : callee = callee' := hcallee
    refine (check_agree .lparen (c.unlike (by decide))).andThen fun _ => ?_
    refine .ite (fun _ => ?_) fun _ => ?_
    · exact (arguments_keeps (hlower _ _ hbudgets)).andThen fun _ => spanned_keeps start
    · exact Keeps.pure.andThen fun _ => spanned_keeps start
  refine (checkWord_agree "new").andThen fun b => .ite (fun hb => ?_) fun _ => ?_
  · exact ((hlower _ _ hbudgets).construction fun i hi => hi.2.trans hb).andThen fun _ => hrest _
  · exact (primary_keeps (hlower _ _ hbudgets)).andThen fun _ => hrest _

/-- An operand that starts with the word `new`, which is current. -/
theorem constructionAt_keeps
    (hP : ∀ i, P i → i.current.isWord "new" = true) :
    Keeps c ends P m (constructionAt lower budget) (constructionAt lower' budget') := by
  refine here_agree.andThen fun start => ?_
  refine (advance_plain fun i hi => plain_of_isWord (hP i hi.1)).andThen fun _ => ?_
  refine (eat_keeps .dot (c.unlike (by decide)) rfl).andThen fun _ =>
    .ite (fun _ => ?_) fun _ => newRest_keeps hlower hbudgets start
  refine (spanFrom_agree start).andThen fun _ => memberName_keeps.andThen fun _ => ?_
  exact (spanFrom_agree start).andThen fun _ => Keeps.pure

theorem callMember_keeps :
    Keeps c ends P m (callMember lower budget) (callMember lower' budget') := by
  refine here_agree.andThen fun start => (checkWord_agree "new").andThen fun b => ?_
  have hrest (first : Expr) {P : Input → Prop} : Keeps c ends P m
      (do
        let state ← iterate (chainStep lower start [.dot, .questionDot, .lbracket, .lparen])
          (budget, first)
        return state.2)
      (do
        let state ← iterate (chainStep lower' start [.dot, .questionDot, .lbracket, .lparen])
          (budget', first)
        return state.2) := by
    refine Agree.bind (R := SameChain c) sameChain_refl
      (chain_agree hlower start _ (by simp [Inside, followers]) ⟨rfl, hbudgets⟩)
      fun state state' hstate => ?_
    exact .pure hstate.1 rfl fun _ _ => True.intro
  refine .ite (fun hb => ?_) fun _ => ?_
  · exact ((hlower _ _ hbudgets).construction fun i hi => hi.2.trans hb).andThen fun _ => hrest _
  · exact (primary_keeps (hlower _ _ hbudgets)).andThen fun _ => hrest _

theorem postfixed_keeps :
    Keeps c ends P m (postfixed lower budget) (postfixed lower' budget') := by
  refine here_agree.andThen fun start => ?_
  refine (callMember_keeps hlower hbudgets).andThen fun e => ?_
  refine .peek_bind (fun t => ?_) ?_
  · split
    · refine (advance_plain fun i hi => ?_).andThen fun _ => spanned_keeps start
      rw [hi.2]
      exact (updateOp?_operates _ _ ‹_›).1
    · exact Keeps.pure
  · rw [updateOp?_operates.last, updateOp?_operates.next]
    exact Keeps.pure

theorem unaryAt_keeps :
    Keeps c ends P m (unaryAt lower budget) (unaryAt lower' budget') := by
  refine here_agree.andThen fun start => .peek_bind (fun t => ?_) ?_
  · split
    · refine (advance_plain fun i hi => ?_).andThen fun _ =>
        (hlower _ _ hbudgets).unary.andThen fun _ => ?_
      · rw [hi.2]
        exact (unaryOp?_operates _ _ ‹_›).1
      · exact spanned_keeps start
    · refine (advance_plain fun i hi => ?_).andThen fun _ =>
        (hlower _ _ hbudgets).unary.andThen fun _ => ?_
      · rw [hi.2]
        exact (updateOp?_operates _ _ ‹_›).1
      · exact spanned_keeps start
    · exact postfixed_keeps hlower hbudgets
  · rw [unaryOp?_operates.last, updateOp?_operates.last, unaryOp?_operates.next, updateOp?_operates.next]
    exact postfixed_keeps hlower hbudgets

omit hbudgets in
theorem binaryStep_agree (noIn : Bool) (least : Nat) (start : Position) {s s' : Nat × Expr}
    (hs : SameChain c s s') :
    Agree c ends P m (binaryStep lower noIn least start s) (binaryStep lower' noIn least start s')
      (Sum.LiftRel (SameChain c) Eq) (fun _ => m) fun _ _ => True := by
  obtain ⟨budget, e⟩ := s
  obtain ⟨budget', e'⟩ := s'
  obtain ⟨he, hbudgets⟩ := hs
  obtain rfl : e = e' := he
  refine .peek_bind (fun t => ?_) ?_
  · cases hop : binaryOp? noIn t with
    | none => exact .pure (.inr rfl) rfl fun _ _ => True.intro
    | some op =>
      refine .ite (fun _ => .pure (.inr rfl) rfl fun _ _ => True.intro) fun _ => ?_
      refine link_agree hbudgets fun b b' hb => (advance_plain fun i hi => ?_).andThen fun _ => ?_
      · rw [hi.2]
        exact (binaryOp?_operates noIn _ _ hop).1
      refine ((hlower b b' hb).binary noIn _).andThen fun right => ?_
      exact (spanFrom_agree start).andThen fun _ => .pure (.inl ⟨rfl, hb⟩) rfl
        fun _ _ => True.intro
  · rw [(binaryOp?_operates noIn).last, (binaryOp?_operates noIn).next]
    exact .pure (.inr rfl) rfl fun _ _ => True.intro

theorem binaryAt_keeps (noIn : Bool) (least : Nat) :
    Keeps c ends P m (binaryAt lower budget noIn least) (binaryAt lower' budget' noIn least) := by
  refine here_agree.andThen fun start => (hlower _ _ hbudgets).unary.andThen fun left => ?_
  exact iterate_agree (U := SameChain c) sameChain_refl (fun _ => rfl)
    (fun _ _ _ hs => binaryStep_agree hlower noIn least start hs) ⟨rfl, hbudgets⟩

end

/-! ## Arrow functions and assignments -/

/-- Brackets that are closed in the text are passed over in the same way in the larger one. -/
theorem arrowAhead_put {ts : List Token} (h : AllClosed ts) :
    arrowAhead (ts ++ c.next :: c.after) = arrowAhead ts := by
  have hsymbol {s : Symbol} (hs : Inside s) : c.next.isSymbol s = false :=
    beq_false_of_ne (c.inside hs)
  have hword : c.next.isAnyWord = false := by
    rw [(Seen.isAnyWord (.inr ⟨rfl, rfl⟩) : c.next.isAnyWord = c.last.isAnyWord),
      Token.isAnyWord, Token.word?, c.eof]
    rfl
  -- what follows the text is no arrow
  have harrow : c.next.isSymbol .arrow = false := hsymbol (by decide)
  cases ts with
  | nil => simp [arrowAhead, hword, hsymbol (s := .lparen) (by decide)]
  | cons t rest =>
    simp only [arrowAhead, List.cons_append]
    by_cases ht : t.isAnyWord = true
    · simp only [ht, if_true]
      cases rest <;> simp [harrow]
    · by_cases hparen : t.isSymbol .lparen = true
      · obtain ⟨after, hafter⟩ := Option.isSome_iff_exists.1 (h [] t rest rfl hparen)
        have hbracket : bracket t.body = .opening := by
          rw [beq_iff_eq.1 hparen]
          rfl
        simp only [ht, hparen, if_true, afterClose_cons, hbracket, hafter, afterClose_append hafter]
        cases after <;> simp [harrow]
      · simp [ht, hparen]

theorem asyncArrowAhead_put {i : Input} (h : AllClosed i.rest) :
    asyncArrowAhead (c.put i) = asyncArrowAhead i := by
  obtain ⟨rest, last, prevEnd⟩ := i
  cases rest with
  | nil =>
    have hword : c.next.isWord "async" = false := by
      obtain ⟨s, -, hs⟩ := c.follows
      rw [Token.isWord, hs]
      rfl
    simp [asyncArrowAhead, Inset.put, Input.current, Input.ahead, arrowAhead, hword]
  | cons t ts =>
    have hrest : AllClosed ([t] ++ ts) := h
    have hafter := arrowAhead_put (c := c) hrest.of_append
    cases ts with
    | nil =>
      have hnone : arrowAhead (c.next :: c.after) = false := hafter
      have hempty : arrowAhead [] = false := rfl
      simp [asyncArrowAhead, Inset.put, hnone, hempty]
    | cons u ts =>
      have hsame : arrowAhead (u :: (ts ++ c.next :: c.after)) = arrowAhead (u :: ts) := hafter
      simp [asyncArrowAhead, Inset.put, Input.current, Input.ahead, hsame]

section
variable {sub sub' : Level} (hsub : sub.Agrees c sub')
include hsub

theorem conditional_keeps (noIn : Bool) :
    Keeps c ends P m (conditional sub noIn) (conditional sub' noIn) := by
  refine here_agree.andThen fun start => (hsub.binary noIn 0).andThen fun test => ?_
  refine (eat_keeps .question (c.unlike (by decide)) rfl).andThen fun _ => ?_
  refine .ite (fun _ => ?_) fun _ => Keeps.pure
  refine (hsub.assignment false).andThen fun _ => (expect_agree .colon rfl).andThen fun _ => ?_
  exact (hsub.assignment noIn).andThen fun _ => spanned_keeps start

theorem arrow_keeps (noIn : Bool) (start : Position) :
    Keeps c ends P m (arrow sub noIn start) (arrow sub' noIn start) := by
  have hbody (params : List Expr) {P : Input → Prop} : Keeps c ends P m
      (do
        expect .arrow
        let body ←
          if ← check .lbrace then pure (ArrowBody.block (← block sub))
          else pure (ArrowBody.expression (← sub.assignment noIn))
        return Expr.arrow (← spanFrom start) params body)
      (do
        expect .arrow
        let body ←
          if ← check .lbrace then pure (ArrowBody.block (← block sub'))
          else pure (ArrowBody.expression (← sub'.assignment noIn))
        return Expr.arrow (← spanFrom start) params body) := by
    refine (expect_agree .arrow rfl).andThen fun _ => ?_
    refine (check_agree .lbrace (c.unlike (by decide))).andThen fun _ => ?_
    refine .ite (fun _ => ?_) fun _ => ?_
    · exact (block_keeps hsub).andThen fun _ => Keeps.pure.andThen fun _ => spanned_keeps start
    · exact (hsub.assignment noIn).andThen fun _ => Keeps.pure.andThen fun _ => spanned_keeps start
  refine peek_agree.bind seen_refl fun t t' hseen => ?_
  rw [hseen.isAnyWord]
  refine .ite (fun _ => ?_) fun _ => ?_
  · exact identifier_keeps.andThen fun e => Keeps.pure.andThen fun _ => hbody _
  · exact (params_keeps hsub).andThen fun _ => hbody _

theorem plainAssignment_keeps (noIn : Bool) :
    Keeps c ends P m (plainAssignment sub noIn) (plainAssignment sub' noIn) := by
  refine here_agree.andThen fun start => (conditional_keeps hsub noIn).andThen fun left => ?_
  refine .peek_bind (fun t => ?_) ?_
  · cases hop : assignOp? t with
    | none => exact Keeps.pure
    | some op =>
      refine .ite (fun _ => ?_) fun _ => .throw
      refine (advance_plain fun i hi => ?_).andThen fun _ => ?_
      · rw [hi.2]
        exact (assignOp?_operates _ _ hop).1
      · exact (hsub.assignment noIn).andThen fun _ => spanned_keeps start
  · rw [assignOp?_operates.last, assignOp?_operates.next]
    exact Keeps.pure

theorem assignmentAt_keeps (noIn : Bool) :
    Keeps c ends P m (assignmentAt sub noIn) (assignmentAt sub' noIn) := by
  refine .get_bind fun i _ _ => ⟨do
    let start ← here
    if asyncArrowAhead i then
      advance
      arrow sub' noIn start
    else if arrowAhead i.rest then arrow sub' noIn start
    else plainAssignment sub' noIn, ?_, fun hclosed => ?_⟩
  · refine here_agree.andThen fun start => .ite (fun hasync => ?_) fun _ => ?_
    · refine (advance_plain ?_).andThen fun _ => arrow_keeps hsub noIn start
      rintro _ ⟨rfl, -⟩
      rw [asyncArrowAhead, Bool.and_assoc, Bool.and_eq_true_iff] at hasync
      exact plain_of_isWord hasync.1
    · exact .ite (fun _ => arrow_keeps hsub noIn start) fun _ => plainAssignment_keeps hsub noIn
  · rw [asyncArrowAhead_put hclosed, Inset.put_rest, arrowAhead_put hclosed]

end

end WidgetLint.Script.Parser
