import WidgetLint.Proofs.Spans.Laid

/-!
# The parts that readers of expressions add

Every reader of expressions adds the expression it returns to the parts before it, provided that the
level below it does (`Level.Lays`).
-/

namespace WidgetLint.Script.Parser

open Text

/-- The parts of the grammar at a level add what they return. -/
structure Level.Lays (text : List Char) (l : Level) : Prop where
  statement : Parser.Lays text l.statement fun s => [.stmt s]
  assignment : ∀ noIn, Parser.Lays text (l.assignment noIn) fun e => [.expr e]
  binary : ∀ noIn least, Parser.Lays text (l.binary noIn least) fun e => [.expr e]
  unary : Parser.Lays text l.unary fun e => [.expr e]
  construction : Parser.Lays text l.construction fun e => [.expr e]

section
variable {text : List Char} {base start : Position} {moved : Bool} {ps : List Part}

/-! ## Names -/

theorem ne_eof_of_name? {t : Token} {name : String} (h : t.name? = some name) : t.body ≠ .eof := by
  intro hbody
  simp [Token.name?, Token.word?, hbody] at h

theorem ne_eof_of_memberName? {body : TokenBody} {name : String} (h : body.memberName? = some name) :
    body ≠ .eof := by
  rintro rfl
  cases h

theorem announces_of_announcedKind? {t next : Token} {kind : MemberKind}
    (h : announcedKind? t next = some kind) : t.announces = true := by
  unfold announcedKind? at h
  unfold Token.announces
  grind

theorem identifier_lays : Lays text identifier fun e => [.expr e] := by
  refine lays_here fun _ => peek_then fun t => ?_
  split
  · rename_i name hname
    exact (advance_peeked (ne_eof_of_name? hname)).bind fun _ => spanFrom_laid.bind fun s =>
      .pure fun _ h => h _ rfl rfl trivial
  · exact unexpected_yields

theorem memberName_lays : Lays text memberName fun found => [.name found.2] := by
  refine lays_here fun _ => peek_then fun t => ?_
  split
  · rename_i name hname
    exact (advance_peeked (ne_eof_of_memberName? hname)).bind fun _ => spanFrom_laid.bind fun s =>
      .pure fun _ h => h _ rfl rfl trivial
  · exact unexpected_yields

/-! ## Lists of expressions -/

theorem afterComma_lays {α : Type} {p : Parser α} {f : α → List Part} (h : Lays text p f) :
    LaysItem text (do if ← eat .comma then return some (← p) else return none) f :=
  fun _ _ _ => eat_ite
    (h.then fun a => .pure fun _ h => ⟨fun b hb => by cases hb; exact h, by simp⟩)
    (.pure fun _ h => ⟨by simp, fun _ => h⟩)

section
variable {sub : Level} (hsub : sub.Lays text)
include hsub

theorem sequence_lays (noIn : Bool) : Lays text (sequence sub noIn) fun e => [.expr e] := by
  refine lays_here fun _ => (hsub.assignment noIn).then fun first => ?_
  refine check_ite (Yields.left ?_) (.pure fun _ h => h)
  exact (many_adds_each (afterComma_lays (hsub.assignment noIn))).then fun _ =>
    spanFrom_laid.bind fun _ => .pure fun _ h => h _ rfl rfl trivial

theorem parenthesized_lays : Lays text (parenthesized sub) fun e => [.expr e] :=
  fun _ _ _ => (expect_laid .lparen).bind fun _ => (sequence_lays hsub false).then fun _ =>
    (expect_laid .rparen).bind fun _ => .pure fun _ h => h

theorem spreadOrAssignment_lays : Lays text (spreadOrAssignment sub) fun e => [.expr e] := by
  refine lays_here fun start => eat_ite ?_ ?_
  · exact (hsub.assignment false).then fun _ => spanFrom_laid.bind fun _ =>
      .pure fun _ h => h _ rfl rfl trivial
  · exact hsub.assignment false start false []

theorem arguments_lays : Lays text (arguments sub) (·.map .expr) :=
  bracketed_lays_each .lparen .rparen (spreadOrAssignment_lays hsub)

theorem array_lays : Lays text (array sub) fun e => [.expr e] := by
  have hitem : LaysItem text (do
      if ← check .rbracket then return none
      if ← eat .comma then return some none
      let item ← spreadOrAssignment sub
      unless ← check .rbracket do expect .comma
      return some (some item)) optionalPart := by
    intro base moved ps
    refine check_ite (.pure fun _ h => ⟨by simp, fun _ => h.1⟩) (eat_ite ?_ ?_)
    · refine .pure fun _ h => ⟨fun a ha => ?_, by simp⟩
      cases ha
      rwa [optionalPart, Option.toList_none, List.map_nil, List.append_nil]
    · refine (spreadOrAssignment_lays hsub).then fun item => ?_
      have hdone : Yields (Laid text base true (ps ++ [.expr item])) (pure (some (some item)))
          fun o i => (∀ a, o = some a → Laid text base true (ps ++ optionalPart a) i) ∧
            (o = none → Laid text base moved ps i) :=
        .pure fun i h => ⟨fun a ha => by cases ha; exact h, by simp⟩
      exact check_ite hdone.left ((expect_laid .comma).bind fun _ => hdone)
  exact lays_here fun _ => (expect_laid .lbracket).bind fun _ => (many_adds hitem).then fun _ =>
    (expect_laid .rbracket).bind fun _ => spanFrom_laid.bind fun _ =>
      .pure fun _ h => h _ rfl rfl trivial

/-! ## Functions and objects -/

theorem block_lays : Lays text (block sub) (·.map .stmt) := by
  have hitem : LaysItem text (do
      if ← check .rbrace then return none
      if ← atEnd then unexpected
      return some (← sub.statement)) fun s => [.stmt s] := by
    intro base moved ps
    refine check_ite (.pure fun _ h => ⟨by simp, fun _ => h.1⟩) (atEnd_ite unexpected_yields ?_)
    exact hsub.statement.then fun s => .pure fun _ h => ⟨fun a ha => by cases ha; exact h, by simp⟩
  exact fun _ _ _ => (expect_laid .lbrace).bind fun _ => (many_adds_each hitem).then fun _ =>
    advance_laid.bind fun _ => .pure fun _ h => h

theorem computedKey_laid : Yields (fun i => Laid text base moved ps i ∧ i.current.body ≠ .eof)
    (computedKey sub) fun key i => Laid text base true (ps ++ key.parts) i ∧ key.name? = none :=
  advance_token.bind fun _ => (hsub.assignment false).then fun _ =>
    (expect_laid .rbracket).bind fun _ => .pure fun _ h => ⟨h, rfl⟩

/-- A key was read behind other parts. If its first token is a name, the key has no parts, and the
token would be one; that token spells the key, unless the key is computed. -/
structure KeyRead (text : List Char) (base : Position) (ps : List Part) (t : Token) (key : Key)
    (i : Input) : Prop where
  laid : Laid text base true (ps ++ key.parts) i
  shorthand : ∀ name, t.name? = some name →
    key.parts = [] ∧ Laid text base true (ps ++ [.expr (.ident t.span name)]) i
  spelt : key.name? ≠ none → t.body.key? = some key

theorem memberKey_laid (t : Token) : Yields (fun i => Laid text base moved ps i ∧ t = i.current)
    (memberKey sub) (KeyRead text base ps t) := by
  -- a key of one token
  have hone {key : Key} (hkey : key.parts = []) (hspelt : t.body.key? = some key) :
      Yields (fun i => Laid text base moved ps i ∧ t = i.current) (do advance; return key)
        (KeyRead text base ps t) := by
    rintro i _ j hi ⟨h, rfl⟩ heq
    cases heq
    have hbody := TokenBody.ne_eof_of_key? hspelt
    refine ⟨hi.advance, ?_, fun name _ => ⟨hkey, ?_⟩, fun _ => hspelt⟩
    · rw [hkey, List.append_nil]
      exact h.advance_token hbody
    · exact h.append ((Laid.opening h.ordered).advance_token hbody |>.close rfl rfl trivial)
  refine peek_again ?_
  split
  · rename_i hbody
    exact hone rfl (by rw [hbody]; rfl)
  · rename_i hbody
    exact hone rfl (by rw [hbody]; rfl)
  · rename_i hbody
    -- brackets are no name
    have hcomputed : Yields (fun i => Laid text base moved ps i ∧ t = i.current) (computedKey sub)
        fun key i => Laid text base true (ps ++ key.parts) i ∧ key.name? = none :=
      (computedKey_laid hsub).from fun i h => ⟨h.1, by simp [← h.2, hbody]⟩
    exact hcomputed.imp fun key i h =>
      ⟨h.1, fun name hname => by simp [Token.name?, Token.word?, hbody] at hname,
        fun hname => absurd h.2 hname⟩
  · split
    · rename_i hname
      exact hone rfl (TokenBody.key?_of_memberName? hname)
    · exact unexpected_yields

/-- A key that begins where a member begins, or behind what announces it, is spelt there. -/
theorem memberKey_spelt (t : Token) : Yields
    (fun i => (Laid text start moved [] i ∧ i.current.FollowsAt text start) ∧ t = i.current)
    (memberKey sub) fun key i => KeyRead text start [] t key i ∧ key.SpeltAt text start := by
  rintro i key j hi ⟨⟨h, hat⟩, rfl⟩ heq
  obtain ⟨hj, hkey⟩ := memberKey_laid hsub i.current i key j hi ⟨h, rfl⟩ heq
  refine ⟨hj, hkey, fun hname => ⟨i.current, ?_, hkey.spelt hname, hat⟩⟩
  exact h.ordered.current_of (TokenBody.ne_eof_of_key? (hkey.spelt hname))

section
variable {target : Parser Expr} (htarget : Lays text target fun e => [.expr e])
include htarget

theorem bindingElement_lays : Lays text (bindingElement sub target) fun e => [.expr e] :=
  lays_here fun _ => htarget.then fun _ => eat_ite
    ((hsub.assignment false).then fun _ => spanFrom_laid.bind fun _ =>
      .pure fun _ h => h _ rfl rfl trivial)
    (.pure fun _ h => h)

theorem param_lays : Lays text (param sub target) fun e => [.expr e] :=
  lays_here fun start => eat_ite
    (htarget.then fun _ => spanFrom_laid.bind fun _ => .pure fun _ h => h _ rfl rfl trivial)
    (bindingElement_lays hsub htarget start false [])

theorem paramsWith_lays : Lays text (paramsWith sub target) (·.map .expr) :=
  bracketed_lays_each .lparen .rparen (param_lays hsub htarget)

theorem methodValue_lays : Lays text (methodValue sub target) fun e => [.expr e] :=
  lays_here fun _ => (paramsWith_lays hsub htarget).then fun _ => (block_lays hsub).then fun _ =>
    spanFrom_laid.bind fun _ => .pure fun _ h => h _ rfl rfl trivial

/-- The value of a member follows its key, which for a shorthand is its first token. -/
theorem memberValue_laid (generator : Bool) {key : Key} {t : Token} :
    Yields (KeyRead text start [] t key) (memberValue sub target start generator t)
      fun found => Laid text start true (key.parts ++ [.expr found.2]) := by
  refine peek_then fun u => Yields.left ?_
  split
  · refine Yields.from (P := Laid text start true key.parts) ?_ fun _ h => h.laid
    exact advance_laid.bind fun _ => (hsub.assignment false).then fun _ => .pure fun _ h => h
  · refine Yields.from (P := Laid text start true key.parts) ?_ fun _ h => h.laid
    exact (methodValue_lays hsub htarget).then fun _ => .pure fun _ h => h
  iterate 2
    rename_i name _ hname
    refine .pure fun i h => ?_
    rw [(h.shorthand name hname).1]
    exact (h.shorthand name hname).2
  · rename_i name _ hname
    by_cases hkey : key.parts = []
    · rw [hkey]
      refine Yields.from (P := Laid text start true [.expr (.ident t.span name)]) ?_
        fun i h => (h.shorthand name hname).2
      exact advance_laid.bind fun _ => (hsub.assignment false).then fun _ =>
        spanFrom_laid.bind fun _ => .pure fun _ h => h _ rfl rfl trivial
    · exact fun i _ _ _ h => absurd (h.shorthand name hname).1 hkey
  · exact unexpected_yields

omit hsub htarget in
theorem advance_lead {t : Token} (ht : t.announces = true) :
    Yields (fun i => (Laid text start false [] i ∧ i.current.span.start = start) ∧ t = i.current)
      advance fun _ i => Laid text start true [] i ∧ i.current.FollowsAt text start := by
  rintro i a j hi ⟨⟨h, hstart⟩, rfl⟩ heq
  cases heq
  have hbody := Token.ne_eof_of_announces ht
  exact ⟨hi.advance, h.advance_token hbody, .inr ⟨i.current, h.ordered.current_of hbody, ht,
    hstart, h.ordered.advance.le_current⟩⟩

omit hsub htarget in
theorem eat_lead : Yields (fun i => Laid text start false [] i ∧ i.current.span.start = start)
    (eat .star) fun _ i => Laid text start false [] i ∧ i.current.FollowsAt text start := by
  refine check_ite ?_ (.pure fun i h => ⟨h.1, .inl h.2⟩)
  rintro i b j hi ⟨h, hstar⟩ heq
  have hlead : i.current.announces = true := by simp [Token.announces, hstar]
  cases heq
  obtain ⟨hj, hlaid, hkey⟩ := advance_lead hlead i () i.advance hi ⟨h, rfl⟩ rfl
  exact ⟨hj, hlaid.weaken, hkey⟩

theorem announced_laid (kind : MemberKind) :
    Yields (fun i => Laid text start true [] i ∧ i.current.FollowsAt text start) (do
      let key ← memberKey sub
      let value ← methodValue sub target
      return .named (← spanFrom start) kind key value)
      fun m => Laid text start true (Member.parts m) := by
  have hkey : Yields (fun i => Laid text start true [] i ∧ i.current.FollowsAt text start)
      (memberKey sub) fun key i => Laid text start true key.parts i ∧ key.SpeltAt text start :=
    fun i key j hi h heq =>
      have hread := memberKey_spelt hsub i.current i key j hi ⟨h, rfl⟩ heq
      ⟨hread.1, hread.2.1.laid, hread.2.2⟩
  refine hkey.bind fun key => .given fun hspelt => (methodValue_lays hsub htarget).then fun value => ?_
  exact spanFrom_laid.bind fun _ => .pure fun _ h => h _ rfl rfl hspelt

theorem unannounced_laid :
    Yields (fun i => Laid text start false [] i ∧ i.current.span.start = start) (do
      let generator ← eat .star
      let keyToken ← peek
      let key ← memberKey sub
      let (kind, value) ← memberValue sub target start generator keyToken
      return .named (← spanFrom start) kind key value)
      fun m => Laid text start true (Member.parts m) := by
  refine eat_lead.bind fun generator => peek_then fun keyToken => ?_
  refine (memberKey_spelt hsub keyToken).bind fun key => .given fun hspelt => ?_
  refine (memberValue_laid hsub htarget generator).bind fun found => ?_
  exact spanFrom_laid.bind fun _ => .pure fun _ h => h _ rfl rfl hspelt

theorem memberWith_lays : Lays text (memberWith sub target) Member.parts := by
  refine lays_at fun start => (eat_unless .ellipsis fun _ h => h.1).bind fun spread => ?_
  refine .ite (fun hspread => ?_) fun hspread => ?_
  · refine Yields.from (P := Laid text start true []) ?_ fun _ h => h.1 hspread
    exact (hsub.assignment false).then fun _ => .pure fun _ h => h
  refine Yields.from (P := fun i => Laid text start false [] i ∧ i.current.span.start = start) ?_
    fun _ h => h.2 (by simpa using hspread)
  refine peek_then fun t => peekSecond_then fun next => ?_
  split
  · rename_i hkind
    exact (advance_lead (announces_of_announcedKind? hkind)).bind fun _ =>
      announced_laid hsub htarget _
  · exact (unannounced_laid hsub htarget).left

theorem objectWith_lays : Lays text (objectWith sub target) fun e => [.expr e] :=
  lays_here fun _ => (bracketed_lays .lbrace .rbrace (memberWith_lays hsub htarget)).then
    fun _ => spanFrom_laid.bind fun _ => .pure fun _ h => h _ rfl rfl trivial

end

theorem bindingTargetWith_lays {object : Parser Expr}
    (hobject : Lays text object fun e => [.expr e]) :
    Lays text (bindingTargetWith sub object) fun e => [.expr e] := by
  refine fun base moved ps => peek_then fun t => Yields.left ?_
  split
  · exact hobject base moved ps
  · exact array_lays hsub base moved ps
  · exact identifier_lays base moved ps

theorem objectUpTo_lays (fuel : Nat) : Lays text (objectUpTo sub fuel) fun e => [.expr e] := by
  induction fuel with
  | zero => exact fun _ _ _ => unexpected_yields
  | succ fuel ih => exact objectWith_lays hsub (bindingTargetWith_lays hsub ih)

theorem object_lays : Lays text (object sub) fun e => [.expr e] :=
  fun base moved ps i e j hi h heq => objectUpTo_lays hsub _ base moved ps i e j hi h heq

theorem bindingTarget_lays : Lays text (bindingTarget sub) fun e => [.expr e] :=
  bindingTargetWith_lays hsub (object_lays hsub)

theorem params_lays : Lays text (params sub) (·.map .expr) :=
  paramsWith_lays hsub (bindingTarget_lays hsub)

omit hsub in
theorem functionName?_laid : Yields (Laid text base moved ps) functionName?
    fun _ => Laid text base moved ps := by
  refine peek_then fun t => .ite (fun _ => peek_again ?_) fun _ => .pure fun _ h => h.1
  split
  · rename_i name hname
    exact (advance_peeked (ne_eof_of_name? hname)).bind fun _ => .pure fun _ h => h.weaken
  · exact unexpected_yields

theorem functionRest_lays :
    Lays text (functionRest sub) fun found => found.1.map .expr ++ found.2.map .stmt :=
  fun base moved ps => (params_lays hsub).then fun _ => (block_lays hsub).then fun _ =>
    .pure fun _ h => by rwa [← List.append_assoc]

theorem functionExpr_laid : Yields (Laid text start true []) (functionExpr sub start)
    fun e => Laid text start true [.expr e] :=
  (eat_stays .star).bind fun _ => functionName?_laid.bind fun _ => (functionRest_lays hsub).then
    fun _ => spanFrom_laid.bind fun _ => .pure fun _ h => h _ rfl rfl trivial

/-! ## Operands -/

omit hsub in
theorem asyncFunctionAhead_then {β : Type} {P : Input → Prop} {R : β → Input → Prop}
    {k : Bool → Parser β} (h : ∀ b, Yields P (k b) R) :
    Yields P (asyncFunctionAhead >>= k) R :=
  fun i b j hi hP heq => h _ i b j hi hP heq

omit hsub in
theorem atom_laid {make : Span → Expr} (h : ∀ s, (make s).span = s ∧ (make s).parts = []) {t : Token}
    (hbody : t.body ≠ .eof) : Yields (fun i => Laid text base moved ps i ∧ t = i.current) (atom make)
      fun e => Laid text base true (ps ++ [.expr e]) :=
  here_opens fun _ => (advance_peeked hbody).bind fun _ => spanFrom_laid.bind fun s =>
    .pure fun _ hs => hs _ (h s).1 (h s).2 trivial

theorem wordOperand_laid {t : Token} {name : String} (hbody : t.body = .word name) :
    Yields (fun i => Laid text base moved ps i ∧ t = i.current) (wordOperand sub name)
      fun e => Laid text base true (ps ++ [.expr e]) := by
  have hword : t.body ≠ .eof := by simp [hbody]
  refine here_opens fun start => ?_
  have hrest : Yields (fun i => Laid text start false [] i ∧ t = i.current)
      (if isReserved name = true then unexpected else atom (.ident · name))
      fun e => Laid text start true [.expr e] :=
    .ite (fun _ => unexpected_yields) fun _ => atom_laid (fun _ => ⟨rfl, rfl⟩) hword
  refine .ite (fun _ => atom_laid (fun _ => ⟨rfl, rfl⟩) hword) fun _ => .ite (fun _ => ?_) fun _ => ?_
  · exact (advance_peeked hword).bind fun _ => functionExpr_laid hsub
  · refine asyncFunctionAhead_then fun _ => .ite (fun _ => ?_) fun _ => hrest
    exact (advance_peeked hword).bind fun _ => advance_laid.bind fun _ => functionExpr_laid hsub

theorem primary_lays : Lays text (primary sub) fun e => [.expr e] := by
  refine fun base moved ps => peek_then fun t => ?_
  split
  iterate 6
    rename_i hbody
    exact atom_laid (fun _ => ⟨rfl, rfl⟩) (by simp [hbody])
  · rename_i hbody
    exact wordOperand_laid hsub hbody
  · exact (parenthesized_lays hsub base moved ps).left
  · exact (array_lays hsub base moved ps).left
  · exact (object_lays hsub base moved ps).left
  · exact unexpected_yields

theorem indexKey_lays : Lays text (indexKey sub) fun e => [.expr e] :=
  fun _ _ _ => (expect_laid .lbracket).bind fun _ => (sequence_lays hsub false).then fun _ =>
    (expect_laid .rbracket).bind fun _ => .pure fun _ h => h

/-! ## Chains -/

variable {e : Expr}

omit hsub in
theorem dot_laid (optional : Bool) : Yields (Laid text start true [.expr e]) (do
      let (name, nameSpan) ← memberName
      return .dot (← spanFrom start) e optional name nameSpan)
    fun e => Laid text start true [.expr e] :=
  memberName_lays.then fun _ => spanFrom_laid.bind fun _ => .pure fun _ h => h _ rfl rfl trivial

theorem access_laid (optional : Bool) : Yields (Laid text start true [.expr e])
    (access sub start e optional) fun e => Laid text start true [.expr e] :=
  check_ite (Yields.left ((indexKey_lays hsub).then fun _ => spanFrom_laid.bind fun _ =>
    .pure fun _ h => h _ rfl rfl trivial)) (dot_laid optional)

theorem callOf_laid (optional : Bool) : Yields (Laid text start true [.expr e])
    (callOf sub start e optional) fun e => Laid text start true [.expr e] :=
  (arguments_lays hsub).then fun _ => spanFrom_laid.bind fun _ => .pure fun _ h => h _ rfl rfl trivial

theorem chainLink_laid (s : Symbol) : Yields (Laid text start true [.expr e])
    (chainLink sub start e s) fun e => Laid text start true [.expr e] := by
  unfold chainLink
  split
  · exact advance_laid.bind fun _ => dot_laid false
  · exact advance_laid.bind fun _ => check_ite (callOf_laid hsub true).left (access_laid hsub true)
  · exact callOf_laid hsub false
  · exact access_laid hsub false

end

section
variable {lower : Nat → Level} (hlower : ∀ budget, (lower budget).Lays text)
include hlower

theorem chain_laid (links : List Symbol) (budget : Nat) (e : Expr) :
    Yields (Laid text start true [.expr e]) (iterate (chainStep lower start links) (budget, e))
      fun state => Laid text start true [.expr state.2] := by
  have hstep (state : Nat × Expr) : Yields (Laid text start true [.expr state.2])
      (chainStep lower start links state) fun next => Laid text start true
        (next.elim (fun state => [.expr state.2]) fun state => [.expr state.2]) := by
    obtain ⟨budget, e⟩ := state
    refine peek_then fun t => Yields.left ?_
    split
    · refine .ite (fun _ => link_laid _ fun budget => ?_) fun _ => .pure fun _ h => h
      exact (chainLink_laid (hlower budget) _).bind fun _ => .pure fun _ h => h
    · exact .pure fun _ h => h
  exact iterate_laid hstep (budget, e)

theorem head_lays (budget : Nat) {k : Expr → Parser Expr} {R : Expr → Input → Prop}
    (hk : ∀ e, Yields (Laid text base true (ps ++ [.expr e])) (k e) R) :
    Yields (Laid text base moved ps) (do
      k (← if ← checkWord "new" then (lower budget).construction else primary (lower budget))) R :=
  checkWord_ite (Yields.left ((hlower budget).construction.then hk))
    ((primary_lays (hlower budget)).then hk)

theorem newRest_laid (budget : Nat) : Yields (Laid text start moved []) (newRest lower budget start)
    fun e => Laid text start true [.expr e] := by
  refine head_lays hlower budget fun callee => ?_
  refine (chain_laid hlower [.dot, .lbracket] budget callee).bind fun (state : Nat × Expr) => ?_
  have hend (arguments : List Expr) :
      Yields (Laid text start true (.expr state.2 :: arguments.map .expr))
        (do return .new (← spanFrom start) state.2 arguments)
        fun e => Laid text start true [.expr e] :=
    spanFrom_laid.bind fun _ => .pure fun _ h => h _ rfl rfl trivial
  refine check_ite (Yields.left ?_) (hend [])
  exact (arguments_lays (hlower state.1)).then fun arguments => hend arguments

theorem constructionAt_lays (budget : Nat) :
    Lays text (constructionAt lower budget) fun e => [.expr e] :=
  lays_here fun _ => advance_laid.bind fun _ => eat_ite
    (spanFrom_laid.bind fun s => (dot_laid false).from fun _ h =>
      h (.expr (.ident s "new")) rfl rfl trivial)
    (newRest_laid hlower budget)

theorem callMember_lays (budget : Nat) : Lays text (callMember lower budget) fun e => [.expr e] :=
  lays_here fun _ => head_lays hlower budget fun first =>
    (chain_laid hlower _ budget first).bind fun _ => .pure fun _ h => h

theorem postfixed_lays (budget : Nat) : Lays text (postfixed lower budget) fun e => [.expr e] := by
  refine lays_here fun _ => (callMember_lays hlower budget).then fun e => peek_then fun t => ?_
  refine Yields.left ?_
  split
  · exact advance_laid.bind fun _ => spanFrom_laid.bind fun _ => .pure fun _ h => h _ rfl rfl trivial
  · exact .pure fun _ h => h

theorem unaryAt_lays (budget : Nat) : Lays text (unaryAt lower budget) fun e => [.expr e] := by
  refine lays_here fun start => peek_then fun t => Yields.left ?_
  split
  iterate 2
    exact advance_laid.bind fun _ => (hlower budget).unary.then fun _ => spanFrom_laid.bind fun _ =>
      .pure fun _ h => h _ rfl rfl trivial
  · exact postfixed_lays hlower budget start false []

/-! ## Operators -/

theorem binaryAt_lays (budget : Nat) (noIn : Bool) (least : Nat) :
    Lays text (binaryAt lower budget noIn least) fun e => [.expr e] := by
  refine lays_here fun start => (hlower budget).unary.then fun left => ?_
  have hstep (state : Nat × Expr) : Yields (Laid text start true [.expr state.2])
      (binaryStep lower noIn least start state) fun next => Laid text start true
        (next.elim (fun state => [.expr state.2]) fun e => [.expr e]) := by
    obtain ⟨budget, left⟩ := state
    refine peek_then fun t => Yields.left ?_
    split
    · exact .pure fun _ h => h
    · refine .ite (fun _ => .pure fun _ h => h) fun _ => link_laid _ fun budget => ?_
      exact advance_laid.bind fun _ => ((hlower budget).binary noIn _).then fun _ =>
        spanFrom_laid.bind fun _ => .pure fun _ h => h _ rfl rfl trivial
  exact iterate_laid hstep (budget, left)

end

section
variable {sub : Level} (hsub : sub.Lays text)
include hsub

theorem conditional_lays (noIn : Bool) : Lays text (conditional sub noIn) fun e => [.expr e] :=
  lays_here fun _ => (hsub.binary noIn 0).then fun _ => eat_ite
    ((hsub.assignment false).then fun _ => (expect_laid .colon).bind fun _ =>
      (hsub.assignment noIn).then fun _ => spanFrom_laid.bind fun _ =>
        .pure fun _ h => h _ rfl rfl trivial)
    (.pure fun _ h => h)

/-! ## Arrow functions and assignments -/

theorem arrow_laid (noIn : Bool) : Yields (Laid text start moved []) (arrow sub noIn start)
    fun e => Laid text start true [.expr e] := by
  have hrest (params : List Expr) : Yields (Laid text start true (params.map .expr)) (do
      expect .arrow
      let body ←
        if ← check .lbrace then pure (ArrowBody.block (← block sub))
        else pure (ArrowBody.expression (← sub.assignment noIn))
      return .arrow (← spanFrom start) params body) fun e => Laid text start true [.expr e] := by
    have hend (body : ArrowBody) :
        Yields (Laid text start true (params.map .expr ++ body.parts))
          (do return .arrow (← spanFrom start) params body)
          fun e => Laid text start true [.expr e] :=
      spanFrom_laid.bind fun _ => .pure fun _ h => h _ rfl rfl trivial
    refine (expect_laid .arrow).bind fun _ => check_ite (Yields.left ?_) ?_
    · refine (block_lays hsub).then fun body => ?_
      rw [pure_bind]
      exact hend (.block body)
    · refine (hsub.assignment noIn).then fun value => ?_
      rw [pure_bind]
      exact hend (.expression value)
  refine peek_then fun t => Yields.left <| .ite (fun _ => ?_) fun _ => ?_
  · exact identifier_lays.then fun name => hrest [name]
  · exact (params_lays hsub).then fun params => hrest params

theorem plainAssignment_lays (noIn : Bool) :
    Lays text (plainAssignment sub noIn) fun e => [.expr e] := by
  refine lays_here fun _ => (conditional_lays hsub noIn).then fun left => peek_then fun t => ?_
  refine Yields.left ?_
  split
  · exact .pure fun _ h => h
  · refine .ite (fun _ => ?_) fun _ => yields_throw
    exact advance_laid.bind fun _ => (hsub.assignment noIn).then fun _ => spanFrom_laid.bind fun _ =>
      .pure fun _ h => h _ rfl rfl trivial

theorem assignmentAt_lays (noIn : Bool) : Lays text (assignmentAt sub noIn) fun e => [.expr e] := by
  have hread (input : Input) : Lays text (do
      let start ← here
      if asyncArrowAhead input then
        advance
        arrow sub noIn start
      else if arrowAhead input.rest then arrow sub noIn start
      else plainAssignment sub noIn) fun e => [.expr e] :=
    lays_here fun start => .ite (fun _ => advance_laid.bind fun _ => arrow_laid hsub noIn) fun _ =>
      .ite (fun _ => arrow_laid hsub noIn) fun _ => plainAssignment_lays hsub noIn start false []
  exact fun base moved ps i e j hi h heq => hread i base moved ps i e j hi h heq

end
end

end WidgetLint.Script.Parser
