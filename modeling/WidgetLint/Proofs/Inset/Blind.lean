import WidgetLint.Proofs.Inset.Begins

/-!
# Expressions and statements on a new line

An expression or a statement is read in the same way whether or not a line ends before its first
token: where the grammar looks for the end of a line, it has read a token before.
-/

namespace WidgetLint.Script

open Text

/-- The token, with a line that ends before it or not. -/
def Token.onLine (t : Token) (new : Bool) : Token :=
  { t with newlineBefore := new }

namespace Parser

variable {α β : Type}

/-- Two inputs that differ only in whether a line ends before the first token. -/
def Reflows (i i' : Input) : Prop :=
  ∃ t ts new, i.rest = t :: ts ∧ i' = { i with rest := t.onLine new :: ts }

/-- A reader that does not ask whether a line ends before the first token. -/
def Blind (p : Parser α) : Prop :=
  ∀ i i', Reflows i i' → p i' = p i

/-! ## Combining readers -/

section
variable {p q : Parser α} {k : α → Parser β}

theorem Blind.bind (h : Blind p) : Blind (p >>= k) := by
  intro i i' hi
  change (p i').bind (fun x => k x.1 x.2) = (p i).bind fun x => k x.1 x.2
  rw [h i i' hi]

theorem Blind.ite {b : Prop} [Decidable b] (hp : Blind p) (hq : Blind q) :
    Blind (if b then p else q) := by
  split
  · exact hp
  · exact hq

theorem Blind.look {f : Input → α} (hp : ∀ i, p i = .ok (f i, i))
    (hsame : ∀ i i', Reflows i i' → k (f i') = k (f i)) (hk : ∀ a, Blind (k a)) :
    Blind (p >>= k) := by
  intro i i' hi
  change (p i').bind (fun x => k x.1 x.2) = (p i).bind fun x => k x.1 x.2
  rw [hp, hp]
  change k (f i') i' = k (f i) i
  rw [hsame i i' hi]
  exact hk (f i) i i' hi

end

theorem Reflows.current {i i' : Input} (h : Reflows i i') :
    ∃ new, i'.current = i.current.onLine new := by
  obtain ⟨t, ts, new, hrest, rfl⟩ := h
  exact ⟨new, by simp [Input.current, Input.ahead, hrest]⟩

theorem Reflows.ahead {i i' : Input} (h : Reflows i i') (n : Nat) :
    i'.ahead (n + 1) = i.ahead (n + 1) := by
  obtain ⟨t, ts, new, hrest, rfl⟩ := h
  simp [Input.ahead, hrest]

theorem Reflows.advance {i i' : Input} (h : Reflows i i') : i'.advance = i.advance := by
  obtain ⟨t, ts, new, hrest, rfl⟩ := h
  simp [Input.advance, Input.current, Input.ahead, hrest, Token.onLine]

theorem get_blind {k : Input → Parser α} (hsame : ∀ i i', Reflows i i' → k i' = k i)
    (hk : ∀ i, Blind (k i)) : Blind (get >>= k) :=
  .look (f := id) (fun _ => rfl) hsame hk

theorem here_blind {k : Position → Parser α} (hk : ∀ a, Blind (k a)) : Blind (here >>= k) := by
  refine .look (f := fun i => i.current.span.start) (fun _ => rfl) (fun i i' hi => ?_) hk
  obtain ⟨new, hcurrent⟩ := hi.current
  rw [hcurrent]
  rfl

theorem peek_blind {k : Token → Parser α} (hsame : ∀ t new, k (t.onLine new) = k t)
    (hk : ∀ t, Blind (k t)) : Blind (peek >>= k) := by
  refine .look (f := fun i => i.current) (fun _ => rfl) (fun i i' hi => ?_) hk
  obtain ⟨new, hcurrent⟩ := hi.current
  rw [hcurrent, hsame]

theorem checkWord_blind {name : String} {k : Bool → Parser α} (hk : ∀ b, Blind (k b)) :
    Blind (checkWord name >>= k) := by
  refine .look (f := fun i => i.current.isWord name) (fun _ => rfl) (fun i i' hi => ?_) hk
  obtain ⟨new, hcurrent⟩ := hi.current
  rw [hcurrent]
  rfl

theorem advance_blind : Blind advance := by
  intro i i' hi
  change (Except.ok ((), i'.advance) : Except ScriptError _) = .ok ((), i.advance)
  rw [hi.advance]

theorem unexpected_blind : Blind (unexpected : Parser α) := by
  intro i i' hi
  obtain ⟨new, hcurrent⟩ := hi.current
  change (Except.error i'.current.complaint : Except ScriptError _) = .error i.current.complaint
  rw [hcurrent]
  rfl

theorem fail_blind {cause : Cause} : Blind (fail cause : Parser α) := by
  intro i i' hi
  obtain ⟨new, hcurrent⟩ := hi.current
  change (Except.error ⟨cause, i'.current.span.start⟩ : Except ScriptError _) =
    .error ⟨cause, i.current.span.start⟩
  rw [hcurrent]
  rfl

theorem expect_blind {s : Symbol} : Blind (expect s) := by
  intro i i' hi
  obtain ⟨new, hcurrent⟩ := hi.current
  rw [expect_run, expect_run, hi.advance, hcurrent]
  rfl

theorem declarationKind?_blind {k : Option VarKind → Parser α} (hk : ∀ kind, Blind (k kind)) :
    Blind (declarationKind? >>= k) := by
  refine .look declarationKind?_run (fun i i' hi => ?_) hk
  obtain ⟨new, hcurrent⟩ := hi.current
  rw [hcurrent, hi.ahead]
  rfl

theorem asyncFunctionAhead_blind {k : Bool → Parser α} (hk : ∀ b, Blind (k b)) :
    Blind (asyncFunctionAhead >>= k) :=
  .look (f := fun i => (i.ahead 1).isWord "function" && !(i.ahead 1).newlineBefore)
    (fun _ => rfl) (fun _ _ hi => by rw [hi.ahead]) hk

/-! ## Expressions -/

structure Level.Blind (l : Level) : Prop where
  statement : Parser.Blind l.statement
  assignment : ∀ noIn, Parser.Blind (l.assignment noIn)
  binary : ∀ noIn least, Parser.Blind (l.binary noIn least)
  unary : Parser.Blind l.unary
  construction : Parser.Blind l.construction

theorem identifier_blind : Blind identifier := by
  refine here_blind fun start => peek_blind (fun _ _ => rfl) fun t => ?_
  split
  · exact advance_blind.bind
  · exact unexpected_blind

theorem atom_blind {make : Span → Expr} : Blind (atom make) :=
  here_blind fun _ => advance_blind.bind

theorem bracketed_blind {opening close : Symbol} {item : Parser α} :
    Blind (bracketed opening close item) :=
  expect_blind.bind

theorem objectWith_blind {sub : Level} {target : Parser Expr} : Blind (objectWith sub target) :=
  here_blind fun _ => bracketed_blind.bind

theorem object_blind {sub : Level} : Blind (object sub) := by
  have hobject (fuel : Nat) : Blind (objectUpTo sub fuel) := by
    cases fuel with
    | zero => exact unexpected_blind
    | succ fuel => exact objectWith_blind
  refine get_blind (fun i i' hi => ?_) fun i => hobject _
  obtain ⟨t, ts, new, hrest, rfl⟩ := hi
  rw [hrest]
  rfl

theorem wordOperand_blind {sub : Level} {name : String} : Blind (wordOperand sub name) := by
  refine here_blind fun start => .ite atom_blind (.ite advance_blind.bind ?_)
  exact asyncFunctionAhead_blind fun _ =>
    .ite advance_blind.bind (.ite unexpected_blind atom_blind)

theorem primary_blind {sub : Level} : Blind (primary sub) := by
  refine peek_blind (fun _ _ => rfl) fun t => ?_
  split
  · exact atom_blind
  · exact atom_blind
  · exact atom_blind
  · exact atom_blind
  · exact atom_blind
  · exact atom_blind
  · exact wordOperand_blind
  · exact expect_blind.bind
  · exact here_blind fun _ => expect_blind.bind
  · exact object_blind
  · exact unexpected_blind

theorem constructionAt_blind {lower : Nat → Level} {budget : Nat} :
    Blind (constructionAt lower budget) :=
  here_blind fun _ => advance_blind.bind

section
variable {lower : Nat → Level} (hlower : ∀ budget, (lower budget).Blind)
include hlower

theorem callMember_blind {budget : Nat} : Blind (callMember lower budget) :=
  here_blind fun _ => checkWord_blind fun _ =>
    .ite (hlower budget).construction.bind primary_blind.bind

theorem unaryAt_blind {budget : Nat} : Blind (unaryAt lower budget) := by
  refine here_blind fun start => peek_blind (fun _ _ => rfl) fun t => ?_
  split
  · exact advance_blind.bind
  · exact advance_blind.bind
  · exact here_blind fun _ => (callMember_blind hlower).bind

theorem binaryAt_blind {budget : Nat} (noIn : Bool) (least : Nat) :
    Blind (binaryAt lower budget noIn least) :=
  here_blind fun _ => (hlower budget).unary.bind

end

section
variable {sub : Level} (hsub : sub.Blind)
include hsub

theorem plainAssignment_blind (noIn : Bool) : Blind (plainAssignment sub noIn) :=
  here_blind fun _ => Blind.bind (here_blind fun _ => (hsub.binary noIn 0).bind)

omit hsub in
theorem arrow_blind (noIn : Bool) (start : Position) : Blind (arrow sub noIn start) :=
  peek_blind (fun _ _ => rfl) fun _ => .ite identifier_blind.bind bracketed_blind.bind

omit hsub in
theorem arrowAhead_reflows {i i' : Input} (h : Reflows i i') :
    arrowAhead i'.rest = arrowAhead i.rest := by
  obtain ⟨t, ts, new, hrest, rfl⟩ := h
  rw [hrest]
  rfl

omit hsub in
theorem asyncArrowAhead_reflows {i i' : Input} (h : Reflows i i') :
    asyncArrowAhead i' = asyncArrowAhead i := by
  obtain ⟨t, ts, new, hrest, rfl⟩ := h
  simp [asyncArrowAhead, Input.current, Input.ahead, hrest, Token.onLine, Token.isWord]

theorem assignmentAt_blind (noIn : Bool) : Blind (assignmentAt sub noIn) := by
  refine get_blind (fun i i' hi => ?_) fun i => here_blind fun start => ?_
  · rw [asyncArrowAhead_reflows hi, arrowAhead_reflows hi]
  · exact .ite advance_blind.bind
      (.ite (arrow_blind noIn start) (plainAssignment_blind hsub noIn))

/-! ## Statements -/

theorem expressionStatement_blind : Blind (expressionStatement sub) :=
  Blind.bind (here_blind fun _ => (hsub.assignment false).bind)

theorem labeledOrExpression_blind (name : String) : Blind (labeledOrExpression sub name) := by
  refine .look (f := fun i => i.ahead 1) (fun _ => rfl) (fun i i' hi => by rw [hi.ahead])
    fun t => ?_
  exact .ite advance_blind.bind (expressionStatement_blind hsub)

theorem wordStatement_blind (name : String) : Blind (wordStatement sub name) := by
  refine declarationKind?_blind fun kind => ?_
  cases kind with
  | some kind => exact Blind.bind advance_blind.bind
  | none =>
    dsimp only
    split
    case h_2 =>
      exact asyncFunctionAhead_blind fun _ =>
        .ite advance_blind.bind (labeledOrExpression_blind hsub "async")
    case h_14 => exact labeledOrExpression_blind hsub name
    -- every other statement is known from its first word
    all_goals exact advance_blind.bind

theorem statementAt_blind : Blind (statementAt sub) := by
  refine here_blind fun start => peek_blind (fun _ _ => rfl) fun t => ?_
  split
  · exact Blind.bind expect_blind.bind
  · exact advance_blind.bind
  · exact (wordStatement_blind hsub _).bind
  · exact (expressionStatement_blind hsub).bind

end

/-- **No statement and no expression asks whether a line ends before it.** -/
theorem level_blind (descents budget : Nat) : (level descents budget).Blind := by
  have hexhausted : Level.exhausted.Blind :=
    ⟨fail_blind, fun _ => fail_blind, fun _ _ => fail_blind, fail_blind, fail_blind⟩
  induction descents generalizing budget with
  | zero => exact hexhausted
  | succ descents ih =>
    rw [level]
    split
    · exact hexhausted
    · exact ⟨statementAt_blind (ih _), assignmentAt_blind (ih _), binaryAt_blind ih,
        unaryAt_blind ih, constructionAt_blind⟩

end Parser

end WidgetLint.Script
