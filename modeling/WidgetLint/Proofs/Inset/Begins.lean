import WidgetLint.Proofs.Inset.Agree
import WidgetLint.Script.Parser

/-!
# Where nothing begins

Neither an expression nor a statement begins at the end of a text or with the word `else`
(`level_refuses`).
-/

namespace WidgetLint.Script.Parser

open Text

/-- A token with which no statement begins. -/
def Foreign (t : Token) : Prop :=
  t.body = .eof ∨ t.body = .word "else"

/-- A reader that fails where no statement begins. -/
def Refuses {α : Type} (p : Parser α) : Prop :=
  ∀ i x, Foreign i.current → p i ≠ .ok x

section
variable {α β : Type} {p q : Parser α} {k : α → Parser β}

/-! ## Combining readers -/

theorem Refuses.bind (h : Refuses p) : Refuses (p >>= k) := by
  intro i x hforeign hrun
  obtain ⟨a, mid, hp, -⟩ := bind_ok (b := x.1) (j := x.2) hrun
  exact h i _ hforeign hp

theorem Refuses.ite {b : Prop} [Decidable b] (hp : Refuses p) (hq : Refuses q) :
    Refuses (if b then p else q) := by
  split
  · exact hp
  · exact hq

theorem Refuses.look {f : Input → α} (hp : ∀ i, Foreign i.current → p i = .ok (f i, i))
    (hk : ∀ i, Foreign i.current → Refuses (k (f i))) : Refuses (p >>= k) := by
  intro i x hforeign hrun
  change ((p i).bind fun x => k x.1 x.2) = .ok x at hrun
  rw [hp i hforeign] at hrun
  exact hk i hforeign i x hforeign hrun

theorem Refuses.needs {c : Inset} (h : Refuses p) : Needs c p := by
  intro i x hi hnil
  refine h i x (.inl ?_)
  rw [hi.current_nil hnil, c.eof]

theorem here_refuses {k : Position → Parser α} (hk : ∀ a, Refuses (k a)) : Refuses (here >>= k) :=
  .look (f := fun i => i.current.span.start) (fun _ _ => rfl) fun _ _ => hk _

theorem peek_refuses {k : Token → Parser α} (hk : ∀ t, Foreign t → Refuses (k t)) :
    Refuses (peek >>= k) :=
  .look (f := fun i => i.current) (fun _ _ => rfl) fun _ hforeign => hk _ hforeign

theorem unexpected_refuses : Refuses (unexpected : Parser α) := by
  intro i x _ hrun
  cases hrun

theorem fail_refuses {cause : Cause} : Refuses (fail cause : Parser α) := by
  intro i x _ hrun
  cases hrun

theorem Foreign.isWord_eq_false {t : Token} {name : String} (h : Foreign t)
    (hname : name ≠ "else") : t.isWord name = false := by
  rw [Token.isWord]
  rcases h with h | h
  · rw [h]
    rfl
  · rw [h]
    exact beq_false_of_ne fun heq => hname (TokenBody.word.inj heq).symm

theorem Foreign.isSymbol_eq_false {t : Token} (s : Symbol) (h : Foreign t) :
    t.isSymbol s = false := by
  rw [Token.isSymbol]
  rcases h with h | h
  · rw [h]
    rfl
  · rw [h]
    rfl

theorem Foreign.name?_eq_none {t : Token} (h : Foreign t) : t.name? = none := by
  rw [Token.name?, Token.word?]
  rcases h with h | h
  · rw [h]
    rfl
  · rw [h]
    rfl

theorem eat_refuses {s : Symbol} {k : Bool → Parser α} (hk : Refuses (k false)) :
    Refuses (eat s >>= k) := by
  refine .look (f := fun _ => false) (fun i hi => ?_) fun _ _ => hk
  rw [eat_run, hi.isSymbol_eq_false]
  rfl

theorem eatWord_refuses {name : String} {k : Bool → Parser α} (hname : name ≠ "else")
    (hk : Refuses (k false)) : Refuses (eatWord name >>= k) := by
  refine .look (f := fun _ => false) (fun i hi => ?_) fun _ _ => hk
  rw [eatWord_run, hi.isWord_eq_false hname]
  rfl

theorem expect_refuses {s : Symbol} : Refuses (expect s) := by
  intro i x hforeign hrun
  rw [expect_run, hforeign.isSymbol_eq_false] at hrun
  cases hrun

end

/-- The kind of declaration that two tokens begin. -/
def declares? (t next : Token) : Option VarKind :=
  if t.isWord "var" then some .var
  else if t.isWord "const" then some .const
  else if t.isWord "let" then
    if next.isAnyWord || next.isSymbol .lbracket || next.isSymbol .lbrace then some .letting
    else none
  else none

theorem declarationKind?_run (i : Input) :
    (declarationKind? : Parser (Option VarKind)) i = .ok (declares? i.current (i.ahead 1), i) := by
  have hlook (f : Token → Token → Parser (Option VarKind)) :
      (peek >>= fun t => peekSecond >>= f t) i = f i.current (i.ahead 1) i := rfl
  rw [declarationKind?, hlook, declares?]
  split
  · rfl
  split
  · rfl
  split
  · split <;> rfl
  · rfl

theorem declarationKind?_refuses {α : Type} {k : Option VarKind → Parser α}
    (hk : Refuses (k none)) : Refuses (declarationKind? >>= k) := by
  refine .look (f := fun _ => none) (fun i hi => ?_) fun _ _ => hk
  rw [declarationKind?_run]
  simp [declares?, hi.isWord_eq_false]

/-! ## Expressions -/

structure Level.Refuses (l : Level) : Prop where
  statement : Parser.Refuses l.statement
  assignment : ∀ noIn, Parser.Refuses (l.assignment noIn)
  binary : ∀ noIn least, Parser.Refuses (l.binary noIn least)
  unary : Parser.Refuses l.unary

theorem identifier_refuses : Refuses identifier := by
  refine here_refuses fun start => peek_refuses fun t ht => ?_
  rw [ht.name?_eq_none]
  exact unexpected_refuses

theorem wordOperand_refuses {sub : Level} : Refuses (wordOperand sub "else") := by
  refine here_refuses fun start => ?_
  rw [if_neg (by decide), if_neg (by decide)]
  exact Refuses.look (f := fun i => (i.ahead 1).isWord "function" && !(i.ahead 1).newlineBefore)
    (fun _ _ => rfl) fun _ _ => unexpected_refuses

theorem primary_refuses {sub : Level} : Refuses (primary sub) := by
  refine peek_refuses fun t ht => ?_
  rcases ht with ht | ht
  · rw [ht]
    exact unexpected_refuses
  · rw [ht]
    exact wordOperand_refuses

section
variable {lower : Nat → Level} (hlower : ∀ budget, (lower budget).Refuses)
include hlower

omit hlower in
theorem callMember_refuses {budget : Nat} : Refuses (callMember lower budget) := by
  refine here_refuses fun start =>
    .look (f := fun i => i.current.isWord "new") (fun _ _ => rfl) fun i hi => ?_
  rw [hi.isWord_eq_false (by decide)]
  exact primary_refuses.bind

omit hlower in
theorem unaryAt_refuses {budget : Nat} : Refuses (unaryAt lower budget) := by
  refine here_refuses fun start => peek_refuses fun t ht => ?_
  have hunary : unaryOp? t = none := by
    rw [unaryOp?]
    rcases ht with ht | ht
    · rw [ht]
    · rw [ht]
      rfl
  have hupdate : updateOp? t = none := by
    rw [updateOp?]
    rcases ht with ht | ht
    · rw [ht]
    · rw [ht]
  rw [hunary, hupdate]
  exact here_refuses fun _ => callMember_refuses.bind

theorem binaryAt_refuses {budget : Nat} (noIn : Bool) (least : Nat) :
    Refuses (binaryAt lower budget noIn least) :=
  here_refuses fun _ => (hlower budget).unary.bind

end

section
variable {sub : Level} (hsub : sub.Refuses)
include hsub

theorem plainAssignment_refuses (noIn : Bool) : Refuses (plainAssignment sub noIn) :=
  here_refuses fun _ => Refuses.bind (here_refuses fun _ => (hsub.binary noIn 0).bind)

omit hsub in
theorem arrow_refuses (noIn : Bool) (start : Position) : Refuses (arrow sub noIn start) :=
  peek_refuses fun _ _ => .ite identifier_refuses.bind (Refuses.bind (Refuses.bind expect_refuses))

theorem assignmentAt_refuses (noIn : Bool) : Refuses (assignmentAt sub noIn) := by
  refine .look (f := id) (fun _ _ => rfl) fun i hi => here_refuses fun start => ?_
  have hasync : asyncArrowAhead i = false := by
    rw [asyncArrowAhead, hi.isWord_eq_false (by decide)]
    rfl
  rw [if_neg (by simp [hasync])]
  exact .ite (arrow_refuses noIn start) (plainAssignment_refuses hsub noIn)

theorem sequence_refuses (noIn : Bool) : Refuses (sequence sub noIn) :=
  here_refuses fun _ => (hsub.assignment noIn).bind

/-! ## Statements -/

theorem forInit_refuses : Refuses (forInit sub) :=
  declarationKind?_refuses (sequence_refuses hsub true).bind

theorem wordStatement_refuses : Refuses (wordStatement sub "else") := by
  refine declarationKind?_refuses ?_
  have hreserved : isReserved "else" = true := by decide
  refine .look (f := fun i => i.ahead 1) (fun _ _ => rfl) fun _ _ => ?_
  rw [hreserved, Bool.not_true, Bool.and_false]
  exact (sequence_refuses hsub false).bind

theorem statementAt_refuses : Refuses (statementAt sub) := by
  refine here_refuses fun start => peek_refuses fun t ht => ?_
  rcases ht with ht | ht
  · rw [ht]
    exact Refuses.bind (sequence_refuses hsub false).bind
  · rw [ht]
    exact (wordStatement_refuses hsub).bind

end

theorem caseTest_refuses {sub : Level} : Refuses (caseTest sub) :=
  eatWord_refuses (by decide) (eatWord_refuses (by decide) unexpected_refuses)

theorem forLoopRest_refuses {sub : Level} (init : Option ForInit) :
    Refuses (forLoopRest sub init) :=
  expect_refuses.bind

/-- **Nothing begins at the end of a text or with the word `else`.** -/
theorem level_refuses (descents budget : Nat) : (level descents budget).Refuses := by
  have hexhausted : Level.exhausted.Refuses :=
    ⟨fail_refuses, fun _ => fail_refuses, fun _ _ => fail_refuses, fail_refuses⟩
  induction descents generalizing budget with
  | zero => exact hexhausted
  | succ descents ih =>
    rw [level]
    split
    · exact hexhausted
    · exact ⟨statementAt_refuses (ih _), assignmentAt_refuses (ih _), binaryAt_refuses ih,
        unaryAt_refuses⟩

end WidgetLint.Script.Parser
