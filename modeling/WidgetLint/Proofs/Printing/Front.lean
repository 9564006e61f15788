import WidgetLint.Proofs.Printing.Fit
import WidgetLint.Proofs.Printing.Leads

/-!
# How printed expressions begin

An expression whose first part is an operand is printed as that operand and something behind it.
Going from operand to operand along the left edge of a tree, one finds its first token. The first
tokens tell a reader which kind of expression comes next; here it is shown that they never announce
an arrow function or a declaration where none is printed.
-/

namespace WidgetLint.Script

open WidgetLint.Script.Parser

variable {e l : Expr} {least : Strength} {indent d : Nat} {lead : Spacing}

/-! ## The left edge -/

/-- The operand with which an expression begins, and the least strength with which it stands there
without parentheses. -/
def Expr.front : Expr → Option (Expr × Strength)
  | .update _ _ .behind operand => some (operand, .call)
  | .binary _ op left _ => some (left, op.operandStrengths.1)
  | .assign _ _ target _ => some (target, .call)
  | .conditional _ test _ _ => some (test, Strength.conditional + 1)
  | .dot _ base _ _ _ => some (base, if base.isNumber then Strength.primary + 1 else .call)
  | .index _ base _ _ => some (base, .call)
  | .call _ callee _ _ => some (callee, .call)
  | .sequence _ (e :: _) => some (e, .assignment)
  | _ => none

/-- The tokens behind the operand with which an expression begins. -/
def Expr.back (indent : Nat) : Expr → List Printed
  | .update _ op .behind _ => [.symbol .joined op.symbol]
  | .binary _ op _ right =>
    ⟨.spaced, op.body⟩ :: right.fenced op.operandStrengths.2 (right.printed indent) .spaced
  | .assign _ op _ value =>
    .symbol .spaced op.symbol :: value.fenced .assignment (value.printed indent) .spaced
  | .conditional _ _ whenTrue whenFalse =>
    .symbol .spaced .question ::
      (whenTrue.fenced .assignment (whenTrue.printed indent) .spaced ++
        .symbol .spaced .colon ::
          whenFalse.fenced .assignment (whenFalse.printed indent) .spaced)
  | .dot _ _ optional name _ =>
    [.symbol .joined (if optional then .questionDot else .dot), .name .joined name]
  | .index _ _ optional key =>
    (if optional then [.symbol .joined .questionDot] else []) ++
      .symbol .joined .lbracket :: (key.printed indent .joined ++ [.symbol .joined .rbracket])
  | .call _ _ optional arguments =>
    (if optional then [.symbol .joined .questionDot] else []) ++
      .symbol .joined .lparen :: (printedAll indent arguments .joined ++ [.symbol .joined .rparen])
  | .sequence _ (_ :: next :: rest) =>
    .symbol .joined .comma :: printedAll indent (next :: rest) .spaced
  | _ => []

theorem Expr.lt_primary_of_isNumber (h : e.isNumber) : e.strength < Strength.primary + 1 := by
  cases e with
  | number => exact Nat.lt_succ_self _
  | _ => cases h

theorem Expr.printed_front (h : e.front = some (l, least)) :
    e.printed indent lead = l.fenced least (l.printed indent) lead ++ e.back indent := by
  unfold Expr.front at h
  split at h <;> cases h
  case h_5 base optional name nameSpan =>
    by_cases hnumber : l.isNumber
    · have hstrength := Expr.lt_primary_of_isNumber hnumber
      simp [Expr.printed, Expr.back, Expr.fenced, hnumber, hstrength]
    · simp [Expr.printed, Expr.back, hnumber]
  case h_8 s rest =>
    cases rest with
    | nil => simp [Expr.printed, Expr.back, printedAll]
    | cons next rest => simp [Expr.printed, Expr.back, printedAll]
  all_goals rw [Expr.printed, Expr.back]

theorem Expr.first_front (h : e.front = some (l, least)) :
    e.first = if l.strength < least then .symbol .lparen else l.first := by
  unfold Expr.front at h
  split at h <;> cases h
  case h_5 base optional name nameSpan =>
    by_cases hnumber : l.isNumber
    · have hstrength := Expr.lt_primary_of_isNumber hnumber
      simp [Expr.first, hnumber, hstrength]
    · simp [Expr.first, hnumber]
  all_goals rfl

theorem Expr.sizeOf_front (h : e.front = some (l, least)) : sizeOf l < sizeOf e := by
  unfold Expr.front at h
  split at h <;> cases h <;> simp <;> omega

theorem Expr.front_induction {motive : Expr → Prop}
    (step : ∀ e, (∀ l least, e.front = some (l, least) → motive l) → motive e) (e : Expr) :
    motive e := by
  induction hsize : sizeOf e using Nat.strongRecOn generalizing e with
  | _ n ih =>
    refine step e fun l least hfront => ih (sizeOf l) ?_ l rfl
    have hless := Expr.sizeOf_front hfront
    omega

theorem Everywhere.front {P : Node → Prop} (h : Everywhere P (e.visit d (e.inside (d + 1))))
    (hfront : e.front = some (l, least)) :
    Everywhere P (l.visit (d + 1) (l.inside (d + 1 + 1))) := by
  have hinside := (everywhere_expr.1 h).2
  unfold Expr.front at hfront
  split at hfront <;> cases hfront <;> rw [Expr.inside] at hinside
  case h_1 => exact hinside
  case h_4 => exact (everywhere_append.1 (everywhere_append.1 hinside).1).1
  case h_5 => exact hinside
  case h_8 =>
    rw [visitAll] at hinside
    exact (everywhere_append.1 hinside).1
  all_goals exact (everywhere_append.1 hinside).1

theorem AllFit.front (h : e.FitAt d) (hfront : e.front = some (l, least)) :
    l.FitAt (d + 1) :=
  Everywhere.front h hfront

/-- The operand that begins an expression can stand by itself, or is the word `new`. -/
theorem Expr.Shaped.front (h : e.Shaped) (hfront : e.front = some (l, least)) :
    l.isOrdinary ∨ ∃ s, l = .ident s "new" := by
  unfold Expr.front at hfront
  split at hfront <;> cases hfront <;> simp only [Expr.Shaped] at h
  case h_1 => exact .inl h
  case h_2 => exact .inl h.1
  case h_3 => exact .inl h.2.1
  case h_4 => exact .inl h.1
  case h_5 =>
    rcases h with h | h
    · exact .inl h
    · exact .inr h.1
  case h_6 => exact .inl h.1
  case h_7 => exact .inl h.1
  case h_8 => exact .inl (h.2 _ (by simp))

/-! ## First tokens -/

theorem Expr.printed_eq_cons (e : Expr) (indent : Nat) (lead : Spacing) :
    ∃ tail, e.printed indent lead = ⟨lead, e.first⟩ :: tail := by
  induction e using Expr.front_induction with
  | step e ih =>
    cases hfront : e.front with
    | some front =>
      obtain ⟨l, least⟩ := front
      obtain ⟨tail, htail⟩ := ih l least hfront
      rw [Expr.printed_front hfront, Expr.first_front hfront, Expr.fenced]
      split
      · exact ⟨_, rfl⟩
      · exact ⟨_, by rw [htail]; rfl⟩
    | none =>
      cases e with
      | update s op side operand =>
        cases side with
        | before => exact ⟨_, by rw [Expr.printed]; rfl⟩
        | behind => cases hfront
      | sequence s items =>
        cases items with
        | nil => exact ⟨_, by rw [Expr.printed]; rfl⟩
        | cons e rest => cases hfront
      | binary | assign | conditional | dot | index | call => cases hfront
      | _ => exact ⟨_, by rw [Expr.printed]; rfl⟩

/-- Whether a token may begin an operand. -/
def TokenBody.opens : TokenBody → Bool
  | .word name =>
    !isReserved name || ["this", "function", "new", "typeof", "void", "delete"].contains name
  | .symbol s =>
    [.lparen, .lbracket, .lbrace, .not, .minus, .plus, .tilde, .plusPlus, .minusMinus].contains s
  | .eof => false
  | _ => true

theorem opens_wordBody {name : String} (h : isReserved name = false ∨ name = "new") :
    (wordBody name name.toList).opens := by
  unfold wordBody
  split
  · rfl
  · split
    · rfl
    · split
      · rfl
      · rcases h with h | rfl
        · simp [TokenBody.opens, h]
        · simp [TokenBody.opens]

theorem opens_unary (op : UnaryOp) : op.body.opens := by
  cases op <;> decide

theorem Expr.first_opens (e : Expr) {d : Nat} (hfit : e.FitAt d)
    (hspread : ∀ s a, e ≠ .spread s a) : e.first.opens := by
  induction e using Expr.front_induction generalizing d with
  | step e ih =>
    have hshaped := (allFit_expr.1 hfit).1.1
    cases hfront : e.front with
    | some front =>
      obtain ⟨l, least⟩ := front
      rw [Expr.first_front hfront]
      split
      · rfl
      · refine ih l least hfront (hfit.front hfront) ?_
        rintro s a rfl
        rcases hshaped.front hfront with h | ⟨s, h⟩ <;> cases h
    | none =>
      cases e with
      | ident s name => exact opens_wordBody hshaped
      | unary s op operand => exact opens_unary op
      | update s op side operand =>
        cases side with
        | before => cases op <;> rfl
        | behind => cases hfront
      | sequence s items =>
        cases items with
        | nil => exact absurd hshaped.1 (by simp)
        | cons e rest => cases hfront
      | spread s a => exact absurd rfl (hspread s a)
      | binary | assign | conditional | dot | index | call => cases hfront
      | this | function | new => simp [Expr.first, TokenBody.opens]
      | _ => rfl

theorem Expr.isOrdinary.ne_spread (h : e.isOrdinary) (s : Text.Span) (a : Expr) :
    e ≠ .spread s a := by
  rintro rfl
  cases h

/-! ## Arrows -/

/-- The next token is no arrow. -/
def NoArrow (ts : List Printed) : Prop :=
  (ahead ts).isSymbol .arrow = false

/-- Neither an arrow nor an arrow function comes next. -/
def NoFunction (ts : List Printed) : Prop :=
  NoArrow ts ∧ arrowAhead (asTokens ts) = false

/-- Before what is neither an arrow nor an arrow function, the tokens are read as no arrow
function. -/
def Calm (ts : List Printed) : Prop :=
  ∀ rest, NoFunction rest →
    arrowAhead (asTokens (ts ++ rest)) = false ∧ asyncArrowAhead (reading (ts ++ rest)) = false

theorem arrowAhead_tail {us : List Printed} (h : NoArrow us) :
    (match some (asTokens us) with
      | some (t :: _) => t.isSymbol .arrow && !t.newlineBefore
      | _ => false) = false := by
  cases us with
  | nil => rfl
  | cons t us =>
    have hnot : t.token.isSymbol .arrow = false := h
    simp [hnot]

theorem arrowAhead_cons {t : Printed} {us : List Printed} (ht : t.body ≠ .symbol .lparen)
    (h : NoArrow us) : arrowAhead (asTokens (t :: us)) = false := by
  have hparen : t.token.isSymbol .lparen = false := by simp [ht]
  rw [asTokens_cons]
  unfold arrowAhead
  by_cases hword : t.token.isAnyWord
  · simp only [hword, if_true]
    exact arrowAhead_tail h
  · simp [hword, hparen]

theorem arrowAhead_fence {ts us : List Printed} (hbalanced : Balanced ts) {l l' : Spacing}
    (h : NoArrow us) :
    arrowAhead (asTokens (.symbol l .lparen :: (ts ++ .symbol l' .rparen :: us))) = false := by
  have hclose : afterClose 0
      (asTokens (.symbol l .lparen :: (ts ++ .symbol l' .rparen :: us))) = some (asTokens us) := by
    have hopen : afterClose 0 (asTokens (.symbol l .lparen :: (ts ++ .symbol l' .rparen :: us))) =
        afterClose 1 (asTokens ts ++ asTokens (.symbol l' .rparen :: us)) := by
      rw [asTokens_cons, asTokens_append, afterClose]
      rfl
    rw [hopen, hbalanced]
    rfl
  unfold arrowAhead
  rw [hclose]
  exact arrowAhead_tail h

theorem asyncArrowAhead_cons {t : Printed} {us : List Printed}
    (h : t.body = .word "async" → arrowAhead (asTokens us) = false) :
    asyncArrowAhead (reading (t :: us)) = false := by
  have hcurrent : (reading (t :: us)).current = t.token := rfl
  have hdrop : (reading (t :: us)).rest.drop 1 = asTokens us := rfl
  unfold asyncArrowAhead
  rw [hcurrent, hdrop]
  by_cases hasync : t.body = .word "async"
  · simp [h hasync]
  · simp [hasync]

/-- A token that opens no parentheses and is not the word `async`. -/
theorem calm_cons {t : Printed} {ts : List Printed} (ht : t.body ≠ .symbol .lparen)
    (hasync : t.body ≠ .word "async") (h : ∀ rest, NoArrow rest → NoArrow (ts ++ rest)) :
    Calm (t :: ts) := fun rest hrest =>
  ⟨arrowAhead_cons ht (h rest hrest.1), asyncArrowAhead_cons fun h => absurd h hasync⟩

theorem calm_singleton {t : Printed} (ht : t.body ≠ .symbol .lparen) : Calm [t] := fun _ hrest =>
  ⟨arrowAhead_cons ht hrest.1, asyncArrowAhead_cons fun _ => hrest.2⟩

theorem calm_fence {tokens : Spacing → List Printed} (h : Balanced (tokens .joined))
    (lead : Spacing) : Calm (fence tokens lead) := by
  intro rest hrest
  have hsplit : fence tokens lead ++ rest =
      .symbol lead .lparen :: (tokens .joined ++ .symbol .joined .rparen :: rest) := by
    simp [fence]
  rw [hsplit]
  exact ⟨arrowAhead_fence h hrest.1, asyncArrowAhead_cons fun h => by cases h⟩

theorem Calm.append {ts us : List Printed} (h : Calm ts)
    (hu : ∀ rest, NoFunction rest → NoFunction (us ++ rest)) : Calm (ts ++ us) := by
  intro rest hrest
  rw [List.append_assoc]
  exact h _ (hu rest hrest)

theorem noArrow_cons {t : Printed} {us : List Printed} (h : t.body ≠ .symbol .arrow) :
    NoArrow (t :: us) := by
  simp [NoArrow, h]

theorem wordBody_ne_symbol (lexeme : String) (name : List Char) (s : Symbol) :
    wordBody lexeme name ≠ .symbol s := by
  unfold wordBody
  split
  · simp
  · split
    · simp
    · split <;> simp

theorem Expr.first_ne_arrow (e : Expr) : e.first ≠ .symbol .arrow := by
  induction e using Expr.front_induction with
  | step e ih =>
    cases hfront : e.front with
    | some front =>
      obtain ⟨l, least⟩ := front
      rw [Expr.first_front hfront]
      split
      · simp
      · exact ih l least hfront
    | none =>
      cases e with
      | ident s name => exact wordBody_ne_symbol _ _ _
      | unary s op operand => cases op <;> simp [Expr.first, UnaryOp.body]
      | update s op side operand =>
        cases side with
        | before => cases op <;> simp [Expr.first, UpdateOp.symbol]
        | behind => cases hfront
      | sequence s items =>
        cases items with
        | nil => simp [Expr.first]
        | cons e rest => cases hfront
      | binary | assign | conditional | dot | index | call => cases hfront
      | _ => simp [Expr.first]

theorem noArrow_printed (e : Expr) (us : List Printed) : NoArrow (e.printed indent lead ++ us) := by
  obtain ⟨tail, htail⟩ := e.printed_eq_cons indent lead
  rw [htail]
  exact noArrow_cons e.first_ne_arrow

theorem noArrow_fenced (e : Expr) (least : Strength) (us : List Printed) :
    NoArrow (e.fenced least (e.printed indent) lead ++ us) := by
  rw [Expr.fenced]
  split
  · exact noArrow_cons (by simp)
  · exact noArrow_printed e us

/-- What stands behind the first operand of an expression goes on with it. -/
def TokenBody.goesOn : TokenBody → Bool
  | .symbol s =>
    (BinaryOp.ofSymbol? s).isSome || (AssignOp.ofSymbol? s).isSome ||
      (UpdateOp.ofSymbol? s).isSome ||
        [.question, .dot, .questionDot, .lbracket, .lparen, .comma].contains s
  | .word name => name == "in" || name == "instanceof"
  | _ => false

theorem printedAll_eq_append (e : Expr) (rest : List Expr) (indent : Nat) (lead : Spacing) :
    ∃ tail, printedAll indent (e :: rest) lead =
      e.fenced .assignment (e.printed indent) lead ++ tail := by
  cases rest with
  | nil => exact ⟨[], by simp [printedAll]⟩
  | cons next rest => exact ⟨_, by rw [printedAll]; simp⟩

/-- What stands behind the first operand starts with a token that goes on with it, and announces no
arrow function. -/
theorem Expr.back_eq_cons (hshaped : e.Shaped) (hfront : e.front = some (l, least))
    (indent : Nat) :
    ∃ t more, e.back indent = t :: more ∧ t.body.goesOn ∧
      ∀ rest, NoArrow rest → arrowAhead (asTokens (t :: (more ++ rest))) = false := by
  cases e with
  | update s op side operand =>
    cases side with
    | before => cases hfront
    | behind =>
      refine ⟨_, _, rfl, by cases op <;> rfl, fun rest hrest => arrowAhead_cons ?_ hrest⟩
      cases op <;> decide
  | binary s op left right =>
    refine ⟨_, _, rfl, by cases op <;> rfl, fun rest _ => arrowAhead_cons ?_ ?_⟩
    · cases op <;> decide
    · exact noArrow_fenced right _ rest
  | assign s op target value =>
    refine ⟨_, _, rfl, by cases op <;> rfl, fun rest _ => arrowAhead_cons ?_ ?_⟩
    · cases op <;> decide
    · exact noArrow_fenced value _ rest
  | conditional s test whenTrue whenFalse =>
    refine ⟨_, _, rfl, rfl, fun rest _ => arrowAhead_cons (by decide) ?_⟩
    rw [List.append_assoc]
    exact noArrow_fenced whenTrue _ _
  | dot s base optional name nameSpan =>
    refine ⟨_, _, rfl, by cases optional <;> rfl, fun rest _ => arrowAhead_cons ?_ ?_⟩
    · cases optional <;> decide
    · exact noArrow_cons (wordBody_ne_symbol _ _ _)
  | index s base optional key =>
    cases optional with
    | false =>
      refine ⟨_, _, rfl, rfl, fun rest _ => arrowAhead_cons (by decide) ?_⟩
      rw [List.append_assoc]
      exact noArrow_printed key _
    | true =>
      exact ⟨_, _, rfl, rfl, fun rest _ => arrowAhead_cons (by decide) (noArrow_cons (by decide))⟩
  | call s callee optional arguments =>
    cases optional with
    | false =>
      refine ⟨_, _, rfl, rfl, fun rest hrest => ?_⟩
      rw [List.append_assoc]
      exact arrowAhead_fence (printedAll_balanced _ _ _) hrest
    | true =>
      exact ⟨_, _, rfl, rfl, fun rest _ => arrowAhead_cons (by decide) (noArrow_cons (by decide))⟩
  | sequence s items =>
    match items, hshaped with
    | e :: next :: others, _ =>
      refine ⟨_, _, rfl, rfl, fun rest _ => arrowAhead_cons (by decide) ?_⟩
      obtain ⟨tail, htail⟩ := printedAll_eq_append next others indent .spaced
      rw [htail, List.append_assoc]
      exact noArrow_fenced next _ _
  | _ => cases hfront

theorem noFunction_back (hshaped : e.Shaped) (hfront : e.front = some (l, least)) {rest}
    (hrest : NoArrow rest) : NoFunction (e.back indent ++ rest) := by
  obtain ⟨t, more, hback, hgoes, harrow⟩ := Expr.back_eq_cons hshaped hfront indent
  rw [hback]
  refine ⟨noArrow_cons ?_, harrow rest hrest⟩
  intro h
  rw [h] at hgoes
  cases hgoes

/-- Whether an expression is printed as an arrow function. -/
def Expr.isArrow : Expr → Bool
  | .arrow .. => true
  | _ => false

theorem Expr.isArrow_of_lt (h : Strength.assignment < e.strength) : e.isArrow = false := by
  cases e with
  | arrow => exact absurd h (by simp [Expr.strength])
  | _ => rfl

theorem BinaryOp.lt_operandStrengths (op : BinaryOp) :
    Strength.conditional < op.operandStrengths.1 ∧ Strength.conditional < op.operandStrengths.2 := by
  cases op <;> decide

/-- The operand that begins an expression other than a comma expression binds tighter than an
assignment, unless it stands in parentheses. -/
theorem Expr.lt_of_front (hfront : e.front = some (l, least))
    (hstrength : Strength.sequence < e.strength) : Strength.assignment < least := by
  unfold Expr.front at hfront
  split at hfront <;> cases hfront
  case h_2 op right => exact Nat.lt_trans (by decide) op.lt_operandStrengths.1
  case h_5 base optional name nameSpan =>
    split <;> decide
  case h_8 => exact absurd hstrength (by simp [Expr.strength])
  all_goals decide

theorem Expr.calm (e : Expr) {d : Nat} (hfit : e.FitAt d)
    (hstrength : Strength.sequence < e.strength) (harrow : e.isArrow = false) :
    Calm (e.printed indent lead) := by
  induction e using Expr.front_induction generalizing d with
  | step e ih =>
    have hshaped := (allFit_expr.1 hfit).1.1
    cases hfront : e.front with
    | some front =>
      obtain ⟨l, least⟩ := front
      rw [Expr.printed_front hfront]
      refine Calm.append ?_ fun rest hrest => noFunction_back hshaped hfront hrest.1
      rw [Expr.fenced]
      split
      next => exact calm_fence (l.balanced _ _) _
      next hle =>
        have hless := Expr.lt_of_front hfront hstrength
        have htight := Nat.lt_of_lt_of_le hless (Nat.le_of_not_lt hle)
        exact ih l least hfront (hfit.front hfront) (Nat.lt_trans (by decide) htight)
          (Expr.isArrow_of_lt htight)
    | none =>
      cases e with
      | ident s name =>
        rw [Expr.printed]
        exact calm_singleton (wordBody_ne_symbol _ _ _)
      | function s name params body =>
        rw [Expr.printed]
        refine calm_cons (by simp) (by simp) fun rest _ => ?_
        cases name with
        | none => exact noArrow_cons (by simp)
        | some name => exact noArrow_cons (wordBody_ne_symbol _ _ _)
      | unary s op operand =>
        rw [Expr.printed]
        refine calm_cons ?_ ?_ fun rest _ => noArrow_fenced operand _ _
        · cases op <;> simp [UnaryOp.body]
        · cases op <;> simp [UnaryOp.body]
      | update s op side operand =>
        cases side with
        | before =>
          rw [Expr.printed]
          refine calm_cons ?_ (by simp) fun rest _ => noArrow_fenced operand _ _
          cases op <;> simp [UpdateOp.symbol]
        | behind => cases hfront
      | new s callee arguments =>
        rw [Expr.printed]
        refine calm_cons (by simp) (by simp) fun rest _ => ?_
        rw [List.append_assoc]
        exact noArrow_fenced callee _ _
      | array s items =>
        rw [Expr.printed]
        intro rest _
        exact ⟨by simp [arrowAhead, Token.isAnyWord, Token.word?],
          asyncArrowAhead_cons fun h => by cases h⟩
      | object s members =>
        rw [Expr.printed]
        intro rest _
        exact ⟨by simp [arrowAhead, Token.isAnyWord, Token.word?],
          asyncArrowAhead_cons fun h => by cases h⟩
      | spread s argument =>
        rw [Expr.printed]
        exact calm_cons (by simp) (by simp) fun rest _ => noArrow_fenced argument _ _
      | arrow => cases harrow
      | sequence => exact absurd hstrength (by simp [Expr.strength])
      | binary | assign | conditional | dot | index | call => cases hfront
      | _ =>
        rw [Expr.printed]
        exact calm_singleton (by simp)

/-! ## Second tokens -/

theorem isReserved_of_unary (op : UnaryOp) (name : String) (h : op.body = .word name) :
    isReserved name := by
  cases op <;> cases h <;> decide

theorem looksDeclared_front (hfront : e.front = some (l, least)) (hle : ¬l.strength < least)
    (h : e.looksDeclared = false) (hshaped : e.Shaped) (indent : Nat) :
    l.looksDeclared = false ∧ (l.isLet →
      ∀ t ∈ (e.back indent).head?, t.token.isAnyWord = false ∧ t.body ≠ .symbol .lbracket) := by
  unfold Expr.front at hfront
  split at hfront <;> cases hfront
  case h_1 s op =>
    simp only [Expr.looksDeclared, hle] at h
    refine ⟨by simpa using h, fun _ t ht => ?_⟩
    cases ht
    cases op <;> simp [Token.isAnyWord, Token.word?, UpdateOp.symbol]
  case h_2 s op right =>
    simp only [Expr.looksDeclared, hle] at h
    simp only [decide_false, Bool.not_false, Bool.true_and, Bool.or_eq_false_iff,
      Bool.and_eq_false_iff] at h
    refine ⟨h.2, fun hlet t ht => ?_⟩
    cases ht
    have hword : op.isWord = false := by
      rcases h.1 with h | h
      · rw [hlet] at h
        cases h
      · exact h
    revert hword
    cases op <;> simp [BinaryOp.isWord, Token.isAnyWord, Token.word?, BinaryOp.body]
  case h_3 s op value =>
    simp only [Expr.looksDeclared, hle] at h
    refine ⟨by simpa using h, fun _ t ht => ?_⟩
    cases ht
    cases op <;> simp [Token.isAnyWord, Token.word?, AssignOp.symbol]
  case h_4 s whenTrue whenFalse =>
    simp only [Expr.looksDeclared, hle] at h
    refine ⟨by simpa using h, fun _ t ht => ?_⟩
    cases ht
    simp [Token.isAnyWord, Token.word?]
  case h_5 s optional name nameSpan =>
    have hcall : ¬l.strength < .call := by
      intro hless
      refine hle (Nat.lt_of_lt_of_le hless ?_)
      split <;> decide
    simp only [Expr.looksDeclared, hcall] at h
    refine ⟨by simpa using h, fun _ t ht => ?_⟩
    cases ht
    cases optional <;> simp [Token.isAnyWord, Token.word?]
  case h_6 s optional key =>
    simp only [Expr.looksDeclared, hle] at h
    simp only [decide_false, Bool.not_false, Bool.true_and, Bool.or_eq_false_iff,
      Bool.and_eq_false_iff] at h
    refine ⟨h.2, fun hlet t ht => ?_⟩
    have hoptional : optional = true := by
      rcases h.1 with h | h
      · rw [hlet] at h
        cases h
      · simpa using h
    subst hoptional
    cases ht
    simp [Token.isAnyWord, Token.word?]
  case h_7 s optional arguments =>
    simp only [Expr.looksDeclared, hle] at h
    refine ⟨by simpa using h, fun _ t ht => ?_⟩
    cases optional <;> cases ht <;> simp [Token.isAnyWord, Token.word?]
  case h_8 s others =>
    simp only [Expr.looksDeclared, hle] at h
    refine ⟨by simpa using h, fun _ t ht => ?_⟩
    match others, hshaped with
    | next :: rest, _ =>
      cases ht
      simp [Token.isAnyWord, Token.word?]

/-- After a name that begins an expression comes what follows the expression, if it is no more than
the name, or a token that goes on with the name; after `let` in an expression that does not look
like a declaration, this is neither a word nor a bracket. -/
theorem Expr.second (e : Expr) {d : Nat} (hfit : e.FitAt d)
    {name : String} (hfirst : e.first = .word name) (hname : isReserved name = false)
    (indent : Nat) (lead : Spacing) (rest : List Printed) :
    ∃ us, e.printed indent lead ++ rest = ⟨lead, .word name⟩ :: us ∧
      ((us = rest ∧ ∃ s, e = .ident s name) ∨
        ∃ t more, us = t :: more ∧ t.body.goesOn ∧ (name = "let" → e.looksDeclared = false →
          t.token.isAnyWord = false ∧ t.body ≠ .symbol .lbracket)) := by
  induction e using Expr.front_induction generalizing d rest with
  | step e ih =>
    have hshaped := (allFit_expr.1 hfit).1.1
    cases hfront : e.front with
    | some front =>
      obtain ⟨l, least⟩ := front
      rw [Expr.first_front hfront] at hfirst
      split at hfirst
      next => cases hfirst
      next hle =>
        obtain ⟨us, hus, hcases⟩ :=
          ih l least hfront (hfit.front hfront) hfirst (e.back indent ++ rest)
        have hprinted : e.printed indent lead ++ rest = ⟨lead, .word name⟩ :: us := by
          rw [Expr.printed_front hfront, Expr.fenced, if_neg hle, List.append_assoc]
          exact hus
        refine ⟨us, hprinted, .inr ?_⟩
        rcases hcases with ⟨hrest, s, hident⟩ | ⟨t, more, hmore, hgoes, hlet⟩
        · obtain ⟨t, more, hback, hgoes, -⟩ := Expr.back_eq_cons hshaped hfront indent
          refine ⟨t, more ++ rest, by rw [hrest, hback]; rfl, hgoes, ?_⟩
          rintro rfl hlooks
          refine (looksDeclared_front hfront hle hlooks hshaped indent).2 ?_ t ?_
          · rw [hident]
            rfl
          · rw [hback]
            rfl
        · exact ⟨t, more, hmore, hgoes, fun hl hlooks =>
            hlet hl (looksDeclared_front hfront hle hlooks hshaped indent).1⟩
    | none =>
      cases e with
      | ident s n =>
        have hn : n = name := by
          rw [Expr.first, wordBody] at hfirst
          split at hfirst
          · cases hfirst
          · split at hfirst
            · cases hfirst
            · split at hfirst
              · cases hfirst
              · simpa using hfirst
        subst hn
        refine ⟨rest, ?_, .inl ⟨rfl, s, rfl⟩⟩
        rw [Expr.printed, Printed.name]
        exact congrArg (fun b => Printed.mk lead b :: rest) hfirst
      | unary s op operand => exact absurd (isReserved_of_unary op name hfirst) (by simp [hname])
      | update s op side operand =>
        cases side with
        | before => cases hfirst
        | behind => cases hfront
      | sequence s items =>
        cases items with
        | nil => cases hfirst
        | cons e rest => cases hfront
      | this | function | new =>
        cases hfirst
        exact absurd hname (by decide)
      | binary | assign | conditional | dot | index | call => cases hfront
      | _ => cases hfirst

end WidgetLint.Script
