import WidgetLint.Proofs.Printing.Reads

/-!
# Reading operators back

An expression made of operands and operators is read back if its operands are. The strengths by
which the printer decides on parentheses are the levels of the grammar, so each operand is read at
the level at which its operator asks for it.
-/

namespace WidgetLint.Script

open Text WidgetLint.Script.Parser

variable {e l e' l' : Expr} {least : Strength} {indent d : Nat} {lead : Spacing} {ts us : List Printed}

/-! ## Profiles -/

/-- The strength of the binary operators that would go on with the last operand of an expression. -/
def Expr.bound : Expr → Strength
  | .binary _ op _ _ => op.operandStrengths.2
  | _ => .postfixed

def Expr.profile (e : Expr) : Profile :=
  ⟨e.strength, e.hidesIn, e.bound, fun links => e.chains links⟩

/-- The profile of an expression where it is put in parentheses if it binds looser than `least`. -/
def Expr.profileAt (least : Strength) (e : Expr) : Profile :=
  if e.strength < least then .closed else e.profile

theorem Expr.le_profileAt (hle : least ≤ .primary) : least ≤ (e.profileAt least).strength := by
  rw [Expr.profileAt]
  split
  next => exact hle
  next hnot => exact Nat.le_of_not_lt hnot

theorem BinaryOp.strength_le (op : BinaryOp) : op.strength ≤ op.operandStrengths.2 := by
  cases op <;> decide

theorem Expr.le_bound (hle : least ≤ .postfixed) : least ≤ (e.profileAt least).bound := by
  rw [Expr.profileAt]
  split
  next => exact hle
  next hnot =>
    have hstrength := Nat.le_of_not_lt hnot
    cases e with
    | binary s op left right => exact Nat.le_trans hstrength op.strength_le
    | _ => exact hle

theorem Expr.profileAt_hidesIn (h : e.strength < least ∨ e.hidesIn) :
    (e.profileAt least).hidesIn := by
  rw [Expr.profileAt]
  split
  next => rfl
  next hnot =>
    rcases h with h | h
    · exact absurd h hnot
    · exact h

theorem Expr.profileAt_chains {links : List Symbol} (h : e.strength < least ∨ e.chains links) :
    (e.profileAt least).chains links := by
  rw [Expr.profileAt]
  split
  next => rfl
  next hnot =>
    rcases h with h | h
    · exact absurd h hnot
    · exact h

theorem Expr.chains_all (e : Expr) : e.chains allLinks := by
  induction e using Expr.front_induction with
  | step e ih =>
    cases e with
    | dot s base optional name nameSpan =>
      have hbase := ih base _ rfl
      cases optional <;> simp [Expr.chains, hbase] <;> decide
    | index s base optional key =>
      have hbase := ih base _ rfl
      cases optional <;> simp [Expr.chains, hbase] <;> decide
    | call s callee optional arguments =>
      have hcallee := ih callee _ rfl
      cases optional <;> simp [Expr.chains, hcallee] <;> decide
    | _ => rfl

theorem Reads.fenced {tokens : Spacing → List Printed} (h : ∀ lead, Reads e.profile (tokens lead) e')
    (hbalanced : Balanced (tokens .joined)) (least : Strength) (lead : Spacing) :
    Reads (e.profileAt least) (e.fenced least tokens lead) e' := by
  rw [Expr.profileAt, Expr.fenced]
  split
  · exact .fence (h .joined).sequence hbalanced lead
  · exact h lead

theorem noOperator_word {t : Token} {name : String} (ht : t.body = wordBody name name.toList)
    (hname : isReserved name = false ∨ name = "new") : NoOperator t := by
  unfold wordBody at ht
  split at ht
  next => exact ⟨by simp [unaryOp?, ht], by simp [updateOp?, ht]⟩
  next =>
    split at ht
    next => exact ⟨by simp [unaryOp?, ht], by simp [updateOp?, ht]⟩
    next =>
      split at ht
      next => exact ⟨by simp [unaryOp?, ht], by simp [updateOp?, ht]⟩
      next =>
        refine ⟨?_, by simp [updateOp?, ht]⟩
        have hword : UnaryOp.ofWord? name = none := by
          unfold UnaryOp.ofWord?
          rw [if_neg, if_neg, if_neg]
          all_goals
            rintro rfl
            rcases hname with h | h <;> exact absurd h (by decide)
        simpa [unaryOp?, ht] using hword

theorem Expr.first_noOperator (e : Expr) {d : Nat} (hfit : e.FitAt d)
    (hstrength : Strength.call ≤ e.strength) {t : Token} (ht : t.body = e.first) :
    NoOperator t := by
  induction e using Expr.front_induction generalizing d with
  | step e ih =>
    have hshaped := (allFit_expr.1 hfit).1.1
    cases hfront : e.front with
    | some front =>
      obtain ⟨l, least⟩ := front
      rw [Expr.first_front hfront] at ht
      split at ht
      next => exact ⟨by simp [unaryOp?, ht, UnaryOp.ofSymbol?],
        by simp [updateOp?, ht, UpdateOp.ofSymbol?]⟩
      next hnot =>
        have hle : Strength.call ≤ least := by
          unfold Expr.front at hfront
          split at hfront <;> cases hfront
          case h_2 op right =>
            exact absurd hstrength (by cases op <;> simp [Expr.strength] <;> decide)
          case h_5 => split <;> decide
          all_goals first | exact absurd hstrength (by simp [Expr.strength]; decide) | decide
        exact ih l least hfront (hfit.front hfront) (Nat.le_trans hle (Nat.le_of_not_lt hnot)) ht
    | none =>
      cases e with
      | ident s name => exact noOperator_word ht hshaped
      | unary => exact absurd hstrength (by simp [Expr.strength]; decide)
      | update s op side operand =>
        cases side with
        | before => exact absurd hstrength (by simp [Expr.strength]; decide)
        | behind => cases hfront
      | sequence | spread => exact absurd hstrength (by simp [Expr.strength]; decide)
      | binary | assign | conditional | dot | index | call => cases hfront
      | _ =>
        simp only [Expr.first] at ht
        exact ⟨by simp [unaryOp?, ht, UnaryOp.ofSymbol?, UnaryOp.ofWord?],
          by simp [updateOp?, ht, UpdateOp.ofSymbol?]⟩

theorem noOperator_printed (hfit : e.FitAt d)
    (hstrength : Strength.call ≤ e.strength) (rest : List Printed) :
    NoOperator (ahead (e.printed indent lead ++ rest)) := by
  obtain ⟨tail, htail⟩ := e.printed_eq_cons indent lead
  rw [htail]
  exact e.first_noOperator hfit hstrength rfl

theorem noOperator_fenced (hfit : e.FitAt d)
    (hle : Strength.call ≤ least) (indent : Nat) (lead : Spacing) (rest : List Printed) :
    NoOperator (ahead (e.fenced least (e.printed indent) lead ++ rest)) := by
  rw [Expr.fenced]
  split
  next => exact ⟨rfl, rfl⟩
  next hnot => exact noOperator_printed hfit (Nat.le_trans hle (Nat.le_of_not_lt hnot)) rest

/-! ## Operators before and behind their operand -/

/-- The printed expression is read back as itself, up to positions and quoted names. -/
def Expr.Back (indent : Nat) (e : Expr) : Prop :=
  ∀ lead, Reads e.profile (e.printed indent lead) (e.relabel .plain)

theorem Expr.Back.fenced (h : e.Back indent) (least : Strength) (lead : Spacing) :
    Reads (e.profileAt least) (e.fenced least (e.printed indent) lead) (e.relabel .plain) :=
  Reads.fenced h (e.balanced _ _) least lead

theorem unary_back {s : Span} {op : UnaryOp} {operand : Expr}
    (hfit : (Expr.unary s op operand).FitAt d)
    (h : operand.Back indent) : (Expr.unary s op operand).Back indent := by
  intro lead
  refine .ofUnary ?_ (by simp [Expr.profile, Expr.strength]; decide)
    (by simp [Expr.profile, Expr.strength]; decide) rfl
    (Expr.calm _ hfit (by simp [Expr.strength]; decide) rfl)
  intro noIn d b rest hreach
  rw [Expr.printed]
  refine unary_leads (fun d b => here_gives.bind (peek_gives.bind ?_)) d b
  have hop : unaryOp? (Printed.mk lead op.body).token = some op := by
    cases op <;> rfl
  have hoperand (lead : Spacing) :=
    (h.fenced .unary lead).unary (Expr.le_profileAt (by decide)) noIn d b rest hreach
  rw [List.cons_append, ahead_cons, hop]
  refine (advance_gives _).bind ((hoperand _).bind ((spanFrom_gives _).bind ?_))
  exact Leads.refl _ _

theorem update_back {s : Span} {op : UpdateOp} {side : UpdateSide} {operand : Expr}
    (hfit : (Expr.update s op side operand).FitAt d)
    (h : operand.Back indent) : (Expr.update s op side operand).Back indent := by
  intro lead
  have hstrength : Strength.conditional < (Expr.update s op side operand).strength ∧
      (Expr.update s op side operand).strength < .call := by
    cases side <;> exact ⟨by simp [Expr.strength]; decide, by simp [Expr.strength]; decide⟩
  refine .ofUnary ?_ hstrength.2 hstrength.1 rfl
    (Expr.calm _ hfit (Nat.lt_trans (by decide) hstrength.1) rfl)
  intro noIn d b rest hreach
  refine unary_leads (fun d b => here_gives.bind (peek_gives.bind ?_)) d b
  cases side with
  | before =>
    rw [Expr.printed]
    have hunary : unaryOp? (Printed.symbol lead op.symbol).token = none := by cases op <;> rfl
    have hop : updateOp? (Printed.symbol lead op.symbol).token = some op := by cases op <;> rfl
    have hoperand := (h.fenced .unary .joined).unary (Expr.le_profileAt (by decide)) noIn d b rest
      hreach
    rw [List.cons_append, ahead_cons, hunary, hop]
    refine (advance_gives _).bind (hoperand.bind ((spanFrom_gives _).bind ?_))
    exact Leads.refl _ _
  | behind =>
    rw [Expr.printed, List.append_assoc]
    have hfirst := noOperator_fenced (hfit.front (l := operand) rfl) (Nat.le_refl Strength.call) indent lead
      ([Printed.symbol .joined op.symbol] ++ rest)
    rw [hfirst.1, hfirst.2]
    have hop : updateOp? (Printed.symbol .joined op.symbol).token = some op := by cases op <;> rfl
    have hnext : reach noIn (ahead (Printed.symbol .joined op.symbol :: rest)) < .call := by
      cases op <;> exact Nat.lt_succ_self _
    have hoperand := (h.fenced .call lead).chain (Expr.le_profileAt (by decide))
    have hchains : (operand.profileAt .call).chains allLinks :=
      Expr.profileAt_chains (.inr operand.chains_all)
    refine here_gives.bind ((hoperand.callMember hchains hnext d b).bind (peek_gives.bind ?_))
    rw [ahead_cons, hop]
    refine (advance_gives _).bind ((spanFrom_gives _).bind ?_)
    exact Leads.refl _ _

/-! ## Binary operators -/

/-- The bound of the right operand: the operators that go on with it bind tighter. -/
def BinaryOp.rightLeast (op : BinaryOp) : Nat :=
  if op = .exp then op.precedence - 1 else op.precedence

theorem BinaryOp.operandStrengths_snd (op : BinaryOp) :
    op.operandStrengths.2 = Strength.binaryBase + op.rightLeast + 1 := by
  cases op <;> rfl

theorem binaryOp?_token {noIn : Bool} {op : BinaryOp} (h : noIn → op ≠ .within) (lead : Spacing) :
    binaryOp? noIn (Printed.mk lead op.body).token = some op := by
  cases noIn with
  | false => cases op <;> rfl
  | true => cases op <;> first | rfl | exact absurd rfl (h rfl)

theorem reach_binary {noIn : Bool} (op : BinaryOp) (lead : Spacing) :
    reach noIn (Printed.mk lead op.body).token ≤ op.strength := by
  cases noIn <;> cases op <;> first | exact Nat.le_refl _ | exact Nat.zero_le _

/-- An operator binds looser than those that would go on with the end of its left operand. -/
theorem BinaryOp.strength_lt_bound (op : BinaryOp) (left : Expr) :
    op.strength < (left.profileAt op.operandStrengths.1).bound := by
  have hpostfixed (op : BinaryOp) : op.strength < .postfixed := by cases op <;> decide
  rw [Expr.profileAt]
  split
  next => exact hpostfixed op
  next hnot =>
    have hle := Nat.le_of_not_lt hnot
    cases left with
    | binary s other first second =>
      have hle : op.operandStrengths.1 ≤ other.strength := hle
      show op.strength < other.operandStrengths.2
      by_cases hexp : other = .exp
      · subst hexp
        revert hle
        cases op <;> decide
      · have hfirst : op.strength ≤ op.operandStrengths.1 := by cases op <;> decide
        have hsecond : other.operandStrengths.2 = other.strength + 1 := by
          simp [BinaryOp.operandStrengths, hexp]
        rw [hsecond]
        exact Nat.lt_succ_of_le (Nat.le_trans hfirst hle)
    | _ => exact hpostfixed op

theorem binary_back {s : Span} {op : BinaryOp} {left right : Expr}
    (hfit : (Expr.binary s op left right).FitAt d) (hleft : left.Back indent)
    (hright : right.Back indent) : (Expr.binary s op left right).Back indent := by
  intro lead
  have hstrength : Strength.conditional < op.strength ∧ op.strength < .unary := by
    cases op <;> decide
  refine .ofBinary ?_ hstrength.2 hstrength.1 op.lt_operandStrengths.2
    (Expr.calm _ hfit (Nat.lt_trans (by decide) hstrength.1) rfl)
  intro noIn least d b rest hin hleast hreach
  have hin : noIn → op ≠ .within ∧ (left.profileAt op.operandStrengths.1).hidesIn ∧
      (right.profileAt op.operandStrengths.2).hidesIn := by
    intro h
    have hhides := hin h
    simp only [Expr.profile, Expr.hidesIn, Bool.and_eq_true, Bool.or_eq_true, bne_iff_ne,
      decide_eq_true_eq] at hhides
    exact ⟨hhides.1.1, Expr.profileAt_hidesIn hhides.1.2, Expr.profileAt_hidesIn hhides.2⟩
  have hoperands : op.operandStrengths.1 ≤ .primary ∧ op.operandStrengths.2 ≤ .postfixed ∧
      op.strength ≤ op.operandStrengths.1 := by
    cases op <;> decide
  -- The left operand is read up to the operator, and the loop goes on with it.
  rw [Expr.printed, List.append_assoc, List.cons_append]
  have hleftStrength : Strength.binaryBase + least < (left.profileAt op.operandStrengths.1).strength :=
    Nat.lt_of_lt_of_le hleast (Nat.le_trans hoperands.2.2 (Expr.le_profileAt hoperands.1))
  obtain ⟨b', fuel, hfuel, hchain⟩ := (hleft.fenced op.operandStrengths.1 lead).binary
    (Nat.lt_of_lt_of_le op.lt_operandStrengths.1 (Expr.le_profileAt hoperands.1)) noIn least d b
    (⟨.spaced, op.body⟩ :: (right.fenced op.operandStrengths.2 (right.printed indent) .spaced ++ rest))
    (fun h => (hin h).2.1) hleftStrength
    (Nat.lt_of_le_of_lt (reach_binary op .spaced) (op.strength_lt_bound left))
  have hlength : rest.length < fuel - 1 := by
    simp only [List.length_cons, List.length_append] at hfuel
    omega
  refine ⟨b' - linkCost, fuel - 1, hlength, hchain.trans ?_⟩
  obtain ⟨fuel, rfl⟩ : ∃ n, fuel = n + 1 := ⟨fuel - 1, by omega⟩
  -- The right operand is read to its end.
  have hrightStrength : Strength.binaryBase + op.rightLeast <
      (right.profileAt op.operandStrengths.2).strength := by
    refine Nat.lt_of_lt_of_le ?_ (Expr.le_profileAt (Nat.le_trans hoperands.2.1 (by decide)))
    rw [op.operandStrengths_snd]
    exact Nat.lt_succ_self _
  have hread (d b : Nat) := ((hright.fenced op.operandStrengths.2 .spaced).binary
    (Nat.lt_of_lt_of_le op.lt_operandStrengths.2
      (Expr.le_profileAt (Nat.le_trans hoperands.2.1 (by decide))))).gives noIn op.rightLeast d b
    rest (fun h => (hin h).2.2) hrightStrength
    (Nat.lt_of_lt_of_le hreach (Expr.le_bound hoperands.2.1))
    (Nat.lt_of_lt_of_eq hreach op.operandStrengths_snd)
  refine iterateUpTo_goesOn (peek_gives.bind ?_)
  have hprecedence : ¬op.precedence ≤ least := fun hle =>
    absurd hleast (Nat.not_lt.2 (Nat.add_le_add_left hle _))
  rw [ahead_cons, binaryOp?_token fun h => (hin h).1]
  simp only [if_neg hprecedence]
  refine link_leads ((advance_gives _).bind ((hread _ _).bind ((spanFrom_gives _).bind ?_)))
  exact Leads.refl _ _

/-! ## Assignments and conditionals -/

theorem isTarget_plain (op : AssignOp) (e : Expr) :
    isTarget op (e.relabel .plain) = isTarget op e := by
  cases e <;> simp [Expr.relabel, isTarget]

theorem hidesIn_of_isTarget {op : AssignOp} (h : isTarget op e) : e.hidesIn := by
  cases e <;> first | rfl | cases h

theorem assign_back {s : Span} {op : AssignOp} {target value : Expr}
    (hfit : (Expr.assign s op target value).FitAt d) (htarget : target.Back indent)
    (hvalue : value.Back indent) : (Expr.assign s op target value).Back indent := by
  intro lead
  have hshaped := (allFit_expr.1 hfit).1.1
  refine .ofAssignment ?_ (by simp [Expr.profile, Expr.strength]; decide)
  intro noIn d b rest hin hrest
  refine assignment_gives (Expr.calm _ hfit (by simp [Expr.strength]; decide) rfl) hrest
    (fun d b => ?_) d b
  have hin : noIn → (value.profileAt .assignment).hidesIn := by
    intro h
    have hhides := hin h
    simp only [Expr.profile, Expr.hidesIn, Bool.or_eq_true, decide_eq_true_eq] at hhides
    exact Expr.profileAt_hidesIn hhides
  rw [Expr.printed, List.append_assoc, List.cons_append]
  have hop : assignOp? (Printed.symbol .spaced op.symbol).token = some op := by cases op <;> rfl
  have hnext : reach noIn (Printed.symbol .spaced op.symbol).token < .conditional := by
    cases op <;> exact Nat.lt_succ_self _
  have hleft := (htarget.fenced .call lead).conditional
    (Nat.lt_of_lt_of_le (by decide) (Expr.le_profileAt (by decide))) noIn d b
    (.symbol .spaced op.symbol :: (value.fenced .assignment (value.printed indent) .spaced ++ rest))
    (fun _ => Expr.profileAt_hidesIn (.inr (hidesIn_of_isTarget hshaped.1))) hnext
  have hright := (hvalue.fenced .assignment .spaced).assignment (Expr.le_profileAt (by decide))
    noIn d b rest hin hrest
  refine here_gives.bind (hleft.bind (peek_gives.bind ?_))
  rw [ahead_cons, hop]
  simp only [isTarget_plain, hshaped.1, if_true]
  refine (advance_gives _).bind (hright.bind ((spanFrom_gives _).bind ?_))
  exact Leads.refl _ _

theorem conditional_back {s : Span} {test whenTrue whenFalse : Expr}
    (hfit : (Expr.conditional s test whenTrue whenFalse).FitAt d) (htest : test.Back indent)
    (htrue : whenTrue.Back indent) (hfalse : whenFalse.Back indent) :
    (Expr.conditional s test whenTrue whenFalse).Back indent := by
  intro lead
  refine .ofAssignment ?_ (by simp [Expr.profile, Expr.strength])
  intro noIn d b rest hin hrest
  refine assignment_gives (Expr.calm _ hfit (by simp [Expr.strength]; decide) rfl) hrest
    (fun d b => ?_) d b
  have hin : noIn → (test.profileAt (Strength.conditional + 1)).hidesIn ∧
      (whenFalse.profileAt .assignment).hidesIn := by
    intro h
    have hhides := hin h
    simp only [Expr.profile, Expr.hidesIn, Bool.and_eq_true, Bool.or_eq_true,
      decide_eq_true_eq] at hhides
    exact ⟨Expr.profileAt_hidesIn hhides.1, Expr.profileAt_hidesIn hhides.2⟩
  rw [Expr.printed, List.append_assoc, List.cons_append, List.append_assoc, List.cons_append]
  have hstrength : Strength.conditional + 1 ≤
      (test.profileAt (Strength.conditional + 1)).strength := Expr.le_profileAt (by decide)
  have hnext : Strength.conditional < (test.profileAt (Strength.conditional + 1)).bound :=
    Expr.le_bound (by decide)
  have hfirst (us : List Printed) :=
    ((htest.fenced (Strength.conditional + 1) lead).binary hstrength).gives noIn 0 d b
      (.symbol .spaced .question :: us) (fun h => (hin h).1) hstrength hnext (Nat.lt_succ_self _)
  have hsecond (us : List Printed) :=
    (htrue.fenced .assignment .spaced).assignment (Expr.le_profileAt (by decide)) false d b
      (.symbol .spaced .colon :: us) (by simp) ((stops_close (by decide)).mono (by decide))
  have hthird := (hfalse.fenced .assignment .spaced).assignment (Expr.le_profileAt (by decide))
    noIn d b rest (fun h => (hin h).2) hrest
  refine plainAssignment_gives hrest.1 (here_gives.bind ((hfirst _).bind ((eat_gives rfl).bind ?_)))
  refine (hsecond _).bind ((expect_gives _ _).bind (hthird.bind ((spanFrom_gives _).bind ?_)))
  exact Leads.refl _ _

/-! ## Comma expressions -/

/-- The tokens of expressions that follow another one after a comma. -/
def printedTail (indent : Nat) (es : List Expr) : List Printed :=
  if es.isEmpty then [] else .symbol .joined .comma :: printedAll indent es .spaced

theorem printedAll_cons (indent : Nat) (e : Expr) (es : List Expr) (lead : Spacing) :
    printedAll indent (e :: es) lead =
      e.fenced .assignment (e.printed indent) lead ++ printedTail indent es := by
  cases es with
  | nil => simp [printedAll, printedTail]
  | cons next es => simp [printedAll, printedTail]

theorem stops_tail {noIn : Bool} {rest : List Printed} (h : Stops noIn .sequence rest)
    (indent : Nat) (es : List Expr) : Stops noIn .assignment (printedTail indent es ++ rest) := by
  cases es with
  | nil => exact h.mono (by decide)
  | cons next es => exact stops_comma

theorem sequence_tail {noIn : Bool} {rest : List Printed} (hrest : Stops noIn .sequence rest)
    (d b : Nat) (es : List Expr) (h : ∀ e ∈ es, e.Back indent) (hin : noIn → hidesInAll es) :
    ManyReads (do
      if ← eat .comma then return some (← (level d b).assignment noIn) else return none)
      (printedTail indent es ++ rest) (relabelAll .plain es) rest := by
  induction es with
  | nil =>
    refine .done ((eat_passes (comma_of_reach hrest.1)).bind ?_)
    exact Leads.refl _ _
  | cons e es ih =>
    have hin : noIn → (e.profileAt .assignment).hidesIn ∧ hidesInAll es := by
      intro h
      have hhides := hin h
      simp only [hidesInAll, Bool.and_eq_true, Bool.or_eq_true, decide_eq_true_eq] at hhides
      exact ⟨Expr.profileAt_hidesIn hhides.1, hhides.2⟩
    have hsplit : printedTail indent (e :: es) ++ rest = .symbol .joined .comma ::
        (e.fenced .assignment (e.printed indent) .spaced ++ (printedTail indent es ++ rest)) := by
      rw [printedTail, if_neg (by simp), printedAll_cons]
      simp
    have hread := ((h e (by simp)).fenced .assignment .spaced).assignment
      (Expr.le_profileAt (by decide)) noIn d b _ (fun h => (hin h).1) (stops_tail hrest indent es)
    rw [hsplit]
    refine .more ((eat_gives rfl).bind (hread.bind (Leads.refl _ _))) ?_
      (ih (fun e he => h e (by simp [he])) fun h => (hin h).2)
    simp only [List.length_cons, List.length_append]
    omega

theorem sequence_back {s : Span} {items : List Expr} (hfit : (Expr.sequence s items).FitAt d)
    (h : ∀ e ∈ items, e.Back indent) : (Expr.sequence s items).Back indent := by
  intro lead
  have hshaped := (allFit_expr.1 hfit).1.1
  refine .ofSequence ?_ (by simp [Expr.profile, Expr.strength])
  intro noIn d b rest hin hrest
  obtain _ | ⟨e, _ | ⟨next, es⟩⟩ := items
  · exact absurd hshaped.1 (by simp)
  · exact absurd hshaped.1 (by simp)
  · have hin : noIn → (e.profileAt .assignment).hidesIn ∧ hidesInAll (next :: es) := by
      intro h
      have hhides := hin h
      simp only [Expr.profile, Expr.hidesIn] at hhides
      rw [hidesInAll] at hhides
      simp only [Bool.and_eq_true, Bool.or_eq_true, decide_eq_true_eq] at hhides
      exact ⟨Expr.profileAt_hidesIn hhides.1, hhides.2⟩
    have hfirst := ((h e (by simp)).fenced .assignment lead).assignment
      (Expr.le_profileAt (by decide)) noIn d b _ (fun h => (hin h).1)
      (stops_tail hrest indent (next :: es))
    have hothers := many_gives (sequence_tail hrest d b (next :: es)
      (fun e he => h e (by simp [he])) fun h => (hin h).2)
    have hsplit : (Expr.sequence s (e :: next :: es)).printed indent lead ++ rest =
        e.fenced .assignment (e.printed indent) lead ++
          (printedTail indent (next :: es) ++ rest) := by
      rw [Expr.printed, if_neg (by simp), printedAll_cons, List.append_assoc]
    rw [hsplit]
    refine here_gives.bind (hfirst.bind ((check_gives .comma).bind ?_))
    have hcomma : (ahead (printedTail indent (next :: es) ++ rest)).isSymbol .comma = true := rfl
    rw [hcomma]
    refine hothers.bind ((spanFrom_gives _).bind ?_)
    exact Leads.refl _ _

end WidgetLint.Script
