import WidgetLint.Proofs.Inset.Blind
import WidgetLint.Proofs.Inset.Stmt

/-!
# Statements one after the other

A script is a chain of statements, each of which starts where the one before it stopped. A chain
that takes a whole text is a chain in a larger text too, where a semicolon follows (`Chain.pass`):
either the last statement takes the semicolon, or the semicolon is an empty statement behind it.
-/

namespace WidgetLint.Script.Parser

open Text

variable {i j k : Input} {ss ts : List Stmt}

/-- Statements that are read one after the other, and where the first one starts and the last one
stops. -/
inductive Chain : Input → List Stmt → Input → Prop
  | stay {i : Input} : Chain i [] i
  | read {i j k : Input} {s : Stmt} {ss : List Stmt} : i.current.body ≠ .eof →
    top.statement i = .ok (s, j) → Chain j ss k → Chain i (s :: ss) k

theorem Chain.append (h : Chain i ss j) (h' : Chain j ts k) : Chain i (ss ++ ts) k := by
  induction h with
  | stay => exact h'
  | read hbody hrun _ ih => exact .read hbody hrun (ih h')

/-! ## Scripts as chains -/

/-- A statement of a script, if the text goes on. -/
def statementItem : Parser (Option Stmt) := do
  if ← atEnd then return none else return some (← top.statement)

theorem statementItem_bind {α : Type} (next : Option Stmt → Parser α) (i : Input) :
    (statementItem >>= next) i =
      if i.current.body = .eof then next none i
      else (top.statement i).bind fun x => next (some x.1) x.2 := by
  by_cases hbody : i.current.body = .eof
  · have hitem : statementItem i = .ok (none, i) := by
      change (if i.current.body == .eof then pure none
        else top.statement >>= fun s => pure (some s) : Parser (Option Stmt)) i = _
      rw [if_pos (beq_iff_eq.2 hbody)]
      rfl
    change ((statementItem i).bind fun x => next x.1 x.2) = _
    rw [hitem, if_pos hbody]
    rfl
  · have hitem : statementItem i = (top.statement i).bind fun x => .ok (some x.1, x.2) := by
      change (if i.current.body == .eof then pure none
        else top.statement >>= fun s => pure (some s) : Parser (Option Stmt)) i = _
      rw [if_neg fun h => hbody (beq_iff_eq.1 h)]
      rfl
    change ((statementItem i).bind fun x => next x.1 x.2) = _
    rw [hitem, if_neg hbody]
    cases top.statement i <;> rfl

theorem manyUpTo_statementItem_succ (fuel : Nat) (i : Input) :
    manyUpTo statementItem (fuel + 1) i =
      if i.current.body = .eof then .ok ([], i)
      else (top.statement i).bind fun x =>
        (manyUpTo statementItem fuel x.2).bind fun y => .ok (x.1 :: y.1, y.2) := by
  rw [manyUpTo, statementItem_bind]
  rfl

theorem chain_of_manyUpTo {fuel : Nat} (h : manyUpTo statementItem fuel i = .ok (ss, j)) :
    Chain i ss j ∧ j.current.body = .eof ∧ ss.length < fuel := by
  induction fuel generalizing i ss with
  | zero => cases h
  | succ fuel ih =>
    rw [manyUpTo_statementItem_succ] at h
    by_cases hbody : i.current.body = .eof
    · rw [if_pos hbody] at h
      cases h
      exact ⟨.stay, hbody, Nat.zero_lt_succ _⟩
    · rw [if_neg hbody] at h
      cases hrun : top.statement i with
      | error e =>
        rw [hrun] at h
        cases h
      | ok x =>
        rw [hrun] at h
        cases hrest : manyUpTo statementItem fuel x.2 with
        | error e =>
          rw [Except.bind, hrest] at h
          cases h
        | ok y =>
          rw [Except.bind, hrest] at h
          cases h
          obtain ⟨hchain, hend, hlength⟩ := ih hrest
          exact ⟨.read hbody hrun hchain, hend, Nat.succ_lt_succ hlength⟩

theorem Chain.manyUpTo {fuel : Nat} (h : Chain i ss j) (hend : j.current.body = .eof)
    (hfuel : ss.length < fuel) : manyUpTo statementItem fuel i = .ok (ss, j) := by
  induction h generalizing fuel with
  | stay =>
    obtain ⟨fuel, rfl⟩ := Nat.exists_eq_succ_of_ne_zero (Nat.ne_zero_of_lt hfuel)
    rw [manyUpTo_statementItem_succ, if_pos hend]
  | read hbody hrun _ ih =>
    obtain ⟨fuel, rfl⟩ := Nat.exists_eq_succ_of_ne_zero (Nat.ne_zero_of_lt hfuel)
    rw [manyUpTo_statementItem_succ, if_neg hbody, hrun, Except.bind,
      ih hend (Nat.lt_of_succ_lt_succ hfuel)]
    rfl

/-- **A script is a chain of statements up to the end of its text**, no more of them than tokens. -/
theorem statements_eq_ok :
    statements i = .ok (ss, j) ↔
      Chain i ss j ∧ j.current.body = .eof ∧ ss.length ≤ i.rest.length := by
  change manyUpTo statementItem (i.rest.length + 1) i = .ok (ss, j) ↔ _
  refine ⟨fun h => ?_, fun ⟨hchain, hend, hlength⟩ =>
    hchain.manyUpTo hend (Nat.lt_succ_of_le hlength)⟩
  obtain ⟨hchain, hend, hlength⟩ := chain_of_manyUpTo h
  exact ⟨hchain, hend, Nat.le_of_lt_succ hlength⟩

/-! ## Chains in a larger text -/

theorem Chain.reflows (h : Chain i ss j) (hne : ss ≠ []) {i' : Input} (hi : Reflows i i') :
    Chain i' ss j := by
  cases h with
  | stay => exact absurd rfl hne
  | read hbody hrun hrest =>
    refine .read ?_ (((level_blind _ _).statement i i' hi).trans hrun) hrest
    obtain ⟨new, hcurrent⟩ := hi.current
    rw [hcurrent]
    exact hbody

theorem Chain.no_else (h : Chain i ss j) (hne : ss ≠ []) : i.current.isWord "else" = false := by
  cases h with
  | stay => exact absurd rfl hne
  | read _ hrun _ =>
    refine Bool.eq_false_iff.2 fun helse => ?_
    exact (level_refuses _ _).statement i _ (.inr (beq_iff_eq.1 helse)) hrun

variable {c : Inset}

theorem Chain.shifts (h : Chain i ss j) (hi : c.Fits i) :
    ∃ us, i.rest = us ++ j.rest ∧ Shifts 0 0 us := by
  induction h with
  | stay => exact ⟨[], rfl, shifts_nil⟩
  | read _ hrun _ ih =>
    have hagree : Keeps c .inner (fun _ => True) 0 top.statement top.statement :=
      (level_agrees (.inr ⟨rfl, rfl⟩)).statement c.statements_inner
    obtain ⟨hmid, -, ⟨us, hus, hshift⟩, -⟩ := hagree _ _ _ hi True.intro hrun
    obtain ⟨vs, hvs, hshift'⟩ := ih hmid
    exact ⟨us ++ vs, by rw [hus, hvs, List.append_assoc], hshift.append hshift'⟩

theorem statement_semicolon (h : i.current.body = .symbol .semicolon) :
    top.statement i = .ok (.empty i.current.span, i.advance) := by
  have htop : top.statement = statementAt (level 127 (nestingBudget - nestCost)) := rfl
  have hlook (f : Position → Token → Parser Stmt) :
      (here >>= fun start => peek >>= f start) i = f i.current.span.start i.current i := rfl
  rw [htop, statementAt, hlook, h]
  rfl

/-- **Statements that take a whole text are read in a larger text**, where a semicolon follows, and
the semicolon is read with them. -/
theorem Chain.pass (h : Chain i ss j) (hi : c.Fits i) (hclosed : AllClosed i.rest)
    (hend : j.rest = []) (hnext : c.next.body = .symbol .semicolon)
    (helse : c.past.current.isWord "else" = false) (hricher : ¬c.poorer) :
    Chain (c.put i) ss c.past ∨ Chain (c.put i) (ss ++ [.empty c.next.span]) c.past := by
  induction h with
  | @stay i =>
    have hbody : (c.put i).current.body = .symbol .semicolon := by
      rw [Inset.current_put_nil hend, hnext]
    have hrun := statement_semicolon hbody
    rw [Inset.advance_put_nil hend, Inset.current_put_nil hend] at hrun
    exact .inr (.read (by simp [hbody]) hrun .stay)
  | @read i mid k s ss hbody hrun hrest ih =>
    have hagree : Keeps c .behind (fun _ => True) 0 top.statement top.statement :=
      (level_agrees (.inr ⟨rfl, rfl⟩)).statement (.inr ⟨rfl, hnext, helse⟩)
    obtain ⟨hmid, -, ⟨us, hus, -⟩, hfinds⟩ := hagree _ _ _ hi True.intro hrun
    have hbody' : (c.put i).current.body ≠ .eof := by
      rwa [Inset.current_put (hi.rest_ne hbody)]
    rcases hfinds hclosed (by simp) with ⟨_, mid', hrun', rfl, hlands⟩ | ⟨hpoorer, -⟩
    · rcases hlands with rfl | ⟨-, hnil, rfl⟩
      · rw [hus] at hclosed
        exact (ih hmid hclosed.of_append hend).imp (.read hbody' hrun') (.read hbody' hrun')
      · -- the statement takes the semicolon, so it is the last one
        cases hrest with
        | stay => exact .inl (.read hbody' hrun' .stay)
        | read hmore _ _ => exact absurd hnil (hmid.rest_ne hmore)
    · exact absurd hpoorer hricher

end WidgetLint.Script.Parser
