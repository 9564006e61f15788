import WidgetLint.Proofs.Safety.CountedGrammar

/-!
# What is spent is given back

The parts of the grammar that spend give back on every way out what they have spent, a chain also
the price of its links. So **every level leaves the counter as it found it**, and reads what the
parser reads that has the rest of the budget to hand down (`level_counts`).
-/

namespace WidgetLint.Script.Counting

open Text WidgetLint.Script.Parser

variable {α β : Type} {depth : Nat} {Q : α → Nat → β → Prop}

/-! ## Spending -/

theorem link_follows {k : Counting α} {next : Nat → Parser β} (hdepth : depth ≤ nestingBudget)
    (hk : depth + linkCost ≤ nestingBudget →
      Follows (depth + linkCost) Q k (next (nestingBudget - (depth + linkCost)))) :
    Follows depth Q (nest linkCost >>= fun _ => k) (link (nestingBudget - depth) next) := by
  unfold link
  split
  · exact .nest_fails_bind (by omega)
  · rw [Nat.sub_sub]
    have hle : depth + linkCost ≤ nestingBudget := by omega
    exact .nest_bind hle (hk hle)

theorem rightLeast_bind {op : BinaryOp} {k : Nat → Counting α} {p : Parser β}
    (h : Follows depth Q (k (if op = .exp then op.precedence - 1 else op.precedence)) p) :
    Follows depth Q (rightLeast op >>= k) p := by
  unfold rightLeast
  split at h
  · rw [if_pos ‹_›]
    subst op
    exact h
  · rw [if_neg ‹_›]
    exact h

/-- A chain of links that begins with the counter at `base`: the parser has as much left as the
counter says, and the counter is ahead by the price of the links. -/
def Spent (base : Nat) : Nat × Expr → Nat → Nat × Expr → Prop
  | (n, e), depth, (budget, e') =>
    e = e' ∧ depth = base + n * linkCost ∧ depth ≤ nestingBudget ∧ budget = nestingBudget - depth

theorem Spent.start (hdepth : depth ≤ nestingBudget) (e : Expr) :
    Spent depth (0, e) depth (nestingBudget - depth, e) :=
  ⟨rfl, by simp, hdepth, rfl⟩

/-- A chain of operators that has ended: the counter is ahead by the price of the links. -/
def Ended (base : Nat) : Nat × Expr → Nat → Expr → Prop
  | (n, e), depth, e' => e = e' ∧ depth = base + n * linkCost

section
variable {sub : LevelOf Counting} {lower : Nat → Level}
  (hlower : ∀ depth ≤ nestingBudget, sub.Counts depth (lower (nestingBudget - depth)))
  {base : Nat} {start : Position}
include hlower

theorem chainStep_follows (links : List Symbol) {s t : Nat × Expr} (h : Spent base s depth t) :
    Follows depth (Going (Spent base) (Spent base)) (chainStep sub start links s)
      (Parser.chainStep lower start links t) := by
  obtain ⟨n, e⟩ := s
  obtain ⟨budget, e'⟩ := t
  obtain ⟨rfl, hprice, hdepth, rfl⟩ := h
  have hends : Spent base (n, e) depth (nestingBudget - depth, e) := ⟨rfl, hprice, hdepth, rfl⟩
  refine peek_counts.andThen fun t => ?_
  cases t.body with
  | symbol s =>
    refine .ite (link_follows hdepth fun hle => ?_) (.result hends)
    refine (chainLink_counts (hlower _ hle) start e s).andThen fun _ => .result ⟨rfl, ?_, hle, rfl⟩
    rw [hprice, Nat.succ_mul, Nat.add_assoc]
  | _ => exact .result hends

theorem chain_follows (hdepth : depth ≤ nestingBudget) (links : List Symbol) (e : Expr) :
    Follows depth (Spent depth) (iterate (chainStep sub start links) (0, e))
      (iterate (Parser.chainStep lower start links) (nestingBudget - depth, e)) :=
  iterate_follows (fun _ _ _ => chainStep_follows hlower links) (.start hdepth e)

theorem callMember_counts (hdepth : depth ≤ nestingBudget) :
    Counts depth depth (callMember sub) (Parser.callMember lower (nestingBudget - depth)) := by
  have hrest (start : Position) (first : Expr) : Counts depth depth
      (do
        let chain ← iterate (chainStep sub start [.dot, .questionDot, .lbracket, .lparen])
          (0, first)
        leave (chain.1 * linkCost)
        return chain.2)
      (do
        let chain ← iterate
          (Parser.chainStep lower start [.dot, .questionDot, .lbracket, .lparen])
          (nestingBudget - depth, first)
        return chain.2) := by
    refine (chain_follows hlower hdepth _ first).bind fun s after t hs => ?_
    obtain ⟨n, e⟩ := s
    obtain ⟨budget, e'⟩ := t
    obtain ⟨rfl, rfl, -, -⟩ := hs
    exact .leave_bind .pure
  refine here_counts.andThen fun start => (checkWord_counts "new").andThen fun _ => .ite ?_ ?_
  · exact (hlower _ hdepth).construction.andThen (hrest start)
  · exact (primary_counts (hlower _ hdepth)).andThen (hrest start)

theorem newRest_counts (hdepth : depth + nestCost ≤ nestingBudget) (start : Position) :
    Counts (depth + nestCost) depth (newRest sub start)
      (Parser.newRest lower (nestingBudget - (depth + nestCost)) start) := by
  have hrest (callee : Expr) : Counts (depth + nestCost) depth
      (do
        let chain ← iterate (chainStep sub start [.dot, .lbracket]) (0, callee)
        let arguments ← if ← check .lparen then arguments sub else pure []
        leave (nestCost + chain.1 * linkCost)
        return .new (← spanFrom start) chain.2 arguments)
      (do
        let chain ← iterate (Parser.chainStep lower start [.dot, .lbracket])
          (nestingBudget - (depth + nestCost), callee)
        let arguments ← if ← check .lparen then arguments (lower chain.1) else pure []
        return Expr.new (← spanFrom start) chain.2 arguments) := by
    refine (chain_follows hlower hdepth _ callee).bind fun s after t hs => ?_
    obtain ⟨n, callee⟩ := s
    obtain ⟨budget, callee'⟩ := t
    obtain ⟨rfl, rfl, hafter, rfl⟩ := hs
    have hnew (arguments : List Expr) : Counts (depth + nestCost + n * linkCost) depth
        (do
          leave (nestCost + n * linkCost)
          return .new (← spanFrom start) callee arguments)
        (do return Expr.new (← spanFrom start) callee arguments) := by
      rw [Nat.add_assoc]
      exact .leave_bind (placed_counts start _)
    exact (check_counts .lparen).andThen fun _ =>
      .ite ((arguments_counts (hlower _ hafter)).andThen hnew) (hnew [])
  refine (checkWord_counts "new").andThen fun _ => .ite ?_ ?_
  · exact (hlower _ hdepth).construction.andThen hrest
  · exact (primary_counts (hlower _ hdepth)).andThen hrest

theorem binaryStep_follows (noIn : Bool) (least : Nat) {s t : Nat × Expr}
    (h : Spent base s depth t) :
    Follows depth (Going (Spent base) (Ended base)) (binaryStep sub noIn least start s)
      (Parser.binaryStep lower noIn least start t) := by
  obtain ⟨n, left⟩ := s
  obtain ⟨budget, left'⟩ := t
  obtain ⟨rfl, hprice, hdepth, rfl⟩ := h
  have hends : Ended base (n, left) depth left := ⟨rfl, hprice⟩
  refine peek_counts.andThen fun t => ?_
  cases binaryOp? noIn t with
  | none => exact .result hends
  | some op =>
    refine .ite (.result hends) (link_follows hdepth fun hle => ?_)
    refine advance_counts.andThen fun _ => rightLeast_bind ?_
    refine ((hlower _ hle).binary noIn _).andThen fun right => ?_
    refine (spanFrom_counts start).andThen fun _ => .result ⟨rfl, ?_, hle, rfl⟩
    rw [hprice, Nat.succ_mul, Nat.add_assoc]

/-! ## The parts of a level -/

variable (hdepth : depth + nestCost ≤ nestingBudget)
include hdepth

theorem statement_counts :
    Counts depth depth (statement sub)
      (statementAt (lower (nestingBudget - (depth + nestCost)))) := by
  rw [← bind_pure (statementAt (lower _))]
  exact .nest_bind hdepth ((statementAt_counts (hlower _ hdepth)).andThen fun _ => .leave_bind .pure)

theorem construction_counts :
    Counts depth depth (construction sub)
      (constructionAt lower (nestingBudget - (depth + nestCost))) := by
  refine .nest_bind hdepth (here_counts.andThen fun start => advance_counts.andThen fun _ => ?_)
  refine (eat_counts .dot).andThen fun _ => .ite ?_ (newRest_counts hlower hdepth start)
  exact (spanFrom_counts start).andThen fun _ => memberName_counts.andThen fun _ =>
    .leave_bind (placed_counts start _)

theorem unary_counts :
    Counts depth depth (unary sub) (unaryAt lower (nestingBudget - (depth + nestCost))) := by
  refine .nest_bind hdepth (here_counts.andThen fun start => peek_counts.andThen fun t => ?_)
  cases unaryOp? t with
  | some op =>
    exact advance_counts.andThen fun _ => (hlower _ hdepth).unary.andThen fun _ =>
      .leave_bind (placed_counts start _)
  | none =>
    cases updateOp? t with
    | some op =>
      exact advance_counts.andThen fun _ => (hlower _ hdepth).unary.andThen fun _ =>
        .leave_bind (placed_counts start _)
    | none =>
      dsimp only
      rw [← bind_pure (postfixed lower _)]
      exact (postfixedFrom_counts (callMember_counts hlower hdepth)).andThen fun _ =>
        .leave_bind .pure

theorem binary_counts (noIn : Bool) (least : Nat) :
    Counts depth depth (binary sub noIn least)
      (binaryAt lower (nestingBudget - (depth + nestCost)) noIn least) := by
  have hrest (start : Position) (left : Expr) : Counts (depth + nestCost) depth
      (do
        let chain ← iterate (binaryStep sub noIn least start) (0, left)
        leave (nestCost + chain.1 * linkCost)
        return chain.2)
      (iterate (Parser.binaryStep lower noIn least start)
        (nestingBudget - (depth + nestCost), left)) := by
    rw [← bind_pure (iterate (Parser.binaryStep lower noIn least start) _)]
    refine (iterate_follows (fun _ _ _ => binaryStep_follows hlower noIn least)
      (.start hdepth left)).bind fun s after e' hs => ?_
    obtain ⟨n, e⟩ := s
    obtain ⟨rfl, rfl⟩ := hs
    rw [Nat.add_assoc]
    exact .leave_bind .pure
  exact .nest_bind hdepth (here_counts.andThen fun start =>
    (hlower _ hdepth).unary.andThen (hrest start))

theorem plainAssignment_counts (noIn : Bool) :
    Counts (depth + nestCost) depth (plainAssignment sub noIn)
      (Parser.plainAssignment (lower (nestingBudget - (depth + nestCost))) noIn) := by
  refine here_counts.andThen fun start => ?_
  refine (conditional_counts (hlower _ hdepth) noIn).andThen fun left => ?_
  refine peek_counts.andThen fun t => ?_
  cases assignOp? t with
  | none => exact .leave_bind .pure
  | some op =>
    refine .ite ?_ throw_follows
    exact advance_counts.andThen fun _ => ((hlower _ hdepth).assignment noIn).andThen fun _ =>
      .leave_bind (placed_counts start _)

theorem assignment_counts (noIn : Bool) :
    Counts depth depth (assignment sub noIn)
      (assignmentAt (lower (nestingBudget - (depth + nestCost))) noIn) := by
  have harrow (start : Position) : Counts (depth + nestCost) depth
      (do
        let e ← arrow sub noIn start
        leave nestCost
        return e)
      (arrow (lower (nestingBudget - (depth + nestCost))) noIn start) := by
    rw [← bind_pure (arrow (lower _) noIn start)]
    exact (arrow_counts (hlower _ hdepth) noIn start).andThen fun _ => .leave_bind .pure
  refine .nest_bind hdepth (.get_bind fun input => here_counts.andThen fun start => ?_)
  exact .ite (advance_counts.andThen fun _ => harrow start)
    (.ite (harrow start) (plainAssignment_counts hlower hdepth noIn))

end

/-! ## Levels -/

theorem exhausted_counts : (LevelOf.exhausted : LevelOf Counting).Counts depth .exhausted :=
  ⟨fail_follows, fun _ => fail_follows, fun _ _ => fail_follows, fail_follows, fail_follows⟩

/-- **What is spent is given back.** -/
theorem level_counts (descents : Nat) (hdepth : depth ≤ nestingBudget) :
    (level descents).Counts depth (Parser.level descents (nestingBudget - depth)) := by
  induction descents generalizing depth with
  | zero => exact exhausted_counts
  | succ descents ih =>
    have hlower : ∀ depth ≤ nestingBudget,
        (level descents).Counts depth (Parser.level descents (nestingBudget - depth)) :=
      fun _ h => ih h
    rw [Parser.level]
    split
    · have hover : nestingBudget < depth + nestCost := by omega
      exact ⟨.nest_fails_bind hover, fun _ => .nest_fails_bind hover,
        fun _ _ => .nest_fails_bind hover, .nest_fails_bind hover, .nest_fails_bind hover⟩
    · have hle : depth + nestCost ≤ nestingBudget := by omega
      rw [Nat.sub_sub]
      exact ⟨statement_counts hlower hle, fun noIn => assignment_counts hlower hle noIn,
        fun noIn least => binary_counts hlower hle noIn least, unary_counts hlower hle,
        construction_counts hlower hle⟩

theorem top_counts : top.Counts 0 Parser.top :=
  level_counts _ (Nat.zero_le _)

end WidgetLint.Script.Counting
