import WidgetLint.Proofs.Safety.Counting

/-!
# Counting changes nothing

The counting parser never gives back more than was spent, and it reads what the parser reads that
has the rest of the budget to spend. A part of the grammar that succeeds leaves the counter as it
found it (`level_counts`), and what is spent never exceeds the budget where the parser goes on
(`le_of_nest`).

`Follows depth Q q p` says of a counting parser `q`, started with the counter at `depth`, that it
has a result, that it fails exactly as the parser `p` does, and that otherwise it stops at the same
token with a result that `Q` relates to that of `p` and to the counter.
-/

namespace WidgetLint.Script.Counting

open Text WidgetLint.Script.Parser

variable {α β σ τ : Type}

/-- The outcome of a counting run and that of a run belong together. -/
inductive Matching (Q : α → Nat → β → Prop) :
    Option (Except ScriptError ((α × Input) × Nat)) → Except ScriptError (β × Input) → Prop
  | failed (error : ScriptError) : Matching Q (some (.error error)) (.error error)
  | done {a : α} {after : Nat} {b : β} (h : Q a after b) (rest : Input) :
    Matching Q (some (.ok ((a, rest), after))) (.ok (b, rest))

/-- A counting parser does what a parser does. -/
def Follows (depth : Nat) (Q : α → Nat → β → Prop) (q : Counting α) (p : Parser β) : Prop :=
  ∀ input, Matching Q (q input depth) (p input)

/-- A counting parser has the results of a parser and moves the counter from `before` to `after`. -/
abbrev Counts (before after : Nat) (q : Counting α) (p : Parser α) : Prop :=
  Follows before (fun a depth b => a = b ∧ depth = after) q p

theorem Counts.run {q : Counting α} {p : Parser α} {before after : Nat}
    (h : Counts before after q p) (input : Input) :
    q input before = some ((p input).map (·, after)) := by
  have hrun := h input
  generalize q input before = r, p input = s at hrun
  cases hrun with
  | failed error => rfl
  | done hsame rest =>
    obtain ⟨rfl, rfl⟩ := hsame
    rfl

/-! ## Combining parsers -/

section
variable {depth after : Nat} {Q : α → Nat → β → Prop} {R : σ → Nat → τ → Prop}

theorem Follows.bind {q : Counting α} {p : Parser β} {k : α → Counting σ} {l : β → Parser τ}
    (h : Follows depth Q q p) (hk : ∀ a after b, Q a after b → Follows after R (k a) (l b)) :
    Follows depth R (q >>= k) (p >>= l) := by
  intro input
  have hrun := h input
  show Matching R (Option.bind (q input depth)
      (ExceptT.bindCont fun x : (α × Input) × Nat => k x.1.1 x.1.2 x.2))
    ((p input).bind fun x => l x.1 x.2)
  generalize q input depth = r, p input = s at hrun
  cases hrun with
  | failed error => exact .failed error
  | done h rest => exact hk _ _ _ h rest

theorem Counts.andThen {q : Counting α} {p : Parser α} {k : α → Counting σ} {l : α → Parser τ}
    (h : Counts depth after q p) (hk : ∀ a, Follows after R (k a) (l a)) :
    Follows depth R (q >>= k) (p >>= l) :=
  h.bind fun a _ b hab => by
    obtain ⟨rfl, rfl⟩ := hab
    exact hk a

/-- Where both parsers fail it does not matter what would come next. -/
theorem Follows.stop {q : Counting α} {p : Parser β} {k : α → Counting σ} {l : β → Parser τ}
    (h : Follows depth (fun _ _ _ => False) q p) : Follows depth R (q >>= k) (p >>= l) :=
  h.bind fun _ _ _ hresult => hresult.elim

theorem Follows.result {a : α} {b : β} (h : Q a depth b) :
    Follows depth Q (Pure.pure a) (Pure.pure b) :=
  fun input => .done h input

theorem Follows.pure {a : α} : Counts depth depth (Pure.pure a) (Pure.pure a) :=
  .result ⟨rfl, rfl⟩

theorem Counts.some {q : Counting α} {p : Parser α} (h : Counts depth after q p) :
    Counts depth after (Option.some <$> q) (Option.some <$> p) := by
  rw [map_eq_pure_bind, map_eq_pure_bind]
  exact h.andThen fun _ => .pure

theorem Follows.ite {c : Prop} [Decidable c] {q q' : Counting α} {p p' : Parser β}
    (ht : Follows depth Q q p) (he : Follows depth Q q' p') :
    Follows depth Q (if c then q else q') (if c then p else p') := by
  split
  · exact ht
  · exact he

theorem Follows.get_bind {k : Input → Counting α} {l : Input → Parser β}
    (h : ∀ i, Follows depth Q (k i) (l i)) : Follows depth Q (get >>= k) (get >>= l) :=
  fun input => h input input

theorem throw_follows {e : ScriptError} :
    Follows depth Q (throw e : Counting α) (throw e : Parser β) :=
  fun _ => .failed e

/-! ## The counter -/

theorem nest_run {cost : Nat} (h : depth + cost ≤ nestingBudget) (input : Input) :
    nest cost input depth = some (.ok (((), input), depth + cost)) := by
  unfold nest
  change (if nestingBudget < depth + cost then fail .nestedTooDeep else Pure.pure () :
    Counting Unit) input (depth + cost) = _
  rw [if_neg (Nat.not_lt.2 h)]
  rfl

theorem leave_run (cost : Nat) (input : Input) :
    leave cost input (depth + cost) = some (.ok (((), input), depth)) := by
  unfold leave
  change (liftM (minus? (depth + cost) cost) >>= fun left => set left : Counting Unit) input
    (depth + cost) = _
  rw [minus?_eq (Nat.le_add_left _ _), Nat.add_sub_cancel]
  rfl

theorem nest_fails {cost : Nat} (h : nestingBudget < depth + cost) (input : Input) :
    nest cost input depth = some (.error ⟨.nestedTooDeep, input.current.span.start⟩) := by
  unfold nest
  change (if nestingBudget < depth + cost then fail .nestedTooDeep else Pure.pure () :
    Counting Unit) input (depth + cost) = _
  rw [if_pos h]
  rfl

/-- **No descent goes over the budget.** -/
theorem le_of_nest {cost : Nat} {input rest : Input}
    (h : nest cost input depth = some (.ok (((), rest), after))) :
    after = depth + cost ∧ after ≤ nestingBudget := by
  by_cases hle : depth + cost ≤ nestingBudget
  · rw [nest_run hle] at h
    cases h
    exact ⟨rfl, hle⟩
  · rw [nest_fails (Nat.lt_of_not_le hle)] at h
    cases h

theorem Follows.nest_bind {cost : Nat} {k : Counting α} {p : Parser β}
    (h : depth + cost ≤ nestingBudget) (hk : Follows (depth + cost) Q k p) :
    Follows depth Q (nest cost >>= fun _ => k) p := by
  intro input
  change Matching Q (Option.bind (nest cost input depth)
    (ExceptT.bindCont fun x : (Unit × Input) × Nat => k x.1.2 x.2)) _
  rw [nest_run h]
  exact hk input

theorem Follows.nest_fails_bind {cost : Nat} {k : Counting α} (h : nestingBudget < depth + cost) :
    Follows depth Q (nest cost >>= fun _ => k) (fail .nestedTooDeep : Parser β) := by
  intro input
  change Matching Q (Option.bind (nest cost input depth)
    (ExceptT.bindCont fun x : (Unit × Input) × Nat => k x.1.2 x.2)) _
  rw [nest_fails h]
  exact .failed _

theorem Follows.leave_bind {cost : Nat} {k : Counting α} {p : Parser β} (hk : Follows depth Q k p) :
    Follows (depth + cost) Q (leave cost >>= fun _ => k) p := by
  intro input
  change Matching Q (Option.bind (leave cost input (depth + cost))
    (ExceptT.bindCont fun x : (Unit × Input) × Nat => k x.1.2 x.2)) _
  rw [leave_run]
  exact hk input

end

/-! ## Single tokens and repetition -/

section
variable {depth after : Nat} {Q : α → Nat → β → Prop}

theorem peek_counts : Counts depth depth peek peek :=
  fun input => .done ⟨rfl, rfl⟩ input

theorem peekSecond_counts : Counts depth depth peekSecond peekSecond :=
  fun input => .done ⟨rfl, rfl⟩ input

theorem advance_counts : Counts depth depth advance advance :=
  fun _ => .done ⟨rfl, rfl⟩ _

theorem here_counts : Counts depth depth here here :=
  fun input => .done ⟨rfl, rfl⟩ input

theorem spanFrom_counts (start : Position) :
    Counts depth depth (spanFrom start) (spanFrom start) :=
  fun input => .done ⟨rfl, rfl⟩ input

theorem placed_counts (start : Position) (make : Span → α) :
    Counts depth depth (do return make (← spanFrom start)) (do return make (← spanFrom start)) :=
  (spanFrom_counts start).andThen fun _ => .pure

theorem fail_follows {cause : Cause} :
    Follows depth Q (fail cause : Counting α) (fail cause : Parser β) :=
  here_counts.andThen fun _ => throw_follows

theorem unexpected_follows : Follows depth Q (unexpected : Counting α) (unexpected : Parser β) :=
  peek_counts.andThen fun _ => throw_follows

theorem atEnd_counts : Counts depth depth atEnd atEnd :=
  peek_counts.andThen fun _ => .pure

theorem check_counts (s : Symbol) : Counts depth depth (check s) (check s) :=
  peek_counts.andThen fun _ => .pure

theorem checkWord_counts (name : String) :
    Counts depth depth (checkWord name) (checkWord name) :=
  peek_counts.andThen fun _ => .pure

theorem eat_counts (s : Symbol) : Counts depth depth (eat s) (eat s) :=
  (check_counts s).andThen fun _ => .ite (advance_counts.andThen fun _ => .pure) .pure

theorem eatWord_counts (name : String) : Counts depth depth (eatWord name) (eatWord name) :=
  (checkWord_counts name).andThen fun _ => .ite (advance_counts.andThen fun _ => .pure) .pure

theorem expect_counts (s : Symbol) : Counts depth depth (expect s) (expect s) :=
  (eat_counts s).andThen fun _ => .ite .pure unexpected_follows

theorem expectWord_counts (name : String) :
    Counts depth depth (expectWord name) (expectWord name) :=
  (eatWord_counts name).andThen fun _ => .ite .pure unexpected_follows

variable {item : Counting (Option α)} {item' : Parser (Option α)}

theorem manyUpTo_counts (h : Counts depth depth item item') (fuel : Nat) :
    Counts depth depth (manyUpTo item fuel) (manyUpTo item' fuel) := by
  induction fuel with
  | zero => exact unexpected_follows
  | succ fuel ih =>
    refine h.andThen fun a => ?_
    cases a with
    | none => exact .pure
    | some a => exact ih.andThen fun _ => .pure

theorem many_counts (h : Counts depth depth item item') :
    Counts depth depth (many item) (many item') :=
  .get_bind fun _ => manyUpTo_counts h _

theorem commaList_counts (close : Symbol) {p : Counting α} {p' : Parser α}
    (h : Counts depth depth p p') :
    Counts depth depth (commaList close p) (commaList close p') := by
  refine many_counts ((check_counts close).andThen fun _ => .ite .pure ?_)
  refine h.andThen fun a => (check_counts close).andThen fun _ => .ite .pure ?_
  exact (expect_counts .comma).andThen fun _ => .pure

theorem bracketed_counts (opening close : Symbol) {p : Counting α} {p' : Parser α}
    (h : Counts depth depth p p') :
    Counts depth depth (bracketed opening close p) (bracketed opening close p') :=
  (expect_counts opening).andThen fun _ => (commaList_counts close h).andThen fun _ =>
    (expect_counts close).andThen fun _ => .pure

end

/-- The states of two repetitions that go on, or their results, belong together. -/
def Going {σ' τ' : Type} (S : σ → Nat → τ → Prop) (R : σ' → Nat → τ' → Prop) :
    σ ⊕ σ' → Nat → τ ⊕ τ' → Prop
  | .inl s, depth, .inl t => S s depth t
  | .inr a, depth, .inr b => R a depth b
  | _, _, _ => False

section
variable {S : σ → Nat → τ → Prop} {R : α → Nat → β → Prop} {step : σ → Counting (σ ⊕ α)}
  {step' : τ → Parser (τ ⊕ β)}

theorem iterateUpTo_follows
    (h : ∀ s depth t, S s depth t → Follows depth (Going S R) (step s) (step' t)) (fuel : Nat)
    {s : σ} {depth : Nat} {t : τ} (hs : S s depth t) :
    Follows depth R (iterateUpTo step fuel s) (iterateUpTo step' fuel t) := by
  induction fuel generalizing s depth t with
  | zero => exact unexpected_follows
  | succ fuel ih =>
    refine (h s depth t hs).bind fun x after y hxy => ?_
    cases x with
    | inl s =>
      cases y with
      | inl t => exact ih hxy
      | inr b => exact hxy.elim
    | inr a =>
      cases y with
      | inl t => exact hxy.elim
      | inr b => exact .result hxy

theorem iterate_follows
    (h : ∀ s depth t, S s depth t → Follows depth (Going S R) (step s) (step' t))
    {s : σ} {depth : Nat} {t : τ} (hs : S s depth t) :
    Follows depth R (iterate step s) (iterate step' t) :=
  .get_bind fun _ => iterateUpTo_follows h _ hs

end

end WidgetLint.Script.Counting
