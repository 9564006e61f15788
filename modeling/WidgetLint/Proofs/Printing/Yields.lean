import WidgetLint.Proofs.Printing.Formed

/-!
# What readers return

`Yields P p Q` says of a reader of tokens: started where `P` holds, it returns only what `Q` allows.
The tokens of the input are always those of a text. Most readers do not depend on where they start
and what they leave, and `Gets p S` says that what they return has the property `S`.

Here are the rules by which this passes from parts to wholes, and the readers of single tokens and
of repetitions.
-/

namespace WidgetLint.Script

open Text

/-- All tokens of an input were cut from a text. -/
structure Input.Lexed (i : Input) : Prop where
  rest : ∀ t ∈ i.rest, t.Lexed
  last : i.last.Lexed

theorem Input.Lexed.ahead {i : Input} (h : i.Lexed) (n : Nat) : (i.ahead n).Lexed := by
  unfold Input.ahead
  cases hn : i.rest[n]? with
  | none => exact h.last
  | some t => exact h.rest t (List.mem_of_getElem? hn)

theorem Input.Lexed.advance {i : Input} (h : i.Lexed) : i.advance.Lexed :=
  ⟨fun t ht => h.rest t (List.mem_of_mem_drop ht), h.last⟩

namespace Parser

variable {α β : Type} {P : Input → Prop} {Q : α → Input → Prop} {R : β → Input → Prop}
  {S : α → Prop} {T : β → Prop} {p q : Parser α} {k : α → Parser β}

/-- Started where `P` holds, the reader returns only what `Q` allows. -/
def Yields (P : Input → Prop) (p : Parser α) (Q : α → Input → Prop) : Prop :=
  ∀ i a j, i.Lexed → P i → p i = .ok (a, j) → j.Lexed ∧ Q a j

/-- Wherever it starts, the reader returns only what has the property `S`. -/
abbrev Gets (p : Parser α) (S : α → Prop) : Prop :=
  Yields (fun _ => True) p fun a _ => S a

/-! ## Combining readers -/

theorem Yields.pure {a : α} (h : ∀ i, P i → Q a i) : Yields P (Pure.pure a) Q := by
  intro i b j hi hP heq
  cases heq
  exact ⟨hi, h i hP⟩

theorem Yields.bind (h : Yields P p Q) (hk : ∀ a, Yields (Q a) (k a) R) :
    Yields P (p >>= k) R := by
  intro i b j hi hP heq
  change ((p i).bind fun x => k x.1 x.2) = .ok (b, j) at heq
  match hp : p i with
  | .ok (a, m) =>
    obtain ⟨hm, hQ⟩ := h i a m hi hP hp
    rw [hp] at heq
    exact hk a m b j hm hQ heq
  | .error e =>
    rw [hp] at heq
    cases heq

theorem Yields.imp {Q' : α → Input → Prop} (h : Yields P p Q) (himp : ∀ a i, Q a i → Q' a i) :
    Yields P p Q' := by
  intro i a j hi hP heq
  obtain ⟨hj, hQ⟩ := h i a j hi hP heq
  exact ⟨hj, himp a j hQ⟩

theorem Yields.from {P' : Input → Prop} (h : Yields P p Q) (himp : ∀ i, P' i → P i) :
    Yields P' p Q :=
  fun i a j hi hP heq => h i a j hi (himp i hP) heq

theorem Yields.assume {c : Prop} (h : c → Yields (fun _ => True) p Q) : Yields (fun _ => c) p Q :=
  fun i a j hi hc heq => h hc i a j hi True.intro heq

theorem Yields.given {c : Prop} (h : c → Yields P p Q) : Yields (fun i => P i ∧ c) p Q :=
  fun i a j hi hP heq => h hP.2 i a j hi hP.1 heq

theorem Gets.pure {a : α} (h : S a) : Gets (Pure.pure a) S :=
  Yields.pure fun _ _ => h

theorem Gets.then (h : Gets p S) (hk : ∀ a, S a → Yields (fun _ => True) (k a) R) :
    Yields (fun _ => True) (p >>= k) R :=
  Yields.bind h fun a => .assume (hk a)

theorem Gets.bind (h : Gets p S) (hk : ∀ a, S a → Gets (k a) T) : Gets (p >>= k) T :=
  h.then hk

theorem Gets.some (h : Gets p S) : Gets (do return Option.some (← p)) fun o =>
    ∀ a, o = Option.some a → S a := by
  refine h.bind fun a ha => .pure ?_
  rintro _ ⟨⟩
  exact ha

theorem Gets.map_some (h : Gets p S) : Gets (Option.some <$> p) fun o =>
    ∀ a, o = Option.some a → S a := by
  rw [map_eq_pure_bind]
  exact h.some

theorem Yields.ite {c : Prop} [Decidable c] (ht : c → Yields P p Q) (he : ¬c → Yields P q Q) :
    Yields P (if c then p else q) Q := by
  split
  · exact ht ‹_›
  · exact he ‹_›

theorem Gets.ite {c : Prop} [Decidable c] (ht : c → Gets p S) (he : ¬c → Gets q S) :
    Gets (if c then p else q) S :=
  Yields.ite ht he

theorem Gets.unless {c : Prop} [Decidable c] {cont : Parser β}
    (h : Gets cont T) {stop : Parser PUnit} (hstop : Gets stop fun _ => True) :
    Gets (if c then stop >>= fun _ => cont else cont) T :=
  Yields.ite (fun _ => Gets.bind hstop fun _ _ => h) fun _ => h

theorem yields_throw {e : ScriptError} : Yields P (throw e : Parser α) Q := by
  intro i a j _ _ heq
  cases heq

theorem Gets.get_bind {k : Input → Parser β} (h : ∀ i, Gets (k i) T) : Gets (get >>= k) T :=
  fun i b j hi _ heq => h i i b j hi True.intro heq

/-! ## Single tokens -/

theorem peek_yields : Yields P peek fun t i => t = i.current ∧ t.Lexed ∧ P i := by
  intro i t j hi hP heq
  cases heq
  exact ⟨hi, rfl, hi.ahead 0, hP⟩

theorem peek_gets : Gets peek Token.Lexed :=
  peek_yields.imp fun _ _ h => h.2.1

theorem peekSecond_gets : Gets peekSecond fun _ => True :=
  fun _ _ _ hi _ heq => by cases heq; exact ⟨hi, True.intro⟩

theorem advance_gets : Gets advance fun _ => True :=
  fun _ _ _ hi _ heq => by cases heq; exact ⟨hi.advance, True.intro⟩

theorem here_gets : Gets here fun _ => True :=
  peek_gets.bind fun _ _ => .pure True.intro

theorem spanFrom_yields (start : Position) : Yields P (spanFrom start) fun _ i => P i :=
  fun _ _ _ hi hP heq => by cases heq; exact ⟨hi, hP⟩

theorem spanFrom_gets (start : Position) : Gets (spanFrom start) fun _ => True :=
  spanFrom_yields start

theorem fail_yields {cause : Cause} : Yields P (fail cause) Q :=
  (here_gets.from fun _ _ => True.intro).bind fun _ => yields_throw

theorem unexpected_yields : Yields P unexpected Q :=
  (peek_gets.from fun _ _ => True.intro).bind fun _ => yields_throw

theorem atEnd_gets : Gets atEnd fun _ => True :=
  peek_gets.bind fun _ _ => .pure True.intro

theorem check_yields (s : Symbol) :
    Yields P (check s) fun b i => b = i.current.isSymbol s ∧ P i :=
  peek_yields.bind fun _ => .pure fun _ h => ⟨by rw [h.1], h.2.2⟩

theorem check_gets (s : Symbol) : Gets (check s) fun _ => True :=
  (check_yields s).imp fun _ _ _ => True.intro

theorem checkWord_yields (name : String) :
    Yields P (checkWord name) fun b i => b = i.current.isWord name ∧ P i :=
  peek_yields.bind fun _ => .pure fun _ h => ⟨by rw [h.1], h.2.2⟩

theorem checkWord_gets (name : String) : Gets (checkWord name) fun _ => True :=
  (checkWord_yields name).imp fun _ _ _ => True.intro

theorem eat_yields (s : Symbol) :
    Yields (fun i => i.current.isSymbol s = true) (eat s) fun b _ => b = true := by
  refine (check_yields s).bind fun b => .ite (fun _ => ?_) fun hb => ?_
  · exact (advance_gets.from fun _ _ => True.intro).bind fun _ => .pure fun _ _ => rfl
  · exact .pure fun i h => absurd (h.1.trans h.2) hb

theorem eat_gets (s : Symbol) : Gets (eat s) fun _ => True :=
  (check_gets s).bind fun _ _ => .ite (fun _ => advance_gets.bind fun _ _ => .pure True.intro)
    fun _ => .pure True.intro

theorem eatWord_yields (name : String) : Yields P (eatWord name) fun b i =>
    (b = true ∧ ∃ j, j.current.isWord name = true ∧ P j) ∨
      (b = false ∧ i.current.isWord name = false ∧ P i) := by
  refine (checkWord_yields name).bind fun b => .ite (fun hb => ?_) fun hb => ?_
  · intro i _ j hi hP heq
    cases heq
    exact ⟨hi.advance, .inl ⟨rfl, i, hP.1.symm.trans hb, hP.2⟩⟩
  · exact .pure fun i h => .inr ⟨rfl, h.1.symm.trans (Bool.eq_false_iff.2 hb), h.2⟩

theorem eatWord_gets (name : String) : Gets (eatWord name) fun _ => True :=
  (eatWord_yields name).imp fun _ _ _ => True.intro

theorem expect_gets (s : Symbol) : Gets (expect s) fun _ => True :=
  (eat_gets s).bind fun _ _ => .ite (fun _ => .pure True.intro) fun _ => unexpected_yields

theorem expectWord_gets (name : String) : Gets (expectWord name) fun _ => True :=
  (eatWord_gets name).bind fun _ _ => .ite (fun _ => .pure True.intro) fun _ => unexpected_yields

/-! ## Repetition -/

theorem manyUpTo_gets {item : Parser (Option α)} (h : Gets item fun o => ∀ a, o = some a → S a)
    (fuel : Nat) : Gets (manyUpTo item fuel) fun as => ∀ a ∈ as, S a := by
  induction fuel with
  | zero => exact unexpected_yields
  | succ fuel ih =>
    refine h.bind fun o ho => ?_
    cases o with
    | none => exact .pure nofun
    | some a => exact ih.bind fun as has => .pure (List.forall_mem_cons.2 ⟨ho a rfl, has⟩)

theorem many_gets {item : Parser (Option α)} (h : Gets item fun o => ∀ a, o = some a → S a) :
    Gets (many item) fun as => ∀ a ∈ as, S a :=
  .get_bind fun _ => manyUpTo_gets h _

theorem many_yields {item : Parser (Option α)}
    (hfirst : Yields P item fun o _ => ∃ a, o = some a ∧ S a)
    (h : Gets item fun o => ∀ a, o = some a → S a) :
    Yields P (many item) fun as _ => as ≠ [] ∧ ∀ a ∈ as, S a := by
  intro i as j hi hP heq
  refine (Yields.bind hfirst fun o => .assume fun ho => ?_ :
    Yields P (manyUpTo item (i.rest.length + 1)) fun as _ => as ≠ [] ∧ ∀ a ∈ as, S a)
      i as j hi hP heq
  obtain ⟨a, rfl, ha⟩ := ho
  exact (manyUpTo_gets h _).bind fun as has =>
    .pure ⟨List.cons_ne_nil a as, List.forall_mem_cons.2 ⟨ha, has⟩⟩

theorem iterateUpTo_gets {σ : Type} {U : σ → Prop} {step : σ → Parser (σ ⊕ α)}
    (h : ∀ s, U s → Gets (step s) (Sum.elim U S)) (fuel : Nat) {s : σ} (hs : U s) :
    Gets (iterateUpTo step fuel s) S := by
  induction fuel generalizing s with
  | zero => exact unexpected_yields
  | succ fuel ih =>
    refine (h s hs).bind fun a ha => ?_
    cases a with
    | inl s => exact ih ha
    | inr a => exact .pure ha

theorem iterate_gets {σ : Type} {U : σ → Prop} {step : σ → Parser (σ ⊕ α)}
    (h : ∀ s, U s → Gets (step s) (Sum.elim U S)) {s : σ} (hs : U s) : Gets (iterate step s) S :=
  .get_bind fun _ => iterateUpTo_gets h _ hs

theorem commaList_gets (close : Symbol) (h : Gets p S) :
    Gets (commaList close p) fun as => ∀ a ∈ as, S a := by
  refine many_gets ((check_gets close).bind fun _ _ => .ite (fun _ => .pure nofun) fun _ => ?_)
  refine h.bind fun a ha => (check_gets close).bind fun _ _ => ?_
  have hsome : ∀ b, some a = some b → S b := by
    rintro _ ⟨⟩
    exact ha
  exact .ite (fun _ => .pure hsome) fun _ => (expect_gets .comma).bind fun _ _ => .pure hsome

theorem bracketed_gets (opening close : Symbol) (h : Gets p S) :
    Gets (bracketed opening close p) fun as => ∀ a ∈ as, S a :=
  (expect_gets opening).bind fun _ _ => (commaList_gets close h).bind fun _ has =>
    (expect_gets close).bind fun _ _ => .pure has

theorem link_gets (budget : Nat) {next : Nat → Parser α}
    (h : ∀ b, b + linkCost = budget → Gets (next b) S) : Gets (link budget next) S :=
  .ite (fun _ => fail_yields) fun henough => h _ (Nat.sub_add_cancel (Nat.le_of_not_lt henough))

end Parser

end WidgetLint.Script
