import WidgetLint.Proofs.Script.Relabel

/-!
# Readers do not look at positions

A reader of tokens copies positions from the tokens into what it returns and never compares or
computes with them, and it looks at the spelling of a token only to complain about it. So if the
positions and the spellings of the input are replaced by `f`, the reader takes the same tokens,
fails for the same cause, and returns the same trees with their positions replaced by `f`.

`Alike f R p q` says this of two readers `p` and `q` whose results are related by `R`. Here are the
rules by which it passes from parts to wholes, and the readers of single tokens and of repetitions.
-/

namespace WidgetLint.Script.Parser

open Text

variable {f : Respelling} {α β : Type} {R : α → α → Prop} {S : β → β → Prop}

/-- The outcomes of two runs, the second on a respelled input. -/
def Matches (f : Respelling) (R : α → α → Prop) :
    Except ScriptError (α × Input) → Except ScriptError (α × Input) → Prop
  | .ok (a, i), .ok (b, j) => R a b ∧ j = i.respell f
  | .error e, .error e' => e' = e.respell f
  | _, _ => False

/-- The second reader does on a respelled input what the first does on the input itself. -/
def Alike (f : Respelling) (R : α → α → Prop) (p q : Parser α) : Prop :=
  ∀ input, Matches f R (p input) (q (input.respell f))

/-- The second value is the image of the first. -/
def Image (g : α → α) (a b : α) : Prop :=
  b = g a

/-! ## Combining readers -/

theorem Alike.pure {a b : α} (h : R a b) : Alike f R (Pure.pure a) (Pure.pure b) :=
  fun _ => ⟨h, rfl⟩

theorem Alike.bind {p q : Parser α} {k l : α → Parser β} (h : Alike f R p q)
    (hk : ∀ a b, R a b → Alike f S (k a) (l b)) : Alike f S (p >>= k) (q >>= l) := by
  intro input
  have hp := h input
  show Matches f S ((p input).bind fun x => k x.1 x.2)
    ((q (input.respell f)).bind fun x => l x.1 x.2)
  match hr : p input, hs : q (input.respell f) with
  | .ok (a, i), .ok (b, j) =>
    rw [hr, hs] at hp
    obtain ⟨hab, rfl⟩ := hp
    exact hk a b hab i
  | .error e, .error e' =>
    rw [hr, hs] at hp
    exact hp
  | .ok _, .error _ => rw [hr, hs] at hp; exact hp.elim
  | .error _, .ok _ => rw [hr, hs] at hp; exact hp.elim

theorem Alike.andThen {g : α → α} {p q : Parser α} {k l : α → Parser β}
    (h : Alike f (Image g) p q) (hk : ∀ a, Alike f S (k a) (l (g a))) :
    Alike f S (p >>= k) (q >>= l) :=
  h.bind fun a b hab => by subst hab; exact hk a

theorem Alike.some {g : α → α} {p q : Parser α} (h : Alike f (Image g) p q) :
    Alike f (Image (Option.map g)) (Option.some <$> p) (Option.some <$> q) := by
  rw [map_eq_pure_bind, map_eq_pure_bind]
  exact h.andThen fun _ => .pure rfl

theorem Alike.ite {c : Prop} [Decidable c] {p p' q q' : Parser α} (ht : c → Alike f R p q)
    (he : ¬c → Alike f R p' q') :
    Alike f R (if c then p else p') (if c then q else q') := by
  split
  · exact ht ‹_›
  · exact he ‹_›

theorem alike_throw {e : ScriptError} :
    Alike f R (throw e : Parser α) (throw (e.respell f) : Parser α) :=
  fun _ => rfl

theorem Alike.get_bind {k l : Input → Parser α} (h : ∀ i, Alike f R (k i) (l (i.respell f))) :
    Alike f R (get >>= k) (get >>= l) :=
  fun input => h input input

/-! ## Single tokens -/

theorem peek_alike : Alike f (Image (Token.respell f)) peek peek :=
  fun input => ⟨Input.respell_current f input, rfl⟩

theorem peekSecond_alike : Alike f (Image (Token.respell f)) peekSecond peekSecond :=
  fun input => ⟨Input.respell_ahead f input 1, rfl⟩

theorem advance_alike : Alike f (Image id) advance advance :=
  fun input => ⟨rfl, Input.respell_advance f input⟩

theorem here_alike : Alike f (Image f.position) here here :=
  peek_alike.andThen fun _ => .pure rfl

theorem spanFrom_alike (start : Position) :
    Alike f (Image (Span.move f.position)) (spanFrom start) (spanFrom (f.position start)) :=
  fun _ => ⟨rfl, rfl⟩

theorem fail_alike {cause : Cause} : Alike f R (fail cause) (fail (cause.respell f)) :=
  here_alike.andThen fun _ => alike_throw

theorem unexpected_alike : Alike f R unexpected unexpected := by
  refine peek_alike.andThen fun t => ?_
  rw [Token.respell_complaint]
  exact alike_throw

theorem atEnd_alike : Alike f (Image id) atEnd atEnd :=
  peek_alike.andThen fun _ => .pure rfl

theorem check_alike (s : Symbol) : Alike f (Image id) (check s) (check s) :=
  peek_alike.andThen fun _ => .pure rfl

theorem checkWord_alike (name : String) : Alike f (Image id) (checkWord name) (checkWord name) :=
  peek_alike.andThen fun _ => .pure rfl

theorem eat_alike (s : Symbol) : Alike f (Image id) (eat s) (eat s) :=
  (check_alike s).andThen fun _ =>
    .ite (fun _ => advance_alike.andThen fun _ => .pure rfl) fun _ => .pure rfl

theorem eatWord_alike (name : String) : Alike f (Image id) (eatWord name) (eatWord name) :=
  (checkWord_alike name).andThen fun _ =>
    .ite (fun _ => advance_alike.andThen fun _ => .pure rfl) fun _ => .pure rfl

theorem expect_alike (s : Symbol) : Alike f (Image id) (expect s) (expect s) :=
  (eat_alike s).andThen fun _ => .ite (fun _ => .pure rfl) fun _ => unexpected_alike

theorem expectWord_alike (name : String) :
    Alike f (Image id) (expectWord name) (expectWord name) :=
  (eatWord_alike name).andThen fun _ => .ite (fun _ => .pure rfl) fun _ => unexpected_alike

/-! ## Repetition -/

theorem manyUpTo_alike {g : α → α} {item item' : Parser (Option α)}
    (h : Alike f (Image (Option.map g)) item item') (fuel : Nat) :
    Alike f (Image (List.map g)) (manyUpTo item fuel) (manyUpTo item' fuel) := by
  induction fuel with
  | zero => exact unexpected_alike
  | succ fuel ih =>
    refine h.andThen fun a => ?_
    cases a with
    | none => exact .pure rfl
    | some a => exact ih.andThen fun rest => .pure rfl

theorem many_alike {g : α → α} {item item' : Parser (Option α)}
    (h : Alike f (Image (Option.map g)) item item') :
    Alike f (Image (List.map g)) (many item) (many item') := by
  refine .get_bind fun i => ?_
  rw [Input.respell_rest_length]
  exact manyUpTo_alike h _

theorem iterateUpTo_alike {σ : Type} {g : α → α} {m : σ → σ} {step step' : σ → Parser (σ ⊕ α)}
    (h : ∀ s, Alike f (Image (Sum.map m g)) (step s) (step' (m s))) (fuel : Nat) (s : σ) :
    Alike f (Image g) (iterateUpTo step fuel s) (iterateUpTo step' fuel (m s)) := by
  induction fuel generalizing s with
  | zero => exact unexpected_alike
  | succ fuel ih =>
    refine (h s).andThen fun a => ?_
    cases a with
    | inl s => exact ih s
    | inr a => exact .pure rfl

theorem iterate_alike {σ : Type} {g : α → α} {m : σ → σ} {step step' : σ → Parser (σ ⊕ α)}
    (h : ∀ s, Alike f (Image (Sum.map m g)) (step s) (step' (m s))) (s : σ) :
    Alike f (Image g) (iterate step s) (iterate step' (m s)) := by
  refine .get_bind fun i => ?_
  rw [Input.respell_rest_length]
  exact iterateUpTo_alike h _ _

theorem commaList_alike {g : α → α} (close : Symbol) {item item' : Parser α}
    (h : Alike f (Image g) item item') :
    Alike f (Image (List.map g)) (commaList close item) (commaList close item') := by
  refine many_alike ((check_alike close).andThen fun _ => .ite (fun _ => .pure rfl) fun _ => ?_)
  refine h.andThen fun a => (check_alike close).andThen fun _ => .ite (fun _ => ?_) fun _ => ?_
  · exact .pure rfl
  · exact (expect_alike .comma).andThen fun _ => .pure rfl

theorem bracketed_alike {g : α → α} (opening close : Symbol) {item item' : Parser α}
    (h : Alike f (Image g) item item') :
    Alike f (Image (List.map g)) (bracketed opening close item) (bracketed opening close item') :=
  (expect_alike opening).andThen fun _ => (commaList_alike close h).andThen fun _ =>
    (expect_alike close).andThen fun _ => .pure rfl

theorem link_alike (budget : Nat) {next next' : Nat → Parser α}
    (h : ∀ b, Alike f R (next b) (next' b)) : Alike f R (link budget next) (link budget next') :=
  .ite (fun _ => fail_alike) fun _ => h _

end WidgetLint.Script.Parser
