import WidgetLint.Proofs.Printing.Yields
import WidgetLint.Proofs.Script.Places
import WidgetLint.Proofs.Spans.Keys

/-!
# What was read since a place

`Laid text base moved ps i` says of a reader's input `i`: since the place `base` the parts `ps` were
read, one behind the other and each of them well nested and keyed, the last of them up to `i`. If `moved`
holds, at least one token was read; otherwise `base` may still be where the current token starts.

A reader that adds parts to those before passes this on (`Lays`, and `Adds` for one that may read
nothing). A node is opened where the current token starts (`lays_here`) and closed where the last
one ends (`spanFrom_laid`): what was read since then are its direct parts.
-/

namespace WidgetLint.Script

open Text

/-! ## Tokens in order -/

/-- The tokens to be read are some of a text and stand there one behind the other, from where the last
one ended. -/
structure Input.Ordered (text : List Char) (i : Input) : Prop where
  tokens : ∀ t ∈ i.rest, t.Of text
  prevEnd : PlaceOf text i.prevEnd
  rest : ∀ t ∈ i.rest, t.Within (PlaceOf text)
  last : i.last.Within (PlaceOf text)
  order : Successive i.prevEnd.offset (i.rest.map fun t => .name t.span) i.last.span.start.offset
  stop : i.last.span.stop.offset = i.last.span.start.offset
  atEnd : i.last.body = .eof

namespace Input.Ordered
variable {text : List Char} {i : Input}

theorem current_within (h : i.Ordered text) : i.current.Within (PlaceOf text) := by
  obtain ⟨rest, last, prevEnd⟩ := i
  cases rest with
  | nil => exact h.last
  | cons t rest => exact h.rest t (by simp)

theorem le_current (h : i.Ordered text) : i.prevEnd.offset ≤ i.current.span.start.offset := by
  obtain ⟨rest, last, prevEnd⟩ := i
  cases rest with
  | nil => exact h.order
  | cons t rest => exact h.order.1

theorem current_lt (h : i.Ordered text) (hbody : i.current.body ≠ .eof) :
    i.current.span.start.offset < i.current.span.stop.offset := by
  obtain ⟨rest, last, prevEnd⟩ := i
  cases rest with
  | nil => exact absurd h.atEnd hbody
  | cons t rest => exact h.order.2.1

theorem le_advance (h : i.Ordered text) : i.prevEnd.offset ≤ i.advance.prevEnd.offset := by
  obtain ⟨rest, last, prevEnd⟩ := i
  cases rest with
  | nil => exact Nat.le_trans h.order (Nat.le_of_eq h.stop.symm)
  | cons t rest => exact Nat.le_trans h.order.1 (Nat.le_of_lt h.order.2.1)

theorem advance (h : i.Ordered text) : i.advance.Ordered text := by
  obtain ⟨rest, last, prevEnd⟩ := i
  cases rest with
  | nil => exact ⟨h.tokens, h.last.2, h.rest, h.last, Nat.le_of_eq h.stop, h.stop, h.atEnd⟩
  | cons t rest =>
    obtain ⟨ht, hrest⟩ := List.forall_mem_cons.1 h.rest
    exact ⟨(List.forall_mem_cons.1 h.tokens).2, ht.2, hrest, h.last, h.order.2.2, h.stop, h.atEnd⟩

theorem current_of (h : i.Ordered text) (hbody : i.current.body ≠ .eof) : i.current.Of text := by
  obtain ⟨rest, last, prevEnd⟩ := i
  cases rest with
  | nil => exact absurd h.atEnd hbody
  | cons t rest => exact h.tokens t (by simp)

end Input.Ordered

/-! ## What was read -/

/-- Since a place some parts were read, one behind the other; at least one token was read, or no one
need have been. -/
structure Laid (text : List Char) (base : Position) (moved : Bool) (ps : List Part) (i : Input) :
    Prop where
  ordered : i.Ordered text
  place : PlaceOf text base
  nested : ∀ p ∈ ps, p.WellNested text
  keyed : ∀ p ∈ ps, p.Keyed text
  order : base.offset < i.prevEnd.offset ∧ Successive base.offset ps i.prevEnd.offset ∨
    moved = false ∧ ps = [] ∧ base = i.current.span.start

namespace Laid
variable {text : List Char} {base start : Position} {moved : Bool} {ps qs : List Part}
  {i j : Input} {p : Part}

theorem moved_order (h : Laid text base true ps i) :
    base.offset < i.prevEnd.offset ∧ Successive base.offset ps i.prevEnd.offset :=
  h.order.elim id fun h => absurd h.1 Bool.true_eq_false.mp

theorem weaken (h : Laid text base true ps i) : Laid text base moved ps i :=
  ⟨h.ordered, h.place, h.nested, h.keyed, .inl h.moved_order⟩

theorem opening (h : i.Ordered text) : Laid text i.current.span.start false [] i :=
  ⟨h, h.current_within.1, by simp, by simp, .inr ⟨rfl, rfl, rfl⟩⟩

/-- What was read so far lies before the current token. -/
theorem before (h : Laid text base moved ps i) : base.offset ≤ i.current.span.start.offset ∧
    Successive base.offset ps i.current.span.start.offset := by
  rcases h.order with ⟨hlt, hps⟩ | ⟨-, rfl, rfl⟩
  · exact ⟨hlt.le.trans h.ordered.le_current, hps.extend h.ordered.le_current⟩
  · exact ⟨Nat.le_refl _, Nat.le_refl _⟩

/-- What was read since the current token follows what was read before it. -/
theorem append (h : Laid text base moved ps i)
    (hqs : Laid text i.current.span.start true qs j) : Laid text base true (ps ++ qs) j := by
  obtain ⟨hbase, hps⟩ := h.before
  obtain ⟨hlt, horder⟩ := hqs.moved_order
  exact ⟨hqs.ordered, h.place, List.forall_mem_append.2 ⟨h.nested, hqs.nested⟩,
    List.forall_mem_append.2 ⟨h.keyed, hqs.keyed⟩, .inl ⟨hbase.trans_lt hlt, hps.append horder⟩⟩

theorem advance_nonempty (h : Laid text base moved ps i)
    (hlt : i.current.span.start.offset < i.current.span.stop.offset) :
    Laid text base true ps i.advance := by
  obtain ⟨hbase, hps⟩ := h.before
  have hlt : i.current.span.start.offset < i.advance.prevEnd.offset := hlt
  exact ⟨h.ordered.advance, h.place, h.nested, h.keyed,
    .inl ⟨hbase.trans_lt hlt, hps.extend hlt.le⟩⟩

theorem advance_token (h : Laid text base moved ps i) (hbody : i.current.body ≠ .eof) :
    Laid text base true ps i.advance :=
  h.advance_nonempty (h.ordered.current_lt hbody)

theorem advance (h : Laid text base moved ps i) : Laid text base moved ps i.advance := by
  obtain ⟨rest, last, prevEnd⟩ := i
  cases rest with
  | nil =>
    have hle := h.ordered.le_advance
    refine ⟨h.ordered.advance, h.place, h.nested, h.keyed, h.order.imp (fun horder => ?_) id⟩
    exact ⟨horder.1.trans_le hle, horder.2.extend hle⟩
  | cons t rest => exact (h.advance_nonempty h.ordered.order.2.1).weaken

/-- What was read since a place are the direct parts of what is closed now. -/
theorem close (h : Laid text start true ps i) (hspan : p.span = ⟨start, i.prevEnd⟩)
    (hparts : p.parts = ps) (hkey : p.KeyedAt text start) : Laid text start true [p] i := by
  obtain ⟨hlt, hps⟩ := h.moved_order
  have hnested : p.WellNested text := by
    refine Part.wellNested_of_successive ?_ ?_ ?_ ?_ (hparts ▸ h.nested)
    · rw [hspan]
      exact h.place
    · rw [hspan]
      exact h.ordered.prevEnd
    · rwa [hspan]
    · rwa [hspan, hparts]
  have hkeyed : p.Keyed text := .mk (by rwa [hspan]) (hparts ▸ h.keyed)
  refine ⟨h.ordered, h.place, by simpa using hnested, by simpa using hkeyed, .inl ⟨hlt, ?_⟩⟩
  rw [Successive, hspan]
  exact ⟨Nat.le_refl _, hlt, Nat.le_refl _⟩

end Laid

namespace Parser

section
variable {text : List Char} {α β : Type} {base start : Position} {moved : Bool} {ps : List Part}
  {p : Parser α} {k : α → Parser β} {f : α → List Part} {P : Input → Prop} {R : β → Input → Prop}

/-! ## Readers that add parts -/

/-- The reader takes at least one token and adds parts to those before. -/
def Lays (text : List Char) (p : Parser α) (f : α → List Part) : Prop :=
  ∀ base moved ps, Yields (Laid text base moved ps) p fun a => Laid text base true (ps ++ f a)

/-- The reader may take tokens and adds parts to those before. -/
def Adds (text : List Char) (p : Parser α) (f : α → List Part) : Prop :=
  ∀ base moved ps, Yields (Laid text base moved ps) p fun a => Laid text base moved (ps ++ f a)

theorem Lays.then (h : Lays text p f)
    (hk : ∀ a, Yields (Laid text base true (ps ++ f a)) (k a) R) :
    Yields (Laid text base moved ps) (p >>= k) R :=
  (h base moved ps).bind hk

theorem Adds.then (h : Adds text p f)
    (hk : ∀ a, Yields (Laid text base moved (ps ++ f a)) (k a) R) :
    Yields (Laid text base moved ps) (p >>= k) R :=
  (h base moved ps).bind hk

theorem Yields.left {Q : Input → Prop} {S : α → Input → Prop} (h : Yields P p S) :
    Yields (fun i => P i ∧ Q i) p S :=
  h.from fun _ h => h.1

/-! ## Single tokens -/

theorem ne_eof_of_isSymbol {t : Token} {s : Symbol} (h : t.isSymbol s = true) : t.body ≠ .eof := by
  rw [Token.isSymbol, beq_iff_eq] at h
  simp [h]

theorem ne_eof_of_isWord {t : Token} {name : String} (h : t.isWord name = true) :
    t.body ≠ .eof := by
  rw [Token.isWord, beq_iff_eq] at h
  simp [h]

theorem peek_then {k : Token → Parser β}
    (h : ∀ t, Yields (fun i => P i ∧ t = i.current) (k t) R) : Yields P (peek >>= k) R :=
  peek_yields.bind fun t => (h t).from fun _ hi => ⟨hi.2.2, hi.1⟩

theorem peek_again {t : Token} {k : Token → Parser β}
    (h : Yields (fun i => P i ∧ t = i.current) (k t) R) :
    Yields (fun i => P i ∧ t = i.current) (peek >>= k) R := by
  rintro i b j hi ⟨hP, rfl⟩ heq
  exact h i b j hi ⟨hP, rfl⟩ heq

theorem peekSecond_then {k : Token → Parser β} (h : ∀ t, Yields P (k t) R) :
    Yields P (peekSecond >>= k) R :=
  fun i b j hi hP heq => h (i.ahead 1) i b j hi hP heq

theorem advance_laid : Yields (Laid text base moved ps) advance fun _ => Laid text base moved ps :=
  fun _ _ _ hi h heq => by cases heq; exact ⟨hi.advance, h.advance⟩

theorem advance_token : Yields (fun i => Laid text base moved ps i ∧ i.current.body ≠ .eof)
    advance fun _ => Laid text base true ps :=
  fun _ _ _ hi h heq => by cases heq; exact ⟨hi.advance, h.1.advance_token h.2⟩

theorem advance_peeked {t : Token} (hbody : t.body ≠ .eof) :
    Yields (fun i => Laid text base moved ps i ∧ t = i.current) advance
      fun _ => Laid text base true ps :=
  advance_token.from fun _ h => ⟨h.1, h.2 ▸ hbody⟩

section
variable {yes no : Parser β}

theorem check_ite {s : Symbol} (hyes : Yields (fun i => P i ∧ i.current.isSymbol s = true) yes R)
    (hno : Yields P no R) : Yields P (check s >>= fun b => if b = true then yes else no) R :=
  (check_yields s).bind fun _ => .ite (fun hb => hyes.from fun _ h => ⟨h.2, h.1.symm.trans hb⟩)
    fun _ => hno.from fun _ h => h.2

theorem checkWord_ite {name : String}
    (hyes : Yields (fun i => P i ∧ i.current.isWord name = true) yes R) (hno : Yields P no R) :
    Yields P (checkWord name >>= fun b => if b = true then yes else no) R :=
  (checkWord_yields name).bind fun _ => .ite (fun hb => hyes.from fun _ h => ⟨h.2, h.1.symm.trans hb⟩)
    fun _ => hno.from fun _ h => h.2

theorem atEnd_ite (hyes : Yields P yes R) (hno : Yields P no R) :
    Yields P (atEnd >>= fun b => if b = true then yes else no) R :=
  Yields.bind (peek_yields.bind fun _ => .pure fun _ h => h.2.2 : Yields P atEnd fun _ => P)
    fun _ => .ite (fun _ => hyes) fun _ => hno

/-- If a token was read where it is there, something was read; otherwise nothing has changed. -/
theorem eat_unless (s : Symbol) (hP : ∀ i, P i → Laid text base moved ps i) :
    Yields P (eat s) fun b i => (b = true → Laid text base true ps i) ∧ (b = false → P i) := by
  refine check_ite ?_ (.pure fun i h => ⟨by simp, fun _ => h⟩)
  exact (advance_token.from fun i h => ⟨hP i h.1, ne_eof_of_isSymbol h.2⟩).bind fun _ =>
    .pure fun i h => ⟨fun _ => h, by simp⟩

theorem eat_laid (s : Symbol) : Yields (Laid text base moved ps) (eat s) fun b i =>
    (b = true → Laid text base true ps i) ∧ Laid text base moved ps i := by
  refine (eat_unless s fun _ h => h).imp fun b i h => ⟨h.1, ?_⟩
  cases b with
  | false => exact h.2 rfl
  | true => exact (h.1 rfl).weaken

theorem eatWord_laid (name : String) : Yields (Laid text base moved ps) (eatWord name) fun b i =>
    (b = true → Laid text base true ps i) ∧ Laid text base moved ps i := by
  refine checkWord_ite ?_ (.pure fun i h => ⟨by simp, h⟩)
  exact (advance_token.from fun i h => ⟨h.1, ne_eof_of_isWord h.2⟩).bind fun _ =>
    .pure fun i h => ⟨fun _ => h, h.weaken⟩

theorem eat_stays (s : Symbol) :
    Yields (Laid text base moved ps) (eat s) fun _ => Laid text base moved ps :=
  (eat_laid s).imp fun _ _ h => h.2

theorem eat_ite {s : Symbol} (hyes : Yields (Laid text base true ps) yes R)
    (hno : Yields (Laid text base moved ps) no R) :
    Yields (Laid text base moved ps) (eat s >>= fun b => if b = true then yes else no) R :=
  (eat_laid s).bind fun _ => .ite (fun hb => hyes.from fun _ h => h.1 hb)
    fun _ => hno.from fun _ h => h.2

theorem eatWord_ite {name : String} (hyes : Yields (Laid text base true ps) yes R)
    (hno : Yields (Laid text base moved ps) no R) :
    Yields (Laid text base moved ps) (eatWord name >>= fun b => if b = true then yes else no) R :=
  (eatWord_laid name).bind fun _ => .ite (fun hb => hyes.from fun _ h => h.1 hb)
    fun _ => hno.from fun _ h => h.2

end

theorem expect_laid (s : Symbol) :
    Yields (Laid text base moved ps) (expect s) fun _ => Laid text base true ps :=
  eat_ite (.pure fun _ h => h) unexpected_yields

theorem expectWord_laid (name : String) :
    Yields (Laid text base moved ps) (expectWord name) fun _ => Laid text base true ps :=
  eatWord_ite (.pure fun _ h => h) unexpected_yields

/-! ## Nodes -/

theorem here_opens {k : Position → Parser α}
    (h : ∀ start, Yields (fun i => Laid text start false [] i ∧ P i) (k start) fun a =>
      Laid text start true (f a)) :
    Yields (fun i => Laid text base moved ps i ∧ P i) (here >>= k) fun a =>
      Laid text base true (ps ++ f a) := by
  intro i a j hi hP heq
  obtain ⟨hj, hlaid⟩ := h _ i a j hi ⟨.opening hP.1.ordered, hP.2⟩ heq
  exact ⟨hj, hP.1.append hlaid⟩

theorem lays_here {k : Position → Parser α} (h : ∀ start, Yields (Laid text start false []) (k start)
    fun a => Laid text start true (f a)) : Lays text (here >>= k) f := by
  intro base moved ps
  exact (here_opens (P := fun _ => True) fun start => (h start).left).from fun _ h => ⟨h, True.intro⟩

theorem lays_at {k : Position → Parser α} (h : ∀ start, Yields
    (fun i => Laid text start false [] i ∧ i.current.span.start = start) (k start)
    fun a => Laid text start true (f a)) : Lays text (here >>= k) f := by
  intro base moved ps i a j hi hP heq
  obtain ⟨hj, hlaid⟩ := h _ i a j hi ⟨.opening hP.ordered, rfl⟩ heq
  exact ⟨hj, hP.append hlaid⟩

theorem spanFrom_laid : Yields (Laid text start true ps) (spanFrom start) fun s i =>
    ∀ p : Part, p.span = s → p.parts = ps → p.KeyedAt text start → Laid text start true [p] i :=
  fun i _ _ hi h heq => by cases heq; exact ⟨hi, fun _ => h.close⟩

/-! ## Repetition -/

/-- The reader adds the parts of an item, of which it takes at least one token, or finds no more. -/
def LaysItem (text : List Char) (item : Parser (Option α)) (f : α → List Part) : Prop :=
  ∀ base moved ps, Yields (Laid text base moved ps) item fun o i =>
    (∀ a, o = some a → Laid text base true (ps ++ f a) i) ∧
      (o = none → Laid text base moved ps i)

theorem manyUpTo_adds {item : Parser (Option α)} (h : LaysItem text item f) (fuel : Nat) :
    Adds text (manyUpTo item fuel) (·.flatMap f) := by
  induction fuel with
  | zero => exact fun _ _ _ => unexpected_yields
  | succ fuel ih =>
    intro base moved ps
    refine (h base moved ps).bind fun o => ?_
    cases o with
    | none => exact .pure fun i h => by simpa using h.2 rfl
    | some a =>
      refine ((ih base true (ps ++ f a)).from fun i h => h.1 a rfl).bind fun as => .pure ?_
      intro i h
      change Laid text base moved (ps ++ (a :: as).flatMap f) i
      rw [List.flatMap_cons, ← List.append_assoc]
      exact h.weaken

theorem many_adds {item : Parser (Option α)} (h : LaysItem text item f) :
    Adds text (many item) (·.flatMap f) :=
  fun base moved ps i as j hi hP heq => manyUpTo_adds h _ base moved ps i as j hi hP heq

theorem iterate_laid {σ : Type} {g : σ → List Part} {step : σ → Parser (σ ⊕ α)}
    (h : ∀ s, Yields (Laid text base true (g s)) (step s) fun next =>
      Laid text base true (next.elim g f)) (s : σ) :
    Yields (Laid text base true (g s)) (iterate step s) fun a => Laid text base true (f a) := by
  have hfuel (fuel : Nat) : ∀ s, Yields (Laid text base true (g s)) (iterateUpTo step fuel s)
      fun a => Laid text base true (f a) := by
    induction fuel with
    | zero => exact fun _ => unexpected_yields
    | succ fuel ih =>
      intro s
      refine (h s).bind fun next => ?_
      cases next with
      | inl s => exact ih s
      | inr a => exact .pure fun _ h => h
  exact fun i a j hi hP heq => hfuel _ s i a j hi hP heq

theorem commaList_adds (close : Symbol) (h : Lays text p f) :
    Adds text (commaList close p) (·.flatMap f) := by
  refine many_adds fun base moved ps => ?_
  refine check_ite (.pure fun _ h => ⟨by simp, fun _ => h.1⟩) (h.then fun a => ?_)
  have hdone : Yields (Laid text base true (ps ++ f a)) (pure (some a)) fun o i =>
      (∀ b, o = some b → Laid text base true (ps ++ f b) i) ∧
        (o = none → Laid text base moved ps i) :=
    .pure fun i h => ⟨fun b hb => by cases hb; exact h, by simp⟩
  exact check_ite hdone.left ((expect_laid .comma).bind fun _ => hdone)

theorem bracketed_lays (opening close : Symbol) (h : Lays text p f) :
    Lays text (bracketed opening close p) (·.flatMap f) :=
  fun _ _ _ => (expect_laid opening).bind fun _ => (commaList_adds close h).then fun _ =>
    (expect_laid close).bind fun _ => .pure fun _ h => h

theorem bracketed_lays_each {g : α → Part} (opening close : Symbol)
    (h : Lays text p fun a => [g a]) : Lays text (bracketed opening close p) (·.map g) := by
  simpa only [List.map_eq_flatMap] using bracketed_lays opening close h

theorem many_adds_each {g : α → Part} {item : Parser (Option α)}
    (h : LaysItem text item fun a => [g a]) : Adds text (many item) (·.map g) := by
  simpa only [List.map_eq_flatMap] using many_adds h

theorem link_laid {Q : α → Input → Prop} (budget : Nat) {next : Nat → Parser α}
    (h : ∀ b, Yields P (next b) Q) : Yields P (link budget next) Q :=
  .ite (fun _ => fail_yields) fun _ => h _

end

end Parser

end WidgetLint.Script
