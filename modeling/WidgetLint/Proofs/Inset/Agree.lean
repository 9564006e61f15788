import WidgetLint.Script.Parser.Basic
import WidgetLint.Script.Parser.Expr

/-!
# Readers inside a larger text

A value is read alone, up to the end of its text, and as a part of a larger text, where a comma or a
closing brace follows it; statements are read in a larger text where a semicolon follows them.
`Agree` compares two readers, the first of which reads alone: it passes over tokens whose brackets
match, and the second one finds the same there and goes just as far, unless it may spend less and
its budget is spent.

A reader that stops only at the end of the text may be misled by what follows in the larger one: a
comma goes on with a list. So what the second reader finds is known for all readers as long as the
first one stops before the end, and for some (`ends`) wherever it stops.
-/

namespace WidgetLint.Script.Parser

open Text

/-! ## Brackets -/

/-- What a token does to the number of open brackets. -/
inductive Bracket where
  | opening
  | closing
  | none
deriving DecidableEq

/-- What a token with this body does to the number of open brackets. -/
def bracket : TokenBody → Bracket
  | .symbol .lparen | .symbol .lbracket | .symbol .lbrace => .opening
  | .symbol .rparen | .symbol .rbracket | .symbol .rbrace => .closing
  | _ => .none

/-- After such a token `n` brackets are open, if `m` are open before it. -/
def Bracket.Shift (m n : Nat) : Bracket → Prop
  | .opening => n = m + 1
  | .closing => m = n + 1
  | .none => n = m

/-- After the tokens `n` brackets are open, if `m` are open before them, and all brackets around
stay open. -/
def Shifts (m n : Nat) (ts : List Token) : Prop :=
  ∀ d us, afterClose (d + 1 + m) (ts ++ us) = afterClose (d + 1 + n) us

/-- Every parenthesis that is opened is closed. -/
def AllClosed (ts : List Token) : Prop :=
  ∀ us t vs, ts = us ++ t :: vs → t.isSymbol .lparen = true → (afterClose 1 vs).isSome

section
variable {m n r d : Nat} {t : Token} {ts us vs : List Token}

theorem afterClose_cons : afterClose d (t :: ts) =
    match bracket t.body with
    | .opening => afterClose (d + 1) ts
    | .closing => if d ≤ 1 then some ts else afterClose (d - 1) ts
    | .none => afterClose d ts := by
  rw [afterClose]
  cases t.body with
  | symbol s => cases s <;> rfl
  | _ => rfl

theorem shifts_nil : Shifts m m [] :=
  fun _ _ => rfl

theorem Shifts.append (ht : Shifts m n ts) (hu : Shifts n r us) : Shifts m r (ts ++ us) := by
  intro d vs
  rw [List.append_assoc, ht, hu]

theorem shifts_singleton (h : (bracket t.body).Shift m n) : Shifts m n [t] := by
  intro d us
  rw [List.singleton_append, afterClose_cons]
  cases hbracket : bracket t.body with
  | opening =>
    rw [hbracket] at h
    obtain rfl : n = m + 1 := h
    rfl
  | closing =>
    rw [hbracket] at h
    obtain rfl : m = n + 1 := h
    exact if_neg (by omega)
  | none =>
    rw [hbracket] at h
    obtain rfl : n = m := h
    rfl

theorem afterClose_append (h : afterClose d ts = some us) :
    afterClose d (ts ++ vs) = some (us ++ vs) := by
  induction ts generalizing d with
  | nil => cases h
  | cons t ts ih =>
    rw [afterClose_cons] at h
    rw [List.cons_append, afterClose_cons]
    cases hbracket : bracket t.body with
    | opening =>
      rw [hbracket] at h
      exact ih h
    | closing =>
      rw [hbracket] at h
      dsimp only at h ⊢
      by_cases hd : d ≤ 1
      · rw [if_pos hd] at h ⊢
        cases h
        rfl
      · rw [if_neg hd] at h ⊢
        exact ih h
    | none =>
      rw [hbracket] at h
      exact ih h

/-- If a bracket is not closed, some are open at the end, whatever is open around it. -/
theorem afterClose_eq_none (h : afterClose (d + 1) ts = none) :
    ∃ e, ∀ k us, afterClose (d + 1 + k) (ts ++ us) = afterClose (e + 1 + k) us := by
  induction ts generalizing d with
  | nil => exact ⟨d, fun _ _ => rfl⟩
  | cons t ts ih =>
    rw [afterClose_cons] at h
    simp only [List.cons_append, afterClose_cons]
    cases hbracket : bracket t.body with
    | opening =>
      rw [hbracket] at h
      obtain ⟨e, he⟩ := ih h
      refine ⟨e, fun k us => ?_⟩
      dsimp only
      rw [show d + 1 + k + 1 = d + 1 + 1 + k by omega, he]
    | closing =>
      rw [hbracket] at h
      dsimp only at h ⊢
      by_cases hd : d + 1 ≤ 1
      · rw [if_pos hd] at h
        cases h
      · obtain ⟨d, rfl⟩ : ∃ d', d = d' + 1 := ⟨d - 1, by omega⟩
        rw [if_neg hd] at h
        obtain ⟨e, he⟩ := ih h
        refine ⟨e, fun k us => ?_⟩
        rw [if_neg (by omega), show d + 1 + 1 + k - 1 = d + 1 + k by omega, he]
    | none =>
      rw [hbracket] at h
      exact ih h

/-- **In tokens whose brackets match every parenthesis is closed.** -/
theorem Shifts.allClosed (h : Shifts 0 0 ts) : AllClosed ts := by
  rintro us t vs rfl ht
  have hopening : bracket t.body = .opening := by
    rw [(beq_iff_eq.1 ht : t.body = .symbol .lparen)]
    rfl
  cases hclose : afterClose 1 vs with
  | some rest => rfl
  | none =>
    obtain ⟨e, hinner⟩ := afterClose_eq_none (d := 0) hclose
    cases houter : afterClose 1 us with
    | some rest =>
      -- a bracket around the tokens would be closed in them
      have hwhole := h 0 []
      rw [List.append_nil, afterClose_append houter] at hwhole
      cases hwhole
    | none =>
      -- at least two brackets are open at the end, so one more bracket does not close the outer one
      obtain ⟨e', houter⟩ := afterClose_eq_none (d := 0) houter
      let close : Token := { t with body := .symbol .rparen }
      have hwhole := h 0 [close]
      have hdeep : afterClose 1 (us ++ t :: vs ++ [close]) = none := by
        have hfirst := houter 0 (t :: (vs ++ [close]))
        rw [afterClose_cons, hopening] at hfirst
        have hlast := hinner (e' + 1) [close]
        rw [List.append_assoc, List.cons_append]
        refine hfirst.trans ?_
        rw [show e' + 1 + 0 + 1 = 0 + 1 + (e' + 1) by omega, hlast, afterClose_cons]
        exact if_neg (by omega)
      rw [hdeep] at hwhole
      cases hwhole

theorem AllClosed.of_append (h : AllClosed (us ++ ts)) : AllClosed ts := by
  rintro vs t ws rfl ht
  exact h (us ++ vs) t ws (List.append_assoc _ _ _).symm ht

end

/-! ## A text inside a larger one -/

/-- The punctuators that may follow a text in a larger one. -/
def followers : List Symbol := [.comma, .rbrace, .semicolon]

/-- What follows a text in a larger one: the token for its end when it is read alone, and what
stands there instead in the larger text. In the larger text a budget may be spent that is not when
the text is read alone (`poorer`). -/
structure Inset where
  last : Token
  next : Token
  after : List Token
  final : Token
  eof : last.body = .eof
  follows : ∃ s ∈ followers, next.body = .symbol s
  start : next.span.start = last.span.start
  poorer : Prop

def Inset.put (c : Inset) (i : Input) : Input :=
  ⟨i.rest ++ c.next :: c.after, c.final, i.prevEnd⟩

def Inset.past (c : Inset) : Input :=
  ⟨c.after, c.final, c.next.span.stop⟩

/-- An input of the text alone. Its tokens have no places: each ends where the one that follows
does. -/
structure Inset.Fits (c : Inset) (i : Input) : Prop where
  last : i.last = c.last
  stop : ∀ t ∈ i.rest, t.span.stop = c.next.span.stop
  prevEnd : i.prevEnd = c.next.span.stop

/-- The budgets with which a text is read alone and in the larger text. -/
def Inset.Budgets (c : Inset) (b b' : Nat) : Prop :=
  c.poorer ∨ b = b'

/-- Where a reader stops: before the end of its text, there at the latest, or there with a second
reader that may have passed what follows. -/
inductive Ending where
  | inner
  | whole
  | behind

def Ending.first : Ending → Ending
  | .inner => .inner
  | .whole | .behind => .whole

/-- What a second reader may leave if the first one leaves `j`. -/
def Inset.Lands (c : Inset) (ends : Ending) (j j' : Input) : Prop :=
  j' = c.put j ∨ ends = .behind ∧ j.rest = [] ∧ j' = c.past

/-- A reader returns something that has the property `S` and leaves what has the property `L`,
unless its budget may be spent and is. -/
def Finds {α : Type} (poorer : Prop) (p : Parser α) (i : Input) (S : α → Prop) (L : Input → Prop) :
    Prop :=
  (∃ a j, p i = .ok (a, j) ∧ S a ∧ L j) ∨
    poorer ∧ ∃ position, p i = .error ⟨.nestedTooDeep, position⟩

/-- Started where `P` holds and `m` brackets are open, the first reader returns what `Q` allows and
leaves `n` brackets open. The second reader finds the same up to `R` in the larger text, if the
first one stops where `ends` says. -/
def Agree {α : Type} (c : Inset) (ends : Ending) (P : Input → Prop) (m : Nat) (p q : Parser α)
    (R : α → α → Prop) (n : α → Nat) (Q : α → Input → Prop) : Prop :=
  ∀ i a j, c.Fits i → P i → p i = .ok (a, j) →
    c.Fits j ∧ Q a j ∧ (∃ ts, i.rest = ts ++ j.rest ∧ Shifts m (n a) ts) ∧
      (AllClosed i.rest → (ends = .inner → j.rest ≠ []) →
        Finds c.poorer q (c.put i) (R a) (c.Lands ends j))

/-- Two readers that find the same, after which as many brackets are open as before. -/
abbrev Keeps {α : Type} (c : Inset) (ends : Ending) (P : Input → Prop) (m : Nat) (p q : Parser α) :
    Prop :=
  Agree c ends P m p q Eq (fun _ => m) fun _ _ => True

section
variable {α β σ : Type} {c : Inset} {ends : Ending} {P : Input → Prop} {m : Nat} {p q : Parser α}
  {R : α → α → Prop} {n : α → Nat} {Q : α → Input → Prop} {k l : α → Parser β}
  {S : β → β → Prop} {r : β → Nat} {T : β → Input → Prop}

theorem Inset.Fits.current_nil {i : Input} (hi : c.Fits i) (h : i.rest = []) :
    i.current = c.last := by
  simp [Input.current, Input.ahead, h, hi.last]

theorem Inset.Fits.rest_ne {i : Input} (hi : c.Fits i) (h : i.current.body ≠ .eof) :
    i.rest ≠ [] := by
  intro hnil
  refine h ?_
  rw [hi.current_nil hnil, c.eof]

theorem Inset.Fits.rest_ne_of_isSymbol {i : Input} {s : Symbol} (hi : c.Fits i)
    (h : i.current.isSymbol s = true) : i.rest ≠ [] := by
  refine hi.rest_ne ?_
  rw [beq_iff_eq.1 h]
  simp

theorem Ending.first_eq_inner (h : ends.first = .inner) : ends = .inner := by
  cases ends with
  | inner => rfl
  | _ => cases h

theorem Ending.first_ne_behind : ends.first ≠ .behind := by
  cases ends <;> simp [first]

/-! ## Combining readers -/

theorem Agree.post {Q' : α → Input → Prop} (h : Agree c ends P m p q R n Q)
    (hQ : ∀ a i, Q a i → Q' a i) : Agree c ends P m p q R n Q' := by
  intro i a j hi hP hrun
  obtain ⟨hj, hQa, hrest⟩ := h i a j hi hP hrun
  exact ⟨hj, hQ a j hQa, hrest⟩

theorem Agree.pure {a b : α} (hR : R a b) (hn : n a = m) (hQ : ∀ i, P i → Q a i) :
    Agree c ends P m (Pure.pure a) (Pure.pure b) R n Q := by
  intro i a' j hi hP hrun
  cases hrun
  exact ⟨hi, hQ i hP, ⟨[], rfl, by rw [hn]; exact shifts_nil⟩,
    fun _ _ => .inl ⟨b, _, rfl, hR, .inl rfl⟩⟩

theorem Keeps.pure {a : α} : Keeps c ends P m (Pure.pure a) (Pure.pure a) :=
  Agree.pure rfl rfl fun _ _ => True.intro

theorem Agree.throw {e : ScriptError} : Agree c ends P m (throw e : Parser α) q R n Q :=
  fun _ _ _ _ _ hrun => nomatch hrun

theorem Agree.ite {b : Prop} [Decidable b] {p' q' : Parser α} (ht : b → Agree c ends P m p q R n Q)
    (he : ¬b → Agree c ends P m p' q' R n Q) :
    Agree c ends P m (if b then p else p') (if b then q else q') R n Q := by
  split
  · exact ht ‹_›
  · exact he ‹_›

theorem bind_ok {i : Input} {b : β} {j : Input} (h : (p >>= k) i = .ok (b, j)) :
    ∃ a mid, p i = .ok (a, mid) ∧ k a mid = .ok (b, j) := by
  change ((p i).bind fun x => k x.1 x.2) = .ok (b, j) at h
  cases hp : p i with
  | error e =>
    rw [hp] at h
    cases h
  | ok x =>
    rw [hp] at h
    exact ⟨x.1, x.2, rfl, h⟩

theorem Finds.bind {poorer : Prop} {i : Input} {S : α → Prop} {T : β → Prop} {L L' : Input → Prop}
    (h : Finds poorer p i S L) (hk : ∀ a j, S a → L j → Finds poorer (k a) j T L') :
    Finds poorer (p >>= k) i T L' := by
  have hbind : (p >>= k) i = (p i).bind fun x => k x.1 x.2 := rfl
  rcases h with ⟨a, mid, hrun, ha, hmid⟩ | ⟨hpoorer, position, hrun⟩
  · rcases hk a mid ha hmid with ⟨b, j, hnext, hb⟩ | ⟨hpoorer, position, hnext⟩
    · exact .inl ⟨b, j, by rw [hbind, hrun]; exact hnext, hb⟩
    · exact .inr ⟨hpoorer, position, by rw [hbind, hrun]; exact hnext⟩
  · exact .inr ⟨hpoorer, position, by rw [hbind, hrun]; rfl⟩

theorem Finds.imp {poorer : Prop} {i : Input} {S : α → Prop} {L L' : Input → Prop}
    (h : Finds poorer p i S L) (hL : ∀ j, L j → L' j) : Finds poorer p i S L' := by
  rcases h with ⟨a, j, hrun, ha, hj⟩ | hspent
  · exact .inl ⟨a, j, hrun, ha, hL j hj⟩
  · exact .inr hspent

/-- What is read first, if what follows it says where that ends. Behind the token that follows the
text, what comes then is looked at on its own. -/
theorem Agree.bindWith {first : Ending} (hR : ∀ a, R a a) (h : Agree c first P m p q R n Q)
    (hk : ∀ a b, R a b → Agree c ends (Q a) (n a) (k a) (l b) S r T)
    (hfirst : ∀ a i b j us, c.Fits i → Q a i → k a i = .ok (b, j) → i.rest = us ++ j.rest →
      (ends = .inner → j.rest ≠ []) → first = .inner → i.rest ≠ [])
    (hpast : first = .behind → ∀ a a' i b j, R a a' → c.Fits i → i.rest = [] →
      k a i = .ok (b, j) → Finds c.poorer (l a') c.past (S b) (c.Lands ends j)) :
    Agree c ends P m (p >>= k) (q >>= l) S r T := by
  intro i b j hi hP hrun
  obtain ⟨a, mid, hp, hka⟩ := bind_ok hrun
  obtain ⟨hmid, hQ, ⟨ts, hts, hshift⟩, hfinds⟩ := h i a mid hi hP hp
  obtain ⟨hj, hT, ⟨us, hus, hshift'⟩, -⟩ := hk a a (hR a) mid b j hmid hQ hka
  refine ⟨hj, hT, ⟨ts ++ us, by rw [hts, hus, List.append_assoc], hshift.append hshift'⟩, ?_⟩
  intro hclosed hends
  have hrest : AllClosed mid.rest := by
    rw [hts] at hclosed
    exact hclosed.of_append
  refine (hfinds hclosed (hfirst a mid b j us hmid hQ hka hus hends)).bind
    fun a' mid' ha' hlands => ?_
  rcases hlands with rfl | ⟨hbehind, hnil, rfl⟩
  · exact (hk a a' ha' mid b j hmid hQ hka).2.2.2 hrest hends
  · exact hpast hbehind a a' mid b j ha' hmid hnil hka

theorem rest_ne_of_append {i j : Input} {us : List Token} (hus : i.rest = us ++ j.rest)
    (hne : j.rest ≠ []) : i.rest ≠ [] := by
  rw [hus]
  simp [hne]

theorem rest_eq_nil {i j : Input} {us : List Token} (hus : i.rest = us ++ j.rest)
    (hbodies : ∀ t ∈ i.rest, t.body ≠ .eof) (hend : j.current.body = .eof) : j.rest = [] := by
  cases hrest : j.rest with
  | nil => rfl
  | cons t ts =>
    have hcurrent : j.current = t := by simp [Input.current, Input.ahead, hrest]
    rw [hcurrent] at hend
    exact absurd hend (hbodies t (by simp [hus, hrest]))

theorem Agree.bind (hR : ∀ a, R a a) (h : Agree c ends.first P m p q R n Q)
    (hk : ∀ a b, R a b → Agree c ends (Q a) (n a) (k a) (l b) S r T) :
    Agree c ends P m (p >>= k) (q >>= l) S r T :=
  h.bindWith hR hk
    (fun _ _ _ _ _ _ _ _ hus hends hinner =>
      rest_ne_of_append hus (hends (Ending.first_eq_inner hinner)))
    fun hbehind => absurd hbehind Ending.first_ne_behind

theorem Agree.andThen (h : Agree c ends.first P m p q Eq n Q)
    (hk : ∀ a, Agree c ends (Q a) (n a) (k a) (l a) S r T) :
    Agree c ends P m (p >>= k) (q >>= l) S r T :=
  h.bind (fun _ => rfl) fun a _ hab => hab ▸ hk a

/-- A reader that fails at the end of the text. -/
def Needs (c : Inset) (p : Parser α) : Prop :=
  ∀ i x, c.Fits i → i.rest = [] → p i ≠ .ok x

theorem Agree.within (h : Agree c .inner P m p q Eq n Q)
    (hrest : ∀ a i x, c.Fits i → Q a i → k a i = .ok x → i.rest ≠ [])
    (hk : ∀ a, Agree c ends (Q a) (n a) (k a) (l a) S r T) :
    Agree c ends P m (p >>= k) (q >>= l) S r T :=
  h.bindWith (fun _ => rfl) (fun a _ hab => hab ▸ hk a)
    (fun a i b j _ hi hQ hrun _ _ _ => hrest a i (b, j) hi hQ hrun) (by simp)

theorem Agree.before (h : Agree c .inner P m p q Eq n Q) (hneeds : ∀ a, Needs c (k a))
    (hk : ∀ a, Agree c ends (Q a) (n a) (k a) (l a) S r T) :
    Agree c ends P m (p >>= k) (q >>= l) S r T :=
  h.within (fun a i x hi _ hrun hnil => hneeds a i x hi hnil hrun) hk

/-- What is read last but for a reader that does the same at the end of the text and behind the
token that follows it. -/
theorem Agree.thenLook (h : Agree c ends P m p q Eq n Q)
    (hk : ∀ a, Agree c ends (Q a) (n a) (k a) (l a) S r T)
    (hpast : ends = .behind → ∀ a i b j, c.Fits i → i.rest = [] → k a i = .ok (b, j) →
      j = i ∧ Finds c.poorer (l a) c.past (S b) (· = c.past)) :
    Agree c ends P m (p >>= k) (q >>= l) S r T := by
  refine h.bindWith (fun _ => rfl) (fun a _ hab => hab ▸ hk a)
    (fun _ _ _ _ _ _ _ _ hus hends hinner => rest_ne_of_append hus (hends hinner)) ?_
  rintro rfl a _ i b j rfl hi hnil hrun
  obtain ⟨rfl, hfound⟩ := hpast rfl a i b j hi hnil hrun
  exact hfound.imp fun _ hpast => .inr ⟨rfl, hnil, hpast⟩

theorem Agree.thenPure {f : α → β} (h : Agree c ends P m p q Eq n Q) (hn : ∀ a, r (f a) = n a)
    (hQ : ∀ a i, Q a i → T (f a) i) :
    Agree c ends P m (do return f (← p)) (do return f (← q)) Eq r T := by
  refine h.thenLook (fun a => .pure rfl (hn a) (hQ a)) fun _ a i b j _ _ hrun => ?_
  cases hrun
  exact ⟨rfl, .inl ⟨_, _, rfl, rfl, rfl⟩⟩

theorem Keeps.then {f : α → β} (h : Keeps c ends P m p q) :
    Keeps c ends P m (do return f (← p)) (do return f (← q)) :=
  h.thenPure (fun _ => rfl) fun _ _ _ => True.intro

theorem Keeps.map {f : α → β} (h : Keeps c ends P m p q) :
    Keeps c ends P m (f <$> p) (f <$> q) := by
  rw [map_eq_pure_bind, map_eq_pure_bind]
  exact h.then

/-- What is read in the larger text as it is before the end, if it is known where the first reader
stops at the end. -/
theorem Agree.toEnd (h : Agree c .inner P m p q R n Q)
    (hend : ∀ i a j, c.Fits i → p i = .ok (a, j) → j.rest = [] →
      Finds c.poorer q (c.put i) (R a) (c.Lands ends j)) :
    Agree c ends P m p q R n Q := by
  intro i a j hi hP hrun
  obtain ⟨hj, hQ, hshift, hfinds⟩ := h i a j hi hP hrun
  refine ⟨hj, hQ, hshift, fun hclosed _ => ?_⟩
  by_cases hnil : j.rest = []
  · exact hend i a j hi hrun hnil
  · exact (hfinds hclosed fun _ => hnil).imp fun _ hlands =>
      hlands.imp_right fun h => absurd h.1 (by simp)

theorem Agree.opens (hneeds : Needs c p)
    (h : Agree c ends (fun i => P i ∧ i.rest ≠ []) m p q R n Q) : Agree c ends P m p q R n Q :=
  fun i a j hi hP hrun => h i a j hi ⟨hP, fun hnil => hneeds i (a, j) hi hnil hrun⟩ hrun

theorem Agree.spent (hpoorer : c.poorer) (h : Agree c ends P m p q R n Q) :
    Agree c ends P m p (fail .nestedTooDeep) R n Q := by
  intro i a j hi hP hrun
  obtain ⟨hj, hQ, hshift, -⟩ := h i a j hi hP hrun
  exact ⟨hj, hQ, hshift, fun _ _ => .inr ⟨hpoorer, _, rfl⟩⟩

theorem Agree.get_bind {f g : Input → Parser α}
    (h : ∀ i, c.Fits i → P i →
      ∃ q, Agree c ends (· = i) m (f i) q R n Q ∧ (AllClosed i.rest → g (c.put i) = q)) :
    Agree c ends P m (get >>= f) (get >>= g) R n Q := by
  intro i a j hi hP hrun
  obtain ⟨q, hagree, hsame⟩ := h i hi hP
  obtain ⟨hj, hQ, hshift, hfinds⟩ := hagree i a j hi rfl hrun
  refine ⟨hj, hQ, hshift, fun hclosed hends => ?_⟩
  change Finds c.poorer (g (c.put i)) (c.put i) (R a) (c.Lands ends j)
  rw [hsame hclosed]
  exact hfinds hclosed hends

/-! ## Looking at tokens -/

theorem agree_look {f : Input → α} (hp : ∀ i, p i = .ok (f i, i))
    (hsame : ∀ i, c.Fits i → P i → (ends = .inner → i.rest ≠ []) → R (f i) (f (c.put i))) :
    Agree c ends P m p p R (fun _ => m) fun a i => P i ∧ f i = a := by
  intro i a j hi hP hrun
  rw [hp] at hrun
  cases hrun
  exact ⟨hi, ⟨hP, rfl⟩, ⟨[], rfl, shifts_nil⟩,
    fun _ hends => .inl ⟨_, _, hp _, hsame i hi hP hends, .inl rfl⟩⟩

/-- The token that the second reader sees where the first one sees a token. -/
def Seen (c : Inset) (t t' : Token) : Prop :=
  t' = t ∨ t = c.last ∧ t' = c.next

theorem seen_refl (t : Token) : Seen c t t :=
  .inl rfl

theorem Inset.put_rest (c : Inset) (i : Input) : (c.put i).rest = i.rest ++ c.next :: c.after :=
  rfl

theorem Inset.current_put {i : Input} (h : i.rest ≠ []) : (c.put i).current = i.current := by
  obtain ⟨t, ts, hts⟩ := List.exists_cons_of_ne_nil h
  simp [Inset.put, Input.current, Input.ahead, hts]

theorem Inset.current_put_nil {i : Input} (h : i.rest = []) : (c.put i).current = c.next := by
  simp [Inset.put, Input.current, Input.ahead, h]

theorem Inset.Fits.seen {i : Input} (hi : c.Fits i) : Seen c i.current (c.put i).current := by
  by_cases h : i.rest = []
  · exact .inr ⟨hi.current_nil h, Inset.current_put_nil h⟩
  · exact .inl (Inset.current_put h)

theorem peek_agree :
    Agree c ends P m peek peek (Seen c) (fun _ => m) fun t i => P i ∧ i.current = t :=
  agree_look (fun _ => rfl) fun _ hi _ _ => hi.seen

theorem Agree.peek_bind {f g : Token → Parser α}
    (h : ∀ t, Agree c ends (fun i => P i ∧ i.current = t) m (f t) (g t) R n Q)
    (hend : Agree c ends (fun i => P i ∧ i.current = c.last) m (f c.last) (g c.next) R n Q) :
    Agree c ends P m (peek >>= f) (peek >>= g) R n Q := by
  refine peek_agree.bind seen_refl fun t t' hseen => ?_
  rcases hseen with rfl | ⟨rfl, rfl⟩
  · exact h t'
  · exact hend

theorem peek_inner :
    Agree c .inner P m peek peek Eq (fun _ => m) fun t i => P i ∧ i.current = t :=
  agree_look (fun _ => rfl) fun _ _ _ hends => (Inset.current_put (hends rfl)).symm

theorem Seen.start {t t' : Token} (h : Seen c t t') : t'.span.start = t.span.start := by
  rcases h with rfl | ⟨rfl, rfl⟩
  · rfl
  · exact c.start

theorem here_agree :
    Agree c ends P m here here Eq (fun _ => m) fun a i => P i ∧ i.current.span.start = a :=
  agree_look (fun _ => rfl) fun _ hi _ _ => hi.seen.start.symm

theorem spanFrom_agree (start : Position) :
    Agree c ends P m (spanFrom start) (spanFrom start) Eq (fun _ => m)
      fun a i => P i ∧ ⟨start, i.prevEnd⟩ = a :=
  agree_look (f := fun i => (⟨start, i.prevEnd⟩ : Span)) (fun _ => rfl) fun _ _ _ _ => rfl

theorem spanned_keeps {make : Span → α} (start : Position) :
    Keeps c ends P m (do return make (← spanFrom start)) (do return make (← spanFrom start)) :=
  (spanFrom_agree start).andThen fun _ => Keeps.pure

/-- A punctuator that follows no text in a larger one. -/
abbrev Inside (s : Symbol) : Prop :=
  s ∉ followers

theorem Inset.inside (c : Inset) {s : Symbol} (hs : Inside s) : c.next.body ≠ .symbol s := by
  obtain ⟨s', hs', hnext⟩ := c.follows
  rw [hnext]
  rintro ⟨⟩
  exact hs hs'

theorem Seen.isSymbol {t t' : Token} {s : Symbol} (h : Seen c t t')
    (hs : c.next.body ≠ .symbol s) : t'.isSymbol s = t.isSymbol s := by
  rcases h with rfl | ⟨rfl, rfl⟩
  · rfl
  · rw [Token.isSymbol, Token.isSymbol, c.eof]
    exact beq_false_of_ne hs

theorem Seen.isWord {t t' : Token} (h : Seen c t t') (name : String) :
    t'.isWord name = t.isWord name := by
  rcases h with rfl | ⟨rfl, rfl⟩
  · rfl
  · obtain ⟨s, -, hnext⟩ := c.follows
    rw [Token.isWord, Token.isWord, c.eof, hnext]
    rfl

/-- A punctuator that the readers do not mistake for what follows the text. -/
def Inset.Unlike (c : Inset) (ends : Ending) (s : Symbol) : Prop :=
  ends = .inner ∨ c.next.body ≠ .symbol s

theorem Inset.unlike (c : Inset) {s : Symbol} (hs : Inside s) : c.Unlike ends s :=
  .inr (c.inside hs)

theorem Inset.unlike_inner (c : Inset) {s : Symbol} : c.Unlike .inner s :=
  .inl rfl

theorem Inset.Unlike.first {s : Symbol} (h : c.Unlike ends s) : c.Unlike ends.first s := by
  rcases h with rfl | h
  · exact .inl rfl
  · exact .inr h

theorem check_agree (s : Symbol) (hs : c.Unlike ends s) :
    Agree c ends P m (check s) (check s) Eq (fun _ => m)
      fun b i => P i ∧ i.current.isSymbol s = b := by
  refine agree_look (f := fun i => i.current.isSymbol s) (fun _ => rfl) fun i hi _ hends => ?_
  rcases hs with rfl | hs
  · rw [Inset.current_put (hends rfl)]
  · exact (hi.seen.isSymbol hs).symm

theorem atEnd_agree :
    Agree c .inner P m atEnd atEnd Eq (fun _ => m) fun b i => P i ∧ (i.current.body == .eof) = b :=
  agree_look (f := fun i => i.current.body == .eof) (fun _ => rfl) fun _ _ _ hends => by
    rw [Inset.current_put (hends rfl)]

theorem checkWord_agree (name : String) :
    Agree c ends P m (checkWord name) (checkWord name) Eq (fun _ => m)
      fun b i => P i ∧ i.current.isWord name = b :=
  agree_look (f := fun i => i.current.isWord name) (fun _ => rfl) fun _ hi _ _ =>
    (hi.seen.isWord name).symm

theorem Inset.Fits.seen_second {i : Input} (hi : c.Fits i) (hne : i.rest ≠ []) :
    Seen c (i.ahead 1) ((c.put i).ahead 1) := by
  obtain ⟨t, ts, hts⟩ := List.exists_cons_of_ne_nil hne
  cases ts with
  | nil => exact .inr ⟨by simp [Input.ahead, hts, hi.last], by simp [Inset.put, Input.ahead, hts]⟩
  | cons u us => exact .inl (by simp [Inset.put, Input.ahead, hts])

theorem Inset.Fits.rest_ne_or {i : Input} (hi : c.Fits i) (hends : ends = .inner → i.rest ≠ [])
    (hbody : ends ≠ .inner → i.current.body ≠ .eof) : i.rest ≠ [] := by
  by_cases hinner : ends = .inner
  · exact hends hinner
  · exact hi.rest_ne (hbody hinner)

theorem peekSecond_agree (hP : ∀ i, P i → ends ≠ .inner → i.current.body ≠ .eof) :
    Agree c ends P m peekSecond peekSecond (Seen c) (fun _ => m)
      fun t i => P i ∧ i.ahead 1 = t :=
  agree_look (f := fun i => i.ahead 1) (fun _ => rfl) fun i hi hPi hends =>
    hi.seen_second (hi.rest_ne_or hends (hP i hPi))

theorem fail_agree {cause : Cause} : Agree c ends P m (fail cause) q R n Q :=
  fun _ _ _ _ _ hrun => nomatch hrun

theorem unexpected_agree : Agree c ends P m unexpected q R n Q :=
  fun _ _ _ _ _ hrun => nomatch hrun

theorem fail_bind_agree {cause : Cause} {k : β → Parser α} :
    Agree c ends P m (fail cause >>= k) q R n Q :=
  fun _ _ _ _ _ hrun => nomatch hrun

theorem unexpected_bind_agree {k : β → Parser α} :
    Agree c ends P m (unexpected >>= k) q R n Q :=
  fun _ _ _ _ _ hrun => nomatch hrun

/-! ## Reading tokens -/

theorem Input.current_advance (i : Input) : i.advance.current = i.ahead 1 := by
  simp [Input.advance, Input.current, Input.ahead]

theorem Inset.advance_put {i : Input} (hne : i.rest ≠ []) :
    (c.put i).advance = c.put i.advance := by
  obtain ⟨t, ts, hts⟩ := List.exists_cons_of_ne_nil hne
  rw [Input.advance, Inset.current_put hne]
  simp [Input.advance, Inset.put, hts]

theorem Inset.advance_put_nil {i : Input} (h : i.rest = []) : (c.put i).advance = c.past := by
  rw [Input.advance, Inset.current_put_nil h]
  simp [Inset.put, Inset.past, h]

theorem advance_agree {n : Nat}
    (hP : ∀ i, P i → i.current.body ≠ .eof ∧ (bracket i.current.body).Shift m n) :
    Agree c ends P m advance advance Eq (fun _ => n) fun _ j => ∃ i, P i ∧ j = i.advance := by
  intro i a j hi hPi hrun
  cases hrun
  have hne : i.rest ≠ [] := hi.rest_ne (hP i hPi).1
  obtain ⟨t, ts, hts⟩ := List.exists_cons_of_ne_nil hne
  have hcurrent : i.current = t := by simp [Input.current, Input.ahead, hts]
  have hfits : c.Fits i.advance := by
    refine ⟨hi.last, fun u hu => hi.stop u (List.mem_of_mem_drop hu), ?_⟩
    change i.current.span.stop = c.next.span.stop
    rw [hcurrent]
    exact hi.stop t (by simp [hts])
  refine ⟨hfits, ⟨i, hPi, rfl⟩, ⟨[t], by simp [Input.advance, hts], shifts_singleton ?_⟩, ?_⟩
  · rw [← hcurrent]
    exact (hP i hPi).2
  · intro _ _
    refine .inl ⟨(), _, ?_, rfl, .inl rfl⟩
    rw [← Inset.advance_put hne]
    rfl

def Plain (b : TokenBody) : Prop :=
  b ≠ .eof ∧ bracket b = .none

theorem advance_plain (hP : ∀ i, P i → Plain i.current.body) :
    Agree c ends P m advance advance Eq (fun _ => m) fun _ j => ∃ i, P i ∧ j = i.advance :=
  advance_agree fun i hi => ⟨(hP i hi).1, by rw [(hP i hi).2]; rfl⟩

theorem advance_past (b : TokenBody) {n : Nat} (hP : ∀ i, P i → i.current.body = b)
    (hb : b ≠ .eof) (hshift : (bracket b).Shift m n) :
    Agree c ends P m advance advance Eq (fun _ => n) fun _ _ => True :=
  (advance_agree fun i hi => hP i hi ▸ ⟨hb, hshift⟩).post fun _ _ _ => True.intro

theorem eat_agree (s : Symbol) (hs : c.Unlike ends s) {n : Nat}
    (hshift : (bracket (.symbol s)).Shift m n) :
    Agree c ends P m (eat s) (eat s) Eq (fun b => if b then n else m)
      fun b i => b = false → P i := by
  refine (check_agree s hs.first).andThen fun b => ?_
  refine .ite (fun hb => ?_) fun hb => .pure rfl rfl fun i hi _ => hi.1
  refine (advance_past (.symbol s) (fun i hi => ?_) nofun hshift).andThen fun _ =>
    .pure rfl rfl nofun
  exact beq_iff_eq.1 (hi.2.trans hb)

theorem eat_keeps (s : Symbol) (hs : c.Unlike ends s) (hbracket : bracket (.symbol s) = .none) :
    Agree c ends P m (eat s) (eat s) Eq (fun _ => m) fun b i => b = false → P i := by
  have heat := eat_agree (P := P) s hs (n := m) (by rw [hbracket]; rfl)
  simpa using heat

theorem eatWord_agree (name : String) :
    Agree c ends P m (eatWord name) (eatWord name) Eq (fun _ => m)
      fun b i => b = false → P i := by
  refine (checkWord_agree name).andThen fun b => ?_
  refine .ite (fun hb => ?_) fun hb => .pure rfl rfl fun i hi _ => hi.1
  refine (advance_past (.word name) (fun i hi => ?_) nofun rfl).andThen fun _ =>
    .pure rfl rfl nofun
  exact beq_iff_eq.1 (hi.2.trans hb)

theorem eatWord_run (name : String) (i : Input) :
    (eatWord name : Parser Bool) i =
      .ok (if i.current.isWord name then (true, i.advance) else (false, i)) := by
  change (if i.current.isWord name = true then advance >>= fun _ => Pure.pure true
    else Pure.pure false : Parser Bool) i = _
  split
  · rfl
  · rfl

theorem eat_run (s : Symbol) (i : Input) :
    (eat s : Parser Bool) i =
      .ok (if i.current.isSymbol s then (true, i.advance) else (false, i)) := by
  change (if i.current.isSymbol s = true then advance >>= fun _ => Pure.pure true
    else Pure.pure false : Parser Bool) i = _
  split
  · rfl
  · rfl

theorem expect_run (s : Symbol) (i : Input) :
    (expect s : Parser Unit) i = if i.current.isSymbol s then .ok ((), i.advance)
      else .error i.current.complaint := by
  change (((eat s : Parser Bool) i).bind fun x =>
    (if x.1 = true then Pure.pure () else unexpected : Parser Unit) x.2) = _
  rw [eat_run]
  cases i.current.isSymbol s with
  | true => rfl
  | false => rfl

theorem needs_expect {s : Symbol} {k : Unit → Parser α} : Needs c (expect s >>= k) := by
  intro i x hi hnil hrun
  obtain ⟨_, _, hexpect, -⟩ := bind_ok (b := x.1) (j := x.2) hrun
  have hsymbol : i.current.isSymbol s = false := by
    rw [hi.current_nil hnil, Token.isSymbol, c.eof]
    rfl
  rw [expect_run, hsymbol] at hexpect
  cases hexpect

theorem expect_agree (s : Symbol) {n : Nat} (hshift : (bracket (.symbol s)).Shift m n) :
    Agree c ends P m (expect s) (expect s) Eq (fun _ => n) fun _ _ => True := by
  intro i a j hi hP hrun
  rw [expect_run] at hrun
  by_cases hsymbol : i.current.isSymbol s = true
  · rw [if_pos hsymbol] at hrun
    have hne : i.rest ≠ [] := hi.rest_ne_of_isSymbol hsymbol
    have hread : Agree c ends (fun i => i.current.body = .symbol s) m advance advance Eq
        (fun _ => n) fun _ _ => True :=
      advance_past _ (fun _ h => h) nofun hshift
    have hadvance := hread i a j hi (beq_iff_eq.1 hsymbol) hrun
    refine ⟨hadvance.1, hadvance.2.1, hadvance.2.2.1, fun hclosed hends => ?_⟩
    rcases hadvance.2.2.2 hclosed hends with ⟨_, j', hfound, -, hlands⟩ | ⟨-, _, hfound⟩
    · refine .inl ⟨(), j', ?_, rfl, hlands⟩
      rw [expect_run, Inset.current_put hne, if_pos hsymbol]
      exact hfound
    · cases hfound
  · rw [if_neg hsymbol] at hrun
    cases hrun

theorem expectWord_agree (name : String) :
    Agree c ends P m (expectWord name) (expectWord name) Eq (fun _ => m) fun _ _ => True :=
  (eatWord_agree name).andThen fun _ =>
    .ite (fun _ => .pure rfl rfl fun _ _ => True.intro) fun _ => unexpected_agree

/-! ## Repetition -/

/-- Items up to the first that is none. Brackets may be closed and more may be known then. -/
theorem manyUpTo_agree {item item' : Parser (Option α)} {n : Nat} {Q : Input → Prop}
    (h : ∀ P, Agree c ends.first P m item item' Eq (fun o => if o.isSome then m else n)
      fun o i => o = none → Q i) {fuel fuel' : Nat} (hfuel : fuel ≤ fuel') :
    Agree c ends P m (manyUpTo item fuel) (manyUpTo item' fuel') Eq (fun _ => n) fun _ => Q := by
  induction fuel generalizing fuel' P with
  | zero => exact unexpected_agree
  | succ fuel ih =>
    obtain ⟨fuel', rfl⟩ : ∃ f, fuel' = f + 1 := ⟨fuel' - 1, by omega⟩
    refine (h P).andThen fun o => ?_
    cases o with
    | none => exact .pure rfl rfl fun _ hQ => hQ rfl
    | some a => exact (ih (by omega)).thenPure (fun _ => rfl) fun _ _ hQ => hQ

theorem many_agree {item item' : Parser (Option α)} {n : Nat} {Q : Input → Prop}
    (h : ∀ P, Agree c ends.first P m item item' Eq (fun o => if o.isSome then m else n)
      fun o i => o = none → Q i) :
    Agree c ends P m (many item) (many item') Eq (fun _ => n) fun _ => Q := by
  intro i a j hi hP hrun
  have hfuel : i.rest.length + 1 ≤ (c.put i).rest.length + 1 := by
    rw [Inset.put_rest, List.length_append]
    omega
  exact manyUpTo_agree h hfuel i a j hi hP hrun

theorem many_keeps {item item' : Parser (Option α)} (h : ∀ P, Keeps c ends.first P m item item') :
    Keeps c ends P m (many item) (many item') := by
  refine many_agree fun P => ?_
  have hitem : Agree c ends.first P m item item' Eq (fun _ => m) fun o _ => o = none → True :=
    (h P).post fun _ _ _ _ => True.intro
  have hcount : (fun _ => m) = fun o : Option α => if o.isSome then m else m := by simp
  rw [hcount] at hitem
  exact hitem

theorem iterateUpTo_agree {U : σ → σ → Prop} {step step' : σ → Parser (σ ⊕ α)} (hU : ∀ s, U s s)
    (hR : ∀ a, R a a)
    (h : ∀ P s s', U s s' → Agree c ends.first P m (step s) (step' s') (Sum.LiftRel U R)
      (fun _ => m) fun _ _ => True) {fuel fuel' : Nat} (hfuel : fuel ≤ fuel') {s s' : σ} (hs : U s s') :
    Agree c ends P m (iterateUpTo step fuel s) (iterateUpTo step' fuel' s') R (fun _ => m)
      fun _ _ => True := by
  induction fuel generalizing fuel' P s s' with
  | zero => exact unexpected_agree
  | succ fuel ih =>
    obtain ⟨fuel', rfl⟩ : ∃ f, fuel' = f + 1 := ⟨fuel' - 1, by omega⟩
    have hrefl : ∀ x, Sum.LiftRel U R x x := by
      rintro (s | a)
      · exact .inl (hU s)
      · exact .inr (hR a)
    refine (h P s s' hs).bind hrefl fun x y hxy => ?_
    cases hxy with
    | inl hst => exact ih (by omega) hst
    | inr hab => exact .pure hab rfl fun _ _ => True.intro

theorem iterate_agree {U : σ → σ → Prop} {step step' : σ → Parser (σ ⊕ α)} (hU : ∀ s, U s s)
    (hR : ∀ a, R a a)
    (h : ∀ P s s', U s s' → Agree c ends.first P m (step s) (step' s') (Sum.LiftRel U R)
      (fun _ => m) fun _ _ => True) {s s' : σ} (hs : U s s') :
    Agree c ends P m (iterate step s) (iterate step' s') R (fun _ => m) fun _ _ => True := by
  intro i a j hi hP hrun
  have hfuel : i.rest.length + 1 ≤ (c.put i).rest.length + 1 := by
    rw [Inset.put_rest, List.length_append]
    omega
  exact iterateUpTo_agree hU hR h hfuel hs i a j hi hP hrun

theorem commaList_keeps (close : Symbol) {item item' : Parser α}
    (h : ∀ P, Keeps c .inner P m item item') :
    Keeps c .inner P m (commaList close item) (commaList close item') := by
  refine many_keeps fun P => (check_agree _ c.unlike_inner).andThen fun _ => ?_
  refine .ite (fun _ => Keeps.pure) fun _ => (h _).andThen fun a => ?_
  refine (check_agree _ c.unlike_inner).andThen fun _ => .ite (fun _ => Keeps.pure) fun _ => ?_
  exact (expect_agree .comma rfl).andThen fun _ => Keeps.pure

theorem bracketed_keeps {opening close : Symbol} (hopening : bracket (.symbol opening) = .opening)
    (hclose : bracket (.symbol close) = .closing) {item item' : Parser α}
    (h : ∀ P m, Keeps c .inner P m item item') :
    Keeps c ends P m (bracketed opening close item) (bracketed opening close item') := by
  refine (expect_agree opening (n := m + 1) (by rw [hopening]; rfl)).andThen fun _ => ?_
  refine (commaList_keeps close fun P => h P (m + 1)).before (fun _ => needs_expect) fun _ => ?_
  exact (expect_agree close (n := m) (by rw [hclose]; rfl)).andThen fun _ => Keeps.pure

theorem link_agree {budget budget' : Nat} {next next' : Nat → Parser α}
    (hbudgets : c.Budgets budget budget')
    (h : ∀ b b', c.Budgets b b' → Agree c ends P m (next b) (next' b') R n Q) :
    Agree c ends P m (link budget next) (link budget' next') R n Q := by
  unfold link
  rcases hbudgets with hpoorer | rfl
  · split
    · exact fail_agree
    · split
      · exact (h (budget - linkCost) 0 (.inl hpoorer)).spent hpoorer
      · exact h _ _ (.inl hpoorer)
  · exact .ite (fun _ => fail_agree) fun _ => h _ _ (.inr rfl)

end

end WidgetLint.Script.Parser
