import WidgetLint.Text.Cursor

/-!
# Places of a text

`PlaceOf text p` says that `p` is the position after some of the first characters of `text`, and
`StandsAt text part p` that the characters `part` occur in `text` where `p` is. A cursor that started
before the text and only moved forward shows a part of the text at its position (`Cursor.In`).

Main facts: a place of a part, translated to where the part stands, is a place of the whole text
(`StandsAt.place_translate`). `Span.Covers` says which characters stand between the two ends of a
span, and `Cursor.Takes` which characters a moving cursor passes.
-/

namespace WidgetLint.Text

namespace Position

/-! ## Counting and translating -/

/-- Line and column count from one. -/
def Proper (p : Position) : Prop :=
  1 ≤ p.line ∧ 1 ≤ p.column

theorem proper_first : first.Proper := ⟨Nat.le_refl 1, Nat.le_refl 1⟩

theorem Proper.next {p : Position} (h : p.Proper) (c : Char) : (p.next c).Proper := by
  unfold Position.next
  split
  · exact ⟨by simp, Nat.le_refl 1⟩
  · exact ⟨h.1, by simp⟩

theorem Proper.after {p : Position} (h : p.Proper) (cs : List Char) : (p.after cs).Proper := by
  induction cs generalizing p with
  | nil => exact h
  | cons c cs ih => exact ih (h.next c)

@[simp] theorem translate_first_left (o : Position) : first.translate o = o := by
  simp [translate, first, Nat.add_comm 1]

theorem next_translate {p : Position} (h : p.Proper) (o : Position) (c : Char) :
    (p.next c).translate o = (p.translate o).next c := by
  obtain ⟨hl, hc⟩ := h
  unfold Position.next translate
  by_cases hn : c = '\n'
  · by_cases h1 : p.line = 1
    · simp [hn, h1, Nat.add_comm, Nat.add_left_comm]
    · have h2 : p.line ≠ 0 := by omega
      simp [hn, h1, h2, Nat.add_comm, Nat.add_left_comm]
      omega
  · by_cases h1 : p.line = 1
    · simp [hn, h1, Nat.add_comm, Nat.add_left_comm]
      omega
    · simp [hn, h1, Nat.add_comm, Nat.add_left_comm]

theorem after_translate {p : Position} (h : p.Proper) (o : Position) (cs : List Char) :
    (p.after cs).translate o = (p.translate o).after cs := by
  induction cs generalizing p with
  | nil => rfl
  | cons c cs ih => rw [after_cons, ih (h.next c), next_translate h, after_cons]

theorem first_after_translate (o : Position) (cs : List Char) :
    (first.after cs).translate o = o.after cs := by
  rw [after_translate proper_first, translate_first_left]

/-- A region of a region: translating twice is translating once to the translated origin. -/
theorem translate_translate {p a b : Position} (hp : p.Proper) (ha : a.Proper) (hb : b.Proper) :
    (p.translate a).translate b = p.translate (a.translate b) := by
  obtain ⟨hpl, hpc⟩ := hp
  obtain ⟨hal, hac⟩ := ha
  obtain ⟨hbl, hbc⟩ := hb
  unfold translate
  by_cases h1 : p.line = 1
  · by_cases h2 : a.line = 1
    · simp only [h1, h2, if_true, mk.injEq, true_and]
      omega
    · simp only [h1, h2, if_true, if_false, mk.injEq, true_and]
      omega
  · have h3 : p.line + a.line - 1 ≠ 1 := by omega
    rw [if_neg h1, if_neg h3]
    by_cases h2 : a.line = 1
    · simp only [h1, h2, if_true, if_false, mk.injEq, true_and]
      omega
    · simp only [h1, h2, if_false, mk.injEq, true_and]
      omega

end Position

/-! ## Places -/

/-- The position is reached by counting some of the first characters of the text. -/
def PlaceOf (text : List Char) (p : Position) : Prop :=
  ∃ k ≤ text.length, p = Position.first.after (text.take k)

/-- The characters occur in the text, and the position is where they do. -/
def StandsAt (text part : List Char) (p : Position) : Prop :=
  ∃ before behind, text = before ++ part ++ behind ∧ p = Position.first.after before

theorem placeOf_iff_standsAt_nil {text : List Char} {p : Position} :
    PlaceOf text p ↔ StandsAt text [] p := by
  constructor
  · rintro ⟨k, -, rfl⟩
    exact ⟨text.take k, text.drop k, by simp, rfl⟩
  · rintro ⟨before, behind, rfl, rfl⟩
    exact ⟨before.length, by simp, by simp⟩

theorem standsAt_self (text : List Char) : StandsAt text text .first :=
  ⟨[], [], by simp, rfl⟩

namespace StandsAt
variable {text part inner : List Char} {p q : Position}

theorem place (h : StandsAt text part p) : PlaceOf text p := by
  obtain ⟨before, behind, rfl, rfl⟩ := h
  exact ⟨before.length, by simp, by simp⟩

theorem take (h : StandsAt text part p) (n : Nat) : StandsAt text (part.take n) p := by
  obtain ⟨before, behind, rfl, rfl⟩ := h
  exact ⟨before, part.drop n ++ behind, by simp [← List.append_assoc (part.take n)], rfl⟩

theorem drop (h : StandsAt text part p) (n : Nat) :
    StandsAt text (part.drop n) (p.after (part.take n)) := by
  obtain ⟨before, behind, rfl, rfl⟩ := h
  refine ⟨before ++ part.take n, behind, ?_, by rw [Position.after_append]⟩
  simp only [List.append_assoc]
  rw [← List.append_assoc (part.take n), List.take_append_drop]

theorem trans (h : StandsAt text part p) (hi : StandsAt part inner q) :
    StandsAt text inner (q.translate p) := by
  obtain ⟨before, behind, rfl, rfl⟩ := h
  obtain ⟨before', behind', rfl, rfl⟩ := hi
  refine ⟨before ++ before', behind' ++ behind, by simp, ?_⟩
  rw [Position.first_after_translate, Position.after_append]

theorem place_translate (h : StandsAt text part p) (hq : PlaceOf part q) :
    PlaceOf text (q.translate p) := by
  rw [placeOf_iff_standsAt_nil] at hq ⊢
  exact h.trans hq

end StandsAt

/-! ## Cursors -/

/-- The cursor shows what is left of the text, at its position in the text. -/
def Cursor.In (text : List Char) (c : Cursor) : Prop :=
  StandsAt text c.rest c.position

namespace Cursor
variable {text : List Char} {c : Cursor}

theorem in_ofString (source : String) : (Cursor.ofString source).In source.toList :=
  standsAt_self _

theorem In.place (h : c.In text) : PlaceOf text c.position :=
  StandsAt.place h

theorem In.drop (h : c.In text) (n : Nat) : (c.drop n).In text :=
  StandsAt.drop h n

theorem take_run_length (c : Cursor) (p : Char → Bool) :
    c.rest.take (c.run p).length = c.run p :=
  (List.prefix_iff_eq_take.mp (List.takeWhile_prefix p)).symm

theorem drop_run_length (c : Cursor) (p : Char → Bool) :
    c.rest.drop (c.run p).length = c.rest.dropWhile p := by
  have hsplit : c.run p ++ c.rest.drop (c.run p).length = c.run p ++ c.rest.dropWhile p := by
    conv => lhs; lhs; rw [← take_run_length c p]
    rw [List.take_append_drop, run, List.takeWhile_append_dropWhile]
  exact List.append_cancel_left hsplit

theorem skip_eq_drop (c : Cursor) (p : Char → Bool) : c.skip p = c.drop (c.run p).length := by
  rw [skip, drop, take_run_length, drop_run_length]

theorem In.skip (h : c.In text) (p : Char → Bool) : (c.skip p).In text := by
  rw [skip_eq_drop]
  exact h.drop _

theorem In.run (h : c.In text) (p : Char → Bool) : StandsAt text (c.run p) c.position := by
  rw [← take_run_length]
  exact StandsAt.take h _

end Cursor

/-! ## Stretches -/

theorem Position.offset_next (p : Position) (c : Char) :
    (p.next c).offset = p.offset + c.utf8Size := by
  unfold Position.next
  split <;> rfl

theorem Position.le_offset_after (p : Position) (cs : List Char) :
    p.offset + cs.length ≤ (p.after cs).offset := by
  induction cs generalizing p with
  | nil => exact Nat.le_refl _
  | cons c cs ih =>
    have hnext := ih (p.next c)
    have hsize := c.utf8Size_pos
    rw [offset_next] at hnext
    rw [after_cons, List.length_cons]
    omega

/-- The characters of the text between the two ends of the span are the given ones. -/
def Span.Covers (text part : List Char) (span : Span) : Prop :=
  ∃ before behind, text = before ++ part ++ behind ∧ span.start = Position.first.after before ∧
    span.stop = Position.first.after (before ++ part)

theorem eq_of_offset_eq (text : List Char) {before before' : List Char} (h : before <+: text)
    (h' : before' <+: text)
    (hoffset : (Position.first.after before).offset = (Position.first.after before').offset) :
    before = before' := by
  rcases List.prefix_or_prefix_of_prefix h h' with ⟨more, rfl⟩ | ⟨more, rfl⟩
  · have hmore := (Position.first.after before).le_offset_after more
    rw [Position.after_append] at hoffset
    have hnil : more = [] := List.eq_nil_of_length_eq_zero (by omega)
    rw [hnil, List.append_nil]
  · have hmore := (Position.first.after before').le_offset_after more
    rw [Position.after_append] at hoffset
    have hnil : more = [] := List.eq_nil_of_length_eq_zero (by omega)
    rw [hnil, List.append_nil]

theorem covers_of_le {text : List Char} {p q : Position} (hp : PlaceOf text p)
    (hq : PlaceOf text q) (hle : p.offset ≤ q.offset) : ∃ part, Span.Covers text part ⟨p, q⟩ := by
  obtain ⟨i, hi, rfl⟩ := hp
  obtain ⟨j, hj, rfl⟩ := hq
  rcases Nat.le_total i j with hij | hji
  · have hsplit : text.take i ++ (text.take j).drop i = text.take j := by
      conv => rhs; rw [← List.take_append_drop i (text.take j)]
      rw [List.take_take, Nat.min_eq_left hij]
    refine ⟨(text.take j).drop i, text.take i, text.drop j, ?_, rfl, ?_⟩
    · rw [hsplit, List.take_append_drop]
    · rw [hsplit]
  · -- then the two places are the same
    have hsplit : text.take i = text.take j ++ (text.take i).drop j := by
      conv => lhs; rw [← List.take_append_drop j (text.take i)]
      rw [List.take_take, Nat.min_eq_left hji]
    have hmore := (Position.first.after (text.take j)).le_offset_after ((text.take i).drop j)
    rw [← Position.after_append, ← hsplit] at hmore
    have hsame : text.take j = text.take i :=
      eq_of_offset_eq text (List.take_prefix j text) (List.take_prefix i text) (by omega)
    exact ⟨[], text.take i, text.drop i, by simp, rfl, by simp [hsame]⟩

namespace Span.Covers
variable {text part more : List Char} {span : Span}

theorem standsAt (h : span.Covers text part) : StandsAt text part span.start := by
  obtain ⟨before, behind, htext, hstart, -⟩ := h
  exact ⟨before, behind, htext, hstart⟩

theorem start_place (h : span.Covers text part) : PlaceOf text span.start :=
  h.standsAt.place

theorem stop_place (h : span.Covers text part) : PlaceOf text span.stop := by
  obtain ⟨before, behind, rfl, -, hstop⟩ := h
  exact ⟨(before ++ part).length, by simp, by rw [hstop, List.take_left]⟩

theorem start_le_stop (h : span.Covers text part) : span.start.offset ≤ span.stop.offset := by
  obtain ⟨before, behind, -, hstart, hstop⟩ := h
  have hpart := (Position.first.after before).le_offset_after part
  rw [hstart, hstop, Position.after_append]
  omega

theorem extend (h : span.Covers text part) {stop : Position} (hstop : PlaceOf text stop)
    (hle : span.stop.offset ≤ stop.offset) :
    ∃ more, Span.Covers text (part ++ more) ⟨span.start, stop⟩ := by
  obtain ⟨more, before', behind', htext', hstart', hstop'⟩ :=
    covers_of_le h.stop_place hstop hle
  obtain ⟨before, behind, htext, hstart, hend⟩ := h
  have hbefore : before' = before ++ part := by
    refine eq_of_offset_eq text ?_ ?_ ?_
    · rw [htext', List.append_assoc]
      exact List.prefix_append _ _
    · rw [htext]
      exact List.prefix_append _ _
    · rw [← hend, ← hstart']
  subst hbefore
  exact ⟨more, before, behind', by rw [htext']; simp, hstart, by rw [hstop']; simp⟩

end Span.Covers

/-! ## What a moving cursor takes -/

namespace Cursor
variable {text part more : List Char} {c d e : Cursor}

/-- Moving from the first cursor to the second takes the given characters. -/
def Takes (c : Cursor) (part : List Char) (d : Cursor) : Prop :=
  c.rest = part ++ d.rest ∧ d.position = c.position.after part

theorem Takes.refl (c : Cursor) : c.Takes [] c :=
  ⟨rfl, rfl⟩

theorem Takes.trans (h : c.Takes part d) (h' : d.Takes more e) : c.Takes (part ++ more) e := by
  refine ⟨by rw [h.1, h'.1, List.append_assoc], ?_⟩
  rw [h'.2, h.2, Position.after_append]

theorem takes_drop (c : Cursor) (n : Nat) : c.Takes (c.rest.take n) (c.drop n) :=
  ⟨(List.take_append_drop n c.rest).symm, rfl⟩

theorem takes_skip (c : Cursor) (p : Char → Bool) : c.Takes (c.run p) (c.skip p) :=
  ⟨(List.takeWhile_append_dropWhile).symm, rfl⟩

theorem takes_word {word : List Char} (h : c.startsWith word = true) :
    c.Takes word (c.drop word.length) := by
  have hword : c.rest.take word.length = word :=
    (List.prefix_iff_eq_take.1 (List.isPrefixOf_iff_prefix.1 h)).symm
  have htakes := c.takes_drop word.length
  rwa [hword] at htakes

/-- The cursor shows all that is left of the text from its position on. -/
def OnTail (text : List Char) (c : Cursor) : Prop :=
  ∃ before, text = before ++ c.rest ∧ c.position = Position.first.after before

theorem onTail_ofString (source : String) : (Cursor.ofString source).OnTail source.toList :=
  ⟨[], rfl, rfl⟩

theorem OnTail.inText (h : c.OnTail text) : c.In text := by
  obtain ⟨before, htext, hposition⟩ := h
  exact ⟨before, [], by rw [List.append_nil]; exact htext, hposition⟩

theorem Takes.onTail (h : c.Takes part d) (hc : c.OnTail text) : d.OnTail text := by
  obtain ⟨before, htext, hposition⟩ := hc
  refine ⟨before ++ part, ?_, ?_⟩
  · rw [htext, h.1, List.append_assoc]
  · rw [h.2, hposition, Position.after_append]

theorem OnTail.position_of_isEmpty (h : c.OnTail text) (hempty : c.rest.isEmpty = true) :
    c.position = Position.first.after text := by
  obtain ⟨before, htext, hposition⟩ := h
  have hnil : c.rest = [] := by simpa using hempty
  rw [hnil, List.append_nil] at htext
  rw [htext, hposition]

theorem Takes.covers (h : c.Takes part d) (hc : c.In text) : (c.spanTo d).Covers text part := by
  obtain ⟨before, behind, htext, hposition⟩ := hc
  refine ⟨before, d.rest ++ behind, ?_, hposition, ?_⟩
  · rw [htext, h.1]
    simp
  · show d.position = _
    rw [h.2, hposition, Position.after_append]

end Cursor

end WidgetLint.Text
