import WidgetLint.Proofs.Printing.Lexed

/-!
# The gaps between tokens

`Trivia lineStart gap behind` says that a gap before `behind` is made of white space and comments
only. The lexer passes over such a gap, knows afterwards whether a line ended in it, and stops where
no gap begins (`gapFrom_trivia`).
-/

namespace WidgetLint.Script

open Text

variable {lineStart newline : Bool} {gap behind body mark cs : List Char} {n size : Nat}

/-! ## White space and comments -/

/-- The text ends or a line does. -/
def AtLineEnd (cs : List Char) : Prop :=
  ∀ c ∈ cs.head?, isLineEnd c = true

/-- A mark after which the line is a comment. One of the marks is one only where a line starts. -/
def LineMark (lineStart : Bool) (mark : List Char) : Prop :=
  mark = ['/', '/'] ∨ mark = ['<', '!', '-', '-'] ∨ lineStart = true ∧ mark = ['-', '-', '>']

/-- The gap before `behind` is white space and comments. Before it there is nothing but a gap since
the last end of a line if `lineStart` holds. -/
inductive Trivia : (lineStart : Bool) → (gap behind : List Char) → Prop
  | nil {lineStart : Bool} {behind : List Char} : Trivia lineStart [] behind
  | blank {lineStart : Bool} {c : Char} {gap behind : List Char} : isWhiteSpace c = true →
    Trivia (lineStart || isLineEnd c) gap behind → Trivia lineStart (c :: gap) behind
  /-- A comment up to its first closing mark. -/
  | block {lineStart : Bool} {body gap behind : List Char} : ¬['*', '/'] <:+: body →
    Trivia (lineStart || body.any isLineEnd) gap behind →
    Trivia lineStart ('/' :: '*' :: (body ++ '*' :: '/' :: gap)) behind
  /-- A comment up to the end of its line. -/
  | line {lineStart : Bool} {mark body gap behind : List Char} : LineMark lineStart mark →
    (∀ c ∈ body, isLineEnd c = false) → AtLineEnd (gap ++ behind) → Trivia lineStart gap behind →
    Trivia lineStart (mark ++ body ++ gap) behind

/-- No gap begins here. -/
structure NoGap (lineStart : Bool) (cs : List Char) : Prop where
  blank : ∀ c ∈ cs.head?, isWhiteSpace c = false
  line : opensLineComment lineStart cs = false
  block : ['/', '*'].isPrefixOf cs = false

theorem noGap_nil : NoGap lineStart [] :=
  ⟨by simp, by simp [opensLineComment], rfl⟩

theorem exists_lineMark (h : opensLineComment lineStart cs = true) :
    ∃ mark, LineMark lineStart mark ∧ mark <+: cs := by
  simp only [opensLineComment, Bool.or_eq_true, Bool.and_eq_true, List.isPrefixOf_iff_prefix] at h
  rcases h with (h | h) | ⟨hstart, h⟩
  · exact ⟨_, .inl rfl, h⟩
  · exact ⟨_, .inr (.inl rfl), h⟩
  · exact ⟨_, .inr (.inr ⟨hstart, rfl⟩), h⟩

theorem LineMark.isLineEnd_eq_false (h : LineMark lineStart mark) :
    ∀ c ∈ mark, isLineEnd c = false := by
  have hall : (mark.all fun c => !isLineEnd c) = true := by
    rcases h with rfl | rfl | ⟨-, rfl⟩
    all_goals decide
  simpa using hall

theorem LineMark.prefix_of_append (h : LineMark lineStart mark) {tail : List Char}
    (htail : AtLineEnd tail) (hmark : mark <+: body ++ tail) : mark <+: body := by
  rcases List.prefix_or_prefix_of_prefix hmark (List.prefix_append body tail) with hbody | ⟨e, he⟩
  · exact hbody
  · obtain _ | ⟨c, e⟩ := e
    · rw [List.append_nil] at he
      exact he ▸ List.prefix_rfl
    · -- the mark would go on with the end of the line
      rw [← he, List.prefix_append_right_inj] at hmark
      obtain ⟨others, hothers⟩ := hmark
      have hend := htail c (by rw [← hothers]; rfl)
      rw [h.isLineEnd_eq_false c (by rw [← he]; simp)] at hend
      cases hend

/-! ## What the lexer passes over -/

/-- The rest of a gap of which the part before is of the given mode. -/
def GapMode.Trivia (mode : GapMode) (lineStart : Bool) (gap behind : List Char) : Prop :=
  match mode with
  | .blank => Script.Trivia lineStart gap behind
  | .lineComment => ∃ body others, gap = body ++ others ∧ (∀ c ∈ body, isLineEnd c = false) ∧
      AtLineEnd (others ++ behind) ∧ Script.Trivia lineStart others behind
  | .blockComment _ => ∃ body others, gap = body ++ '*' :: '/' :: others ∧
      ¬['*', '/'] <:+: body ∧ Script.Trivia (lineStart || body.any isLineEnd) others behind

/-- The first characters of a text are a gap, of which `n` more characters were passed before. -/
structure GapOf (mode : GapMode) (newline lineStart : Bool) (n : Nat) (cs : List Char) (found : Gap)
    (size : Nat) (gap behind : List Char) : Prop where
  split : cs = gap ++ behind
  size : size = n + gap.length
  trivia : mode.Trivia lineStart gap behind
  newline : found.newline = (newline || gap.any isLineEnd)
  stop : NoGap found.lineStart behind

section
variable {mode mode' : GapMode} {newline' lineStart' : Bool} {found : Gap}

theorem GapOf.step (part : List Char)
    (h : GapOf mode' newline' lineStart' (n + part.length) cs found size gap behind)
    (hnewline : newline' = (newline || part.any isLineEnd))
    (htrivia : mode'.Trivia lineStart' gap behind → mode.Trivia lineStart (part ++ gap) behind) :
    GapOf mode newline lineStart n (part ++ cs) found size (part ++ gap) behind := by
  refine ⟨?_, ?_, htrivia h.trivia, ?_, h.stop⟩
  · rw [h.split, List.append_assoc]
  · rw [h.size, List.length_append, Nat.add_assoc]
  · rw [h.newline, hnewline, List.any_append, Bool.or_assoc]

/-- **A gap is white space and comments**, and no other gap begins behind it. -/
theorem gapFrom_trivia (h : (gapFrom mode newline lineStart n cs).outcome = .ok () size) :
    ∃ gap behind, GapOf mode newline lineStart n cs (gapFrom mode newline lineStart n cs) size gap
      behind := by
  fun_induction gapFrom mode newline lineStart n cs with
  | case1 => cases h
  | case2 mode newline _ n hmode =>
    cases h
    refine ⟨[], [], rfl, rfl, ?_, by simp, noGap_nil⟩
    cases mode with
    | blank => exact .nil
    | lineComment => exact ⟨[], [], rfl, by simp, by simp [AtLineEnd], .nil⟩
    | blockComment start => exact absurd rfl (hmode start)
  | case3 start newline lineStart n rest ih =>
    obtain ⟨gap, behind, hgap⟩ := ih h
    have hline : ['*', '/'].any isLineEnd = false := by decide
    refine ⟨_, behind, hgap.step ['*', '/'] (by rw [hline, Bool.or_false]) fun htrivia => ?_⟩
    exact ⟨[], gap, rfl, by simp, by rwa [List.any_nil, Bool.or_false]⟩
  | case4 start newline lineStart n c rest hclose ih =>
    obtain ⟨gap, behind, hgap⟩ := ih h
    refine ⟨_, behind, hgap.step [c] (by simp) ?_⟩
    rintro ⟨body, others, hsplit, hbody, hothers⟩
    refine ⟨c :: body, others, by rw [hsplit]; rfl, ?_, ?_⟩
    · rw [List.infix_cons_iff, not_or]
      refine ⟨fun hstarts => ?_, hbody⟩
      obtain ⟨rfl, tail, htail⟩ := List.cons_prefix_cons.1 hstarts
      refine hclose (tail ++ '*' :: '/' :: others ++ behind) rfl ?_
      rw [hgap.split, hsplit, ← htail]
      simp
    · rwa [List.any_cons, ← Bool.or_assoc]
  | case5 newline lineStart n c rest hend ih =>
    obtain ⟨gap, behind, hgap⟩ := ih h
    refine ⟨_, behind, hgap.step [c] (by simp [hend]) fun htrivia => ?_⟩
    refine ⟨[], c :: gap, rfl, by simp, by simp [AtLineEnd, hend], ?_⟩
    exact .blank (isWhiteSpace_of_isLineEnd hend) (by rwa [hend, Bool.or_true])
  | case6 newline lineStart n c rest hend ih =>
    obtain ⟨gap, behind, hgap⟩ := ih h
    refine ⟨_, behind, hgap.step [c] (by simp [hend]) ?_⟩
    rintro ⟨body, others, rfl, hbody, hothers⟩
    exact ⟨c :: body, others, rfl, List.forall_mem_cons.2 ⟨by simpa using hend, hbody⟩, hothers⟩
  | case7 newline lineStart n rest ih =>
    obtain ⟨gap, behind, hgap⟩ := ih h
    have hline : ['/', '*'].any isLineEnd = false := by decide
    refine ⟨_, behind, hgap.step ['/', '*'] (by rw [hline, Bool.or_false]) ?_⟩
    rintro ⟨body, others, rfl, hbody, hothers⟩
    exact .block hbody hothers
  | case8 newline lineStart n c rest hblock hend ih =>
    obtain ⟨gap, behind, hgap⟩ := ih h
    refine ⟨_, behind, hgap.step [c] (by simp [hend]) fun htrivia => ?_⟩
    exact .blank (isWhiteSpace_of_isLineEnd hend) (by rwa [hend, Bool.or_true])
  | case9 newline lineStart n c rest hblock hend hblank ih =>
    obtain ⟨gap, behind, hgap⟩ := ih h
    have hline : isLineEnd c = false := by simpa using hend
    refine ⟨_, behind, hgap.step [c] (by simp [hline]) fun htrivia => ?_⟩
    exact .blank hblank (by rwa [hline, Bool.or_false])
  | case10 newline lineStart n c rest hblock hend hblank hcomment ih =>
    obtain ⟨gap, behind, hgap⟩ := ih h
    have hline : isLineEnd c = false := by simpa using hend
    refine ⟨_, behind, hgap.step [c] (by simp [hline]) ?_⟩
    rintro ⟨body, others, rfl, hbody, hothers, htrivia⟩
    obtain ⟨mark, hmark, hstarts⟩ := exists_lineMark hcomment
    have hrest : c :: rest = (c :: body) ++ (others ++ behind) := by
      rw [hgap.split]
      simp
    rw [hrest] at hstarts
    obtain ⟨tail, htail⟩ := hmark.prefix_of_append hothers hstarts
    rw [List.singleton_append, ← List.cons_append, ← htail]
    refine .line hmark (fun d hd => ?_) hothers htrivia
    have hmem : d ∈ c :: body := by
      rw [← htail]
      exact List.mem_append_right mark hd
    rcases List.mem_cons.1 hmem with rfl | hd
    · exact hline
    · exact hbody d hd
  | case11 newline lineStart n c rest hblock hend hblank hcomment =>
    cases h
    refine ⟨[], c :: rest, rfl, rfl, .nil, by simp, ?_, by simpa using hcomment, ?_⟩
    · simpa using hblank
    · rw [Bool.eq_false_iff]
      intro hstarts
      obtain ⟨rfl, tail, htail⟩ := List.cons_prefix_cons.1 (List.isPrefixOf_iff_prefix.1 hstarts)
      exact hblock tail rfl htail.symm

end

end WidgetLint.Script
