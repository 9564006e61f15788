import WidgetLint.Proofs.Inset.Lines
import WidgetLint.Proofs.Printing.Cutting
import WidgetLint.Proofs.Script.Formatting

/-!
# Values cut within a script

A value that stands on lines of its own in a script is cut into the same tokens there as alone
(`Lexer.Encloses.cuts`). Gaps are found again wherever they stand, and a token ends before the end
of a line at the latest, unless a mark of its own closes it.
-/

namespace WidgetLint.Script

open Text

/-! ## Gaps -/

/-- The mode of a gap with `k` more characters before it. -/
def GapMode.shift (k : Nat) : GapMode → GapMode
  | .blockComment start => .blockComment (start + k)
  | mode => mode

@[simp] theorem GapMode.shift_blank (k : Nat) : GapMode.shift k .blank = .blank := rfl

@[simp] theorem GapMode.shift_lineComment (k : Nat) :
    GapMode.shift k .lineComment = .lineComment := rfl

@[simp] theorem GapMode.shift_blockComment (k start : Nat) :
    GapMode.shift k (.blockComment start) = .blockComment (start + k) := rfl

def Scanned.shift {α : Type} (k : Nat) : Scanned α → Scanned α
  | .ok value size => .ok value (size + k)
  | .fail cause place size => .fail cause (place + k) (size + k)

/-- A gap with `k` more characters before it, in which a line may have ended. -/
def Gap.shift (k : Nat) (newline : Bool) (gap : Gap) : Gap :=
  ⟨newline || gap.newline, gap.lineStart, gap.outcome.shift k⟩

section
variable {mode : GapMode} {newline lineStart : Bool} {n size start : Nat} {c : Char}
  {cs rest more : List Char}

theorem gapFrom_closing :
    gapFrom (.blockComment start) newline lineStart n ('*' :: '/' :: rest) =
      gapFrom .blank newline lineStart (n + 2) rest := by
  rw [gapFrom]

theorem gapFrom_inBlock (h : ∀ tail, c = '*' → rest = '/' :: tail → False) :
    gapFrom (.blockComment start) newline lineStart n (c :: rest) =
      gapFrom (.blockComment start) (newline || isLineEnd c) (lineStart || isLineEnd c) (n + 1)
        rest := by
  rw [gapFrom]
  exact h

theorem gapFrom_inLine :
    gapFrom .lineComment newline lineStart n (c :: rest) =
      if isLineEnd c then gapFrom .blank true true (n + 1) rest
      else gapFrom .lineComment newline lineStart (n + 1) rest := by
  rw [gapFrom]

theorem gapFrom_opening :
    gapFrom .blank newline lineStart n ('/' :: '*' :: rest) =
      gapFrom (.blockComment n) newline lineStart (n + 2) rest := by
  rw [gapFrom]

theorem gapFrom_blank (h : ∀ tail, c = '/' → rest = '*' :: tail → False) :
    gapFrom .blank newline lineStart n (c :: rest) =
      if isLineEnd c then gapFrom .blank true true (n + 1) rest
      else if isWhiteSpace c then gapFrom .blank newline lineStart (n + 1) rest
      else if opensLineComment lineStart (c :: rest) then
        gapFrom .lineComment newline lineStart (n + 1) rest
      else ⟨newline, lineStart, .ok () n⟩ := by
  rw [gapFrom]
  exact h

theorem gapFrom_shift (k : Nat) (before : Bool) :
    gapFrom (mode.shift k) (before || newline) lineStart (n + k) cs =
      (gapFrom mode newline lineStart n cs).shift k before := by
  fun_induction gapFrom mode newline lineStart n cs with
  | case1 => rfl
  | case2 mode _ _ _ hmode =>
    cases mode with
    | blockComment start => exact absurd rfl (hmode start)
    | _ => rfl
  | case3 _ _ _ n rest ih =>
    rw [← ih, GapMode.shift_blockComment, gapFrom_closing, Nat.add_right_comm n k 2]
    rfl
  | case4 start _ _ n c rest hclose ih =>
    rw [← ih, GapMode.shift_blockComment, gapFrom_inBlock hclose, Nat.add_right_comm n k 1,
      Bool.or_assoc]
  | case5 _ _ n c rest hline ih =>
    rw [← ih, GapMode.shift_lineComment, gapFrom_inLine, if_pos hline, Nat.add_right_comm n k 1,
      Bool.or_true]
    rfl
  | case6 _ _ n c rest hline ih =>
    rw [← ih, GapMode.shift_lineComment, gapFrom_inLine, if_neg hline, Nat.add_right_comm n k 1]
  | case7 _ _ n rest ih =>
    rw [← ih, GapMode.shift_blank, gapFrom_opening, Nat.add_right_comm n k 2]
    rfl
  | case8 _ _ n c rest hblock hline ih =>
    rw [← ih, GapMode.shift_blank, gapFrom_blank hblock, if_pos hline, Nat.add_right_comm n k 1,
      Bool.or_true]
  | case9 _ _ n c rest hblock hline hblank ih =>
    rw [← ih, GapMode.shift_blank, gapFrom_blank hblock, if_neg hline, if_pos hblank,
      Nat.add_right_comm n k 1]
  | case10 _ _ n c rest hblock hline hblank hcomment ih =>
    rw [← ih, GapMode.shift_blank, gapFrom_blank hblock, if_neg hline, if_neg hblank,
      if_pos hcomment, Nat.add_right_comm n k 1]
    rfl
  | case11 _ _ n c rest hblock hline hblank hcomment =>
    rw [GapMode.shift_blank, gapFrom_blank hblock, if_neg hline, if_neg hblank, if_neg hcomment]
    rfl

theorem opensLineComment_line :
    opensLineComment lineStart (cs ++ '\n' :: more) = opensLineComment lineStart cs := by
  have hsame {word : List Char} (h : '\n' ∉ word) :
      word.isPrefixOf (cs ++ '\n' :: more) = word.isPrefixOf cs := isPrefixOf_apart h
  rw [opensLineComment, hsame (by decide), hsame (by decide), hsame (by decide)]
  rfl

theorem ne_line {b d : Char} (hd : d ≠ '\n') (h : ∀ tail, c = b → rest = d :: tail → False) :
    ∀ tail, c = b → rest ++ '\n' :: more = d :: tail → False := by
  intro tail hc hrest
  cases rest with
  | nil => exact hd (List.cons.inj hrest).1.symm
  | cons first rest => exact h rest hc (by rw [(List.cons.inj hrest).1])

/-- A gap that is all of a text goes on behind it after the end of a line; any other one ends where
it ends in the text. -/
theorem gapFrom_line (h : (gapFrom mode newline lineStart n cs).outcome = .ok () size) :
    gapFrom mode newline lineStart n (cs ++ '\n' :: more) =
      if size = n + cs.length then gapFrom .blank true true (size + 1) more
      else gapFrom mode newline lineStart n cs := by
  have hline : isLineEnd '\n' = true := by decide
  have hlength (n : Nat) (c : Char) (rest : List Char) :
      n + (c :: rest).length = n + 1 + rest.length := by
    rw [List.length_cons, Nat.add_assoc, Nat.add_comm 1]
  fun_induction gapFrom mode newline lineStart n cs with
  | case1 => cases h
  | case2 mode _ _ n hmode =>
    cases h
    rw [List.length_nil, Nat.add_zero, if_pos rfl, List.nil_append]
    cases mode with
    | blockComment start => exact absurd rfl (hmode start)
    | blank => rw [gapFrom_blank (by simp), if_pos hline]
    | lineComment => rw [gapFrom_inLine, if_pos hline]
  | case3 _ _ _ n rest ih =>
    rw [List.cons_append, List.cons_append, gapFrom_closing, ih h, hlength, hlength]
  | case4 start _ _ n c rest hclose ih =>
    rw [List.cons_append, gapFrom_inBlock (ne_line (by decide) hclose), ih h, hlength]
  | case5 _ _ n c rest hend ih =>
    rw [List.cons_append, gapFrom_inLine, if_pos hend, ih h, hlength]
  | case6 _ _ n c rest hend ih =>
    rw [List.cons_append, gapFrom_inLine, if_neg hend, ih h, hlength]
  | case7 _ _ n rest ih =>
    rw [List.cons_append, List.cons_append, gapFrom_opening, ih h, hlength, hlength]
  | case8 _ _ n c rest hblock hend ih =>
    rw [List.cons_append, gapFrom_blank (ne_line (by decide) hblock), if_pos hend, ih h, hlength]
  | case9 _ _ n c rest hblock hend hblank ih =>
    rw [List.cons_append, gapFrom_blank (ne_line (by decide) hblock), if_neg hend, if_pos hblank,
      ih h, hlength]
  | case10 _ _ n c rest hblock hend hblank hcomment ih =>
    rw [List.cons_append, gapFrom_blank (ne_line (by decide) hblock), if_neg hend, if_neg hblank,
      ← List.cons_append, opensLineComment_line, if_pos hcomment, ih h, hlength]
  | case11 _ _ n c rest hblock hend hblank hcomment =>
    cases h
    rw [List.cons_append, gapFrom_blank (ne_line (by decide) hblock), if_neg hend, if_neg hblank,
      ← List.cons_append, opensLineComment_line, if_neg hcomment, if_neg (by simp)]

end

/-! ## Lexers -/

theorem scanToken_ne_eof {regexAllowed : Bool} {depth last size : Nat} {body : TokenBody}
    {cs : List Char} (h : scanToken regexAllowed depth cs = (.ok body size, last)) (hne : cs ≠ []) :
    body ≠ .eof := by
  obtain ⟨c, cs, rfl⟩ := List.exists_cons_of_ne_nil hne
  rw [scanToken] at h
  split at h
  · obtain ⟨value, -, rfl⟩ := Scanned.eq_ok_of_map (congrArg Prod.fst h)
    simp
  split at h
  · obtain ⟨value, -, rfl⟩ := Scanned.eq_ok_of_map (congrArg Prod.fst h)
    simp
  split at h
  · obtain ⟨raw, rfl, -⟩ := scanTemplate_ends h
    simp
  split at h
  · obtain ⟨pattern, rest, rfl, -⟩ := scanRegex_ends (congrArg Prod.fst h)
    simp
  split at h
  · split at h
    · cases h
      unfold wordBody
      split
      · simp
      split
      · simp
      split
      · simp
      · simp
    · cases h
  split at h
  · cases h
    simp
  · cases h

namespace Lexer

theorem drop_add (c : Cursor) (n k : Nat) : (c.drop n).drop k = c.drop (n + k) := by
  simp [Cursor.drop, List.take_add, Position.after_append]

theorem next_drop {l : Lexer} (k : Nat) (newline lineStart : Bool)
    (h : gapFrom .blank l.newlineBefore l.lineStart 0 l.cursor.rest =
      gapFrom .blank newline lineStart k (l.cursor.rest.drop k)) :
    l.next = (mk (l.cursor.drop k) newline lineStart l.regexAllowed l.templateDepth).next := by
  have hshift : gapFrom .blank newline lineStart k (l.cursor.rest.drop k) =
      (gapFrom .blank newline lineStart 0 (l.cursor.rest.drop k)).shift k false := by
    rw [← gapFrom_shift, GapMode.shift_blank, Bool.false_or, Nat.zero_add]
  have hrest : (l.cursor.drop k).rest = l.cursor.rest.drop k := rfl
  rw [next, h, hshift, next, hrest]
  generalize gapFrom .blank newline lineStart 0 (l.cursor.rest.drop k) = gap
  obtain ⟨newline', lineStart', _ | _⟩ := gap
  · simp only [Gap.shift, Scanned.shift, afterGap, Bool.false_or, drop_add, Nat.add_comm k]
  · simp only [Gap.shift, Scanned.shift, afterGap, Bool.false_or, drop_add, errorAt, Nat.add_comm k]

theorem next_line {l : Lexer} {rest : List Char} (h : l.cursor.rest = '\n' :: rest) :
    l.next = (mk (l.cursor.drop 1) true true l.regexAllowed l.templateDepth).next := by
  refine next_drop 1 true true ?_
  have hline : isLineEnd '\n' = true := by decide
  rw [h, gapFrom_blank (by simp), if_pos hline]
  rfl

/-- The tokens that a lexer finds before it comes to where another one is. -/
inductive Cuts : Lexer → List Shape → Lexer → Prop
  | stay {l l' : Lexer} : l.next = l'.next → Cuts l [] l'
  | read {l m l' : Lexer} {t : Token} {shapes : List Shape} : l.next = (.ok t, m) →
    t.body ≠ .eof → Cuts m shapes l' → Cuts l (t.shape :: shapes) l'

theorem Cuts.append {l m l' : Lexer} {shapes shapes' : List Shape} (h : Cuts l shapes m)
    (h' : Cuts m shapes' l') : Cuts l (shapes ++ shapes') l' := by
  induction h with
  | stay hnext =>
    cases h' with
    | stay hnext' => exact .stay (hnext.trans hnext')
    | read hread hbody hrest => exact .read (hnext.trans hread) hbody hrest
  | read hread hbody _ ih => exact .read hread hbody (ih h')

theorem tokensFrom_congr {l l' : Lexer} (h : l.next = l'.next) (fuel : Nat) :
    l.tokensFrom (fuel + 1) = l'.tokensFrom (fuel + 1) := by
  rw [tokensFrom, tokensFrom, h]

theorem Cuts.tokensFrom {l l' : Lexer} {shapes : List Shape} {fuel : Nat} {tokens : Tokens}
    (h : Cuts l shapes l') (htokens : l'.tokensFrom (fuel + 1) = .ok tokens) :
    ∃ tokens', l.tokensFrom (shapes.length + fuel + 1) = .ok tokens' ∧
      tokens'.shapes = (shapes ++ tokens.shapes.1, tokens.shapes.2) := by
  induction h with
  | stay hnext =>
    refine ⟨tokens, ?_, rfl⟩
    rw [List.length_nil, Nat.zero_add, tokensFrom_congr hnext, htokens]
  | @read l m l' t shapes hread hbody _ ih =>
    obtain ⟨tokens', hrun, hshapes⟩ := ih htokens
    refine ⟨{ tokens' with items := t :: tokens'.items }, ?_, ?_⟩
    · rw [List.length_cons, Nat.add_right_comm shapes.length 1, Lexer.tokensFrom, hread]
      simp only [if_neg hbody, hrun]
    · rw [Tokens.shapes, Prod.mk.injEq] at hshapes
      rw [Tokens.shapes, List.map_cons, hshapes.1, hshapes.2, List.cons_append]

/-- The second lexer stands in a larger text: where the text of the first one ends, a line ends and
`more` follows. -/
structure Encloses (more : List Char) (l l' : Lexer) : Prop where
  rest : l'.cursor.rest = l.cursor.rest ++ '\n' :: more
  newline : l.newlineBefore = true → l'.newlineBefore = true
  lineStart : l'.lineStart = l.lineStart
  regexAllowed : l'.regexAllowed = l.regexAllowed
  templateDepth : l'.templateDepth = l.templateDepth

section
variable {more : List Char} {l l' m : Lexer} {t : Token}

theorem Encloses.gap (h : Encloses more l l') :
    gapFrom .blank l'.newlineBefore l'.lineStart 0 l.cursor.rest =
      (gapFrom .blank l.newlineBefore l.lineStart 0 l.cursor.rest).shift 0 l'.newlineBefore := by
  have hnewline : l'.newlineBefore = (l'.newlineBefore || l.newlineBefore) := by
    cases hl : l.newlineBefore with
    | true => rw [h.newline hl]; rfl
    | false => rw [Bool.or_false]
  rw [← gapFrom_shift, GapMode.shift_blank, ← hnewline, h.lineStart]

theorem Encloses.gap_ok {gap : Gap} {size : Nat} (h : Encloses more l l')
    (hgap : gapFrom .blank l.newlineBefore l.lineStart 0 l.cursor.rest = gap)
    (hok : gap.outcome = .ok () size) :
    (gapFrom .blank l'.newlineBefore l'.lineStart 0 l.cursor.rest).outcome = .ok () size := by
  rw [h.gap, hgap, Gap.shift, hok]
  rfl

theorem Encloses.afterGap (h : Encloses more l l') (gap : Gap) {size : Nat}
    (hsize : size ≤ l.cursor.rest.length) :
    Encloses more (l.afterGap gap size) (l'.afterGap (gap.shift 0 l'.newlineBefore) size) := by
  refine ⟨?_, fun hnewline => ?_, rfl, h.regexAllowed, h.templateDepth⟩
  · simp only [Lexer.afterGap, Cursor.drop, h.rest]
    rw [List.drop_append_of_le_length hsize]
  · have hgap : gap.newline = true := hnewline
    simp [Lexer.afterGap, Gap.shift, hgap]

theorem Encloses.readToken (h : Encloses more l l') (hne : l.cursor.rest ≠ [])
    (hread : l.readToken = (.ok t, m)) :
    t.newlineBefore = l.newlineBefore ∧ ∃ t' m', l'.readToken = (.ok t', m') ∧ t'.body = t.body ∧
      t'.newlineBefore = l'.newlineBefore ∧ m'.newlineBefore = false ∧ Encloses more m m' := by
  unfold Lexer.readToken at hread ⊢
  split at hread
  · rename_i body size depth hscan
    cases hread
    have hsize : size ≤ l.cursor.rest.length := by
      have hwithin := scanToken_within l.regexAllowed l.templateDepth l.cursor.rest
      rwa [hscan] at hwithin
    have hlexeme : (l.cursor.rest ++ '\n' :: more).take size = l.cursor.rest.take size :=
      List.take_append_of_le_length hsize
    rw [h.rest, h.regexAllowed, h.templateDepth, scanToken_apart (.inr rfl) hne hscan]
    refine ⟨rfl, _, _, rfl, rfl, rfl, rfl, ?_, nofun, rfl, ?_, rfl⟩
    · simp only [Cursor.drop, h.rest]
      rw [List.drop_append_of_le_length hsize]
    · dsimp only
      rw [hlexeme]
  · cases hread

theorem next_cases (hnext : l.next = (.ok t, m)) :
    ∃ gap size, gapFrom .blank l.newlineBefore l.lineStart 0 l.cursor.rest = gap ∧
      gap.outcome = .ok () size ∧ size ≤ l.cursor.rest.length ∧
      (l.afterGap gap size).readToken = (.ok t, m) := by
  rw [Lexer.next] at hnext
  split at hnext
  · rename_i size hgap
    refine ⟨_, size, rfl, hgap, ?_, hnext⟩
    have hwithin : (gapFrom .blank l.newlineBefore l.lineStart 0 l.cursor.rest).outcome.Within
        (0 + l.cursor.rest.length) := gapFrom_within _ _ True.intro
    rw [hgap, Nat.zero_add] at hwithin
    exact hwithin
  · cases hnext

theorem Encloses.next (h : Encloses more l l') (hnext : l.next = (.ok t, m)) (hbody : t.body ≠ .eof) :
    ∃ t' m', l'.next = (.ok t', m') ∧ t'.shape = ⟨t.body, l'.newlineBefore || t.newlineBefore⟩ ∧
      m'.newlineBefore = false ∧ Encloses more m m' := by
  obtain ⟨gap, size, hgap, hok, hsize, hread⟩ := next_cases hnext
  have hne : (l.afterGap gap size).cursor.rest ≠ [] := by
    intro hnil
    rw [Lexer.readToken, hnil] at hread
    cases hread
    exact hbody rfl
  have hshort : size ≠ l.cursor.rest.length := by
    rintro rfl
    simp [Lexer.afterGap, Cursor.drop] at hne
  have hgap' : gapFrom .blank l'.newlineBefore l'.lineStart 0 l'.cursor.rest =
      gap.shift 0 l'.newlineBefore := by
    rw [h.rest, gapFrom_line (h.gap_ok hgap hok), if_neg (by rwa [Nat.zero_add]), h.gap, hgap]
  obtain ⟨hbreak, t', m', hread', hbody', hbreak', hfresh, hencloses⟩ :=
    (h.afterGap gap hsize).readToken hne hread
  refine ⟨t', m', ?_, ?_, hfresh, hencloses⟩
  · rw [Lexer.next, hgap', Gap.shift, hok]
    exact hread'
  · rw [Token.shape, hbody', hbreak', hbreak]
    rfl

theorem Encloses.end (h : Encloses more l l') (hnext : l.next = (.ok t, m)) (hbody : t.body = .eof) :
    l'.next = (Lexer.mk (l'.cursor.drop (l.cursor.rest.length + 1)) true true l'.regexAllowed
      l'.templateDepth).next := by
  obtain ⟨gap, size, hgap, hok, hsize, hread⟩ := next_cases hnext
  have hnil : (l.afterGap gap size).cursor.rest = [] := by
    by_contra hne
    rw [Lexer.readToken] at hread
    split at hread
    · rename_i hscan
      cases hread
      exact scanToken_ne_eof hscan hne hbody
    · cases hread
  have hall : size = l.cursor.rest.length :=
    Nat.le_antisymm hsize (List.drop_eq_nil_iff.1 hnil)
  refine next_drop _ true true ?_
  rw [h.rest, gapFrom_line (h.gap_ok hgap hok), if_pos (by rw [hall, Nat.zero_add]), hall]
  simp

end

/-- Shapes of which the first one may have the end of a line before it. -/
def leadOn (newline : Bool) : List Shape → List Shape
  | [] => []
  | s :: rest => ⟨s.body, newline || s.newlineBefore⟩ :: rest

theorem leadOn_false (shapes : List Shape) : leadOn false shapes = shapes := by
  cases shapes <;> rfl

theorem length_leadOn (newline : Bool) (shapes : List Shape) :
    (leadOn newline shapes).length = shapes.length := by
  cases shapes <;> rfl

/-- The lexer stands before a text, outside of any template. -/
structure Before (rest : List Char) (newline : Bool) (l : Lexer) : Prop where
  rest : l.cursor.rest = rest
  newline : l.newlineBefore = newline
  templateDepth : l.templateDepth = 0

/-- **What is cut from a text alone is cut from it within a larger text**, where the end of a line
stands behind it. -/
theorem Encloses.cuts {more : List Char} {l l' : Lexer} {fuel : Nat} {tokens : Tokens}
    (h : Encloses more l l') (hdepth : l.templateDepth = 0)
    (htokens : l.tokensFrom fuel = .ok tokens) :
    ∃ after, Cuts l' (leadOn l'.newlineBefore tokens.shapes.1) after ∧ after.Before more true := by
  induction fuel generalizing l l' tokens with
  | zero => cases htokens
  | succ fuel ih =>
    rw [Lexer.tokensFrom] at htokens
    split at htokens
    · cases htokens
    · rename_i t m hnext
      by_cases hbody : t.body = .eof
      · rw [if_pos hbody] at htokens
        cases htokens
        refine ⟨_, .stay (h.end hnext hbody), ?_, rfl, h.templateDepth.trans hdepth⟩
        simp [Cursor.drop, h.rest]
      · rw [if_neg hbody] at htokens
        split at htokens
        · rename_i others hothers
          cases htokens
          obtain ⟨t', m', hnext', hshape, hfresh, hencloses⟩ := h.next hnext hbody
          obtain ⟨after, hcuts, hafter⟩ := ih hencloses (next_lexed hdepth hnext).2 hothers
          rw [hfresh, leadOn_false] at hcuts
          refine ⟨after, ?_, hafter⟩
          have hbody' : t'.body = t.body := congrArg Shape.body hshape
          have hread := Cuts.read hnext' (hbody' ▸ hbody) hcuts
          rwa [hshape] at hread
        · cases htokens

theorem bodies_of_tokensFrom {l : Lexer} {fuel : Nat} {tokens : Tokens}
    (h : l.tokensFrom fuel = .ok tokens) :
    (∀ t ∈ tokens.items, t.body ≠ .eof) ∧ tokens.last.body = .eof := by
  induction fuel generalizing l tokens with
  | zero => cases h
  | succ fuel ih =>
    rw [Lexer.tokensFrom] at h
    split at h
    · cases h
    split at h
    · rename_i hbody
      cases h
      exact ⟨by simp, hbody⟩
    split at h
    · rename_i hbody _ _ hothers
      cases h
      exact ⟨List.forall_mem_cons.2 ⟨hbody, (ih hothers).1⟩, (ih hothers).2⟩
    · cases h

theorem length_items_lt {l : Lexer} {fuel : Nat} {tokens : Tokens}
    (h : l.tokensFrom fuel = .ok tokens) : tokens.items.length < fuel := by
  induction fuel generalizing l tokens with
  | zero => cases h
  | succ fuel ih =>
    rw [Lexer.tokensFrom] at h
    split at h
    · cases h
    split at h
    · cases h
      exact Nat.zero_lt_succ _
    split at h
    · rename_i hothers
      cases h
      exact Nat.succ_lt_succ (ih hothers)
    · cases h

theorem Before.cuts_token {p : Printed} {rest : List Char} {newline : Bool} {l : Lexer}
    (h : l.Before (p.chars ++ rest) newline) (hplain : p.body.Plain) (hend : p.body.Ends rest)
    (hslash : p.body.fitsSlash l.regexAllowed = true) :
    ∃ after, Cuts l [⟨p.body, newline || p.spacing.breaks⟩] after ∧ after.Before rest false ∧
      after.regexAllowed = regexAllowedAfter p.body p.body.spelling := by
  obtain ⟨t, after, hnext, hbody, -, hbreaks, hrest, hfresh, -, hallowed, hdepth⟩ :=
    next_written hplain hend hslash h.templateDepth h.rest
  have hshape : t.shape = ⟨p.body, newline || p.spacing.breaks⟩ := by
    rw [Token.shape, hbody, hbreaks, h.newline]
  have heof : t.body ≠ .eof := by
    rw [hbody]
    intro heof
    rw [heof] at hplain
    exact hplain
  refine ⟨after, ?_, ⟨hrest, hfresh, hdepth⟩, hallowed⟩
  rw [← hshape]
  exact .read hnext heof (.stay rfl)

theorem Before.cuts_symbol {s : Symbol} {rest : List Char} {newline : Bool} {l : Lexer}
    (h : l.Before (s.text.toList ++ rest) newline)
    (hend : ∀ c ∈ rest.head?, s.stopsAt c = true)
    (hslash : ∀ allowed, (TokenBody.symbol s).fitsSlash allowed = true) :
    ∃ after, l.Cuts [⟨.symbol s, newline⟩] after ∧ after.Before rest false ∧
      after.regexAllowed = !operandEnds.contains s := by
  have hchars : l.Before ((Printed.symbol .joined s).chars ++ rest) newline := by
    rwa [Printed.chars_symbol, Spacing.chars_joined, List.nil_append]
  obtain ⟨after, hcuts, hafter, hallowed⟩ :=
    hchars.cuts_token (p := .symbol .joined s) trivial hend (hslash _)
  exact ⟨after, by simpa [Printed.symbol, Spacing.breaks] using hcuts, hafter, hallowed⟩

/-- **A value on lines of its own** is cut into the tokens that it has alone, the first of which has
the end of a line before it. -/
theorem Before.cuts_value {text : String} {tokens : Tokens} {more : List Char} {newline : Bool}
    {l : Lexer} (h : l.Before ('\n' :: (text.toList ++ '\n' :: more)) newline)
    (hallowed : l.regexAllowed = true) (htokens : tokenize text .first = .ok tokens) :
    ∃ after, Cuts l (leadOn true tokens.shapes.1) after ∧ after.Before more true := by
  have hencloses : Encloses more (Lexer.start text .first)
      ⟨l.cursor.drop 1, true, true, l.regexAllowed, l.templateDepth⟩ :=
    ⟨by simp [Cursor.drop, h.rest, Lexer.start], fun _ => rfl, rfl, hallowed, h.templateDepth⟩
  obtain ⟨after, hcuts, hafter⟩ := hencloses.cuts rfl htokens
  exact ⟨after, Cuts.append (.stay (next_line h.rest)) hcuts, hafter⟩

end Lexer

end WidgetLint.Script
