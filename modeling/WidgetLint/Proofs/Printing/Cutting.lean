import Mathlib.Data.List.Chain
import WidgetLint.Proofs.Printing.Leads
import WidgetLint.Proofs.Printing.Spelling
import WidgetLint.Proofs.Script.Relabel

/-!
# Cutting printed text into tokens

A printed text is cut into the tokens it was printed from (`tokenize_written`), if every token is
plain, no token runs into the next one, and every slash stands where it is read as it is meant.
-/

namespace WidgetLint.Script

open Text

variable {rest : List Char}

/-! ## Neighbours -/

/-- The second token does not run into the first one. -/
def Printed.Apart (p q : Printed) : Prop :=
  p.body.Plain → q.body.Plain → ∀ c ∈ q.chars.head?, p.body.stopsAt c = true

/-- A slash of the second token is read as it is meant after the first one. -/
def Printed.Slashed (p q : Printed) : Prop :=
  q.body.fitsSlash (regexAllowedAfter p.body p.body.spelling) = true

/-- Whether printed tokens can be read back one by one. -/
structure Readable (ts : List Printed) : Prop where
  plain : ∀ p ∈ ts, p.body.Plain
  apart : ts.IsChain Printed.Apart
  first : ∀ p ∈ ts.head?, p.body.fitsSlash true = true
  slashed : ts.IsChain Printed.Slashed

theorem TokenBody.Plain.spelling_ne_nil {body : TokenBody} (h : body.Plain) :
    body.spelling.toList ≠ [] := by
  intro hnil
  obtain ⟨allowed, hslash⟩ : ∃ allowed, body.fitsSlash allowed = true := by
    by_cases hregex : body.fitsSlash true = true
    · exact ⟨true, hregex⟩
    · refine ⟨false, ?_⟩
      unfold TokenBody.fitsSlash at hregex ⊢
      split at hregex <;> simp at hregex ⊢
  have hends : body.Ends [] := nofun
  have hscan := h.scanToken hends hslash
  rw [hnil] at hscan
  cases hscan
  exact h

theorem Printed.chars_ne_nil {p : Printed} (h : p.body.Plain) : p.chars ≠ [] := by
  simp [Printed.chars, h.spelling_ne_nil]

theorem length_le_written {ts : List Printed} (h : ∀ p ∈ ts, p.body.Plain) :
    ts.length ≤ (written ts).length := by
  induction ts with
  | nil => exact Nat.le_refl 0
  | cons p ts ih =>
    obtain ⟨hp, hts⟩ := List.forall_mem_cons.1 h
    have hrest := ih hts
    have hchars := List.length_pos_iff.2 (Printed.chars_ne_nil hp)
    rw [written_cons, List.length_append, List.length_cons]
    omega

/-- What stands after a token that is apart from the next one does not belong to it. -/
theorem Printed.Apart.ends {p : Printed} {ts : List Printed} (h : (p :: ts).IsChain Printed.Apart)
    (hplain : ∀ q ∈ p :: ts, q.body.Plain) : p.body.Ends (written ts) := by
  cases ts with
  | nil => nofun
  | cons q ts =>
    obtain ⟨hp, hq, -⟩ : p.body.Plain ∧ q.body.Plain ∧ ∀ r ∈ ts, r.body.Plain := by
      simpa using hplain
    have hapart := (List.isChain_cons_cons.1 h).1 hp hq
    rw [TokenBody.Ends, written_cons, List.head?_append_of_ne_nil _ (Printed.chars_ne_nil hq)]
    exact hapart

/-! ## Steps -/

theorem gapFrom_blanks (newline lineStart : Bool) (n k : Nat) :
    gapFrom .blank newline lineStart n (List.replicate k ' ' ++ rest) =
      gapFrom .blank newline lineStart (n + k) rest := by
  induction k generalizing n with
  | zero => rfl
  | succ k ih =>
    have hline : isLineEnd ' ' = false := by decide
    have hblank : isWhiteSpace ' ' = true := by decide
    rw [List.replicate_succ, List.cons_append, gapFrom, hline, hblank, if_neg Bool.false_ne_true,
      if_pos rfl, ih]
    · congr 1
      omega
    · rintro _ ⟨⟩

theorem gapFrom_spacing (spacing : Spacing) (newline lineStart : Bool) (n : Nat) :
    gapFrom .blank newline lineStart n (spacing.chars ++ rest) =
      gapFrom .blank (newline || spacing.breaks) (lineStart || spacing.breaks)
        (n + spacing.chars.length) rest := by
  cases spacing with
  | joined => simp [Spacing.chars, Spacing.breaks]
  | spaced =>
    have hblank := @gapFrom_blanks rest newline lineStart n 1
    simpa [Spacing.chars, Spacing.breaks] using hblank
  | line indent =>
    have hline : isLineEnd '\n' = true := by decide
    rw [Spacing.chars, List.cons_append, gapFrom, hline, if_pos rfl, gapFrom_blanks]
    · simp only [Spacing.breaks, Bool.or_true, List.length_cons, List.length_replicate]
      congr 1
      omega
    · rintro _ ⟨⟩

namespace Lexer

theorem next_written {p : Printed} {l : Lexer} (hplain : p.body.Plain) (hend : p.body.Ends rest)
    (hslash : p.body.fitsSlash l.regexAllowed = true) (hdepth : l.templateDepth = 0)
    (hrest : l.cursor.rest = p.chars ++ rest) :
    ∃ token next, l.next = (.ok token, next) ∧ token.body = p.body ∧
      token.lexeme = p.body.spelling ∧
      token.newlineBefore = (l.newlineBefore || p.spacing.breaks) ∧
      next.cursor.rest = rest ∧ next.newlineBefore = false ∧ next.lineStart = false ∧
      next.regexAllowed = regexAllowedAfter p.body p.body.spelling ∧ next.templateDepth = 0 := by
  have hgap : gapFrom .blank l.newlineBefore l.lineStart 0 l.cursor.rest =
      ⟨l.newlineBefore || p.spacing.breaks, l.lineStart || p.spacing.breaks,
        .ok () p.spacing.chars.length⟩ := by
    rw [hrest, Printed.chars, List.append_assoc, gapFrom_spacing, hplain.gapFrom hend, Nat.zero_add]
  have hdrop : (l.cursor.drop p.spacing.chars.length).rest = p.body.spelling.toList ++ rest := by
    simp [Cursor.drop, hrest, Printed.chars]
  have hscan := hplain.scanToken hend hslash
  rw [next, hgap]
  dsimp only
  rw [readToken, afterGap]
  dsimp only
  rw [hdepth, hdrop, hscan]
  refine ⟨_, _, rfl, rfl, ?_, rfl, ?_, rfl, rfl, ?_, rfl⟩ <;> simp [Cursor.drop, hrest, Printed.chars]

theorem next_end {l : Lexer} (hrest : l.cursor.rest = []) :
    ∃ next, l.next =
      (.ok ⟨.eof, "", ⟨l.cursor.position, l.cursor.position⟩, l.newlineBefore⟩, next) := by
  have hgap : gapFrom .blank l.newlineBefore l.lineStart 0 l.cursor.rest =
      ⟨l.newlineBefore, l.lineStart, .ok () 0⟩ := by
    rw [hrest]
    rfl
  rw [next, hgap]
  dsimp only
  rw [readToken, afterGap]
  simp only [Cursor.drop, hrest, List.drop_nil, scanToken]
  exact ⟨_, rfl⟩

/-- **A printed text is cut into its tokens.** -/
theorem tokensFrom_written {ts : List Printed} {l : Lexer} {fuel : Nat}
    (hplain : ∀ p ∈ ts, p.body.Plain) (hapart : ts.IsChain Printed.Apart)
    (hfirst : ∀ p ∈ ts.head?, p.body.fitsSlash l.regexAllowed = true)
    (hslashed : ts.IsChain Printed.Slashed) (hdepth : l.templateDepth = 0)
    (hline : l.newlineBefore = false) (hrest : l.cursor.rest = written ts)
    (hfuel : ts.length < fuel) :
    ∃ tokens, l.tokensFrom fuel = .ok tokens ∧
      tokens.move (fun _ => .first) = ⟨asTokens ts, Parser.endToken⟩ := by
  induction ts generalizing l fuel with
  | nil =>
    obtain ⟨fuel, rfl⟩ : ∃ n, fuel = n + 1 := ⟨fuel - 1, by omega⟩
    obtain ⟨next, hnext⟩ := next_end hrest
    rw [hline] at hnext
    rw [tokensFrom, hnext]
    exact ⟨_, rfl, rfl⟩
  | cons p ts ih =>
    obtain ⟨fuel, rfl⟩ : ∃ n, fuel = n + 1 := ⟨fuel - 1, by omega⟩
    obtain ⟨hp, hts⟩ := List.forall_mem_cons.1 hplain
    rw [written_cons] at hrest
    obtain ⟨token, next, hnext, hbody, hlexeme, hbreaks, hcursor, hfresh, -, hallowed, hdepth'⟩ :=
      next_written hp (Printed.Apart.ends hapart hplain) (hfirst p rfl) hdepth hrest
    have hhead : ∀ q ∈ ts.head?, q.body.fitsSlash next.regexAllowed = true := by
      rw [hallowed]
      exact fun q hq => (List.isChain_cons.1 hslashed).1 q hq
    obtain ⟨tokens, htokens, hmove⟩ := ih hts (List.isChain_cons.1 hapart).2 hhead
      (List.isChain_cons.1 hslashed).2 hdepth' hfresh hcursor (by simpa using hfuel)
    have hsome : token.body ≠ .eof := by
      rw [hbody]
      intro heof
      rw [heof] at hp
      exact hp
    rw [tokensFrom, hnext]
    simp only [if_neg hsome, htokens]
    refine ⟨_, rfl, ?_⟩
    have htoken : token.move (fun _ => .first) = p.token := by
      obtain ⟨body, lexeme, span, newlineBefore⟩ := token
      simp only at hbody hlexeme hbreaks
      subst hbody hlexeme hbreaks
      simp [Token.move, Printed.token, Span.move, hline]
    simp only [Tokens.move, Tokens.mk.injEq] at hmove ⊢
    rw [List.map_cons, htoken, hmove.1, hmove.2, asTokens_cons]
    exact ⟨rfl, rfl⟩

end Lexer

/-- **A printed text is cut into the tokens it was printed from.** -/
theorem tokenize_written {text : String} {ts : List Printed} (h : Readable ts)
    (htext : text.toList = written ts) :
    ∃ tokens, tokenize text .first = .ok tokens ∧
      tokens.move (fun _ => .first) = ⟨asTokens ts, Parser.endToken⟩ := by
  have hlength := length_le_written h.plain
  rw [← htext, String.length_toList] at hlength
  exact Lexer.tokensFrom_written h.plain h.apart h.first h.slashed rfl rfl htext (by omega)

end WidgetLint.Script
