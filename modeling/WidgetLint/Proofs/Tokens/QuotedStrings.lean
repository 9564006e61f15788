import WidgetLint.Proofs.Printing.Cutting

/-!
# Quoted strings as tokens

The quoted form of a string is one string token with nothing after it, whatever the string is
(`tokenize_quote`). Every character is written so that it does not matter what comes after it, with
one exception: NUL is written as a backslash and a zero, and before a digit this is no escape of NUL.
**So the token has the value of the string exactly if no NUL stands directly before a digit**
(`tokenize_string_text`).
-/

namespace WidgetLint.Script

open Text

/-! ## Which strings are read back -/

/-- A string is read back as itself unless one of its NULs is directly before a digit. -/
theorem readBack_eq_self_iff {value : List Char} :
    readBack value = value ↔ ∀ d : Char, d.isDigit = true → ¬['\x00', d] <:+: value := by
  induction value with
  | nil => simp [readBack]
  | cons c value ih =>
    have hzero : '0' ≠ '\x00' := by decide
    have hfirst : (if c = '\x00' ∧ value.head?.any Char.isDigit then '0' else c) = c ↔
        ∀ d : Char, d.isDigit = true → ¬['\x00', d] <+: c :: value := by
      cases value with
      | nil => simp
      | cons e value =>
        by_cases hbad : c = '\x00' ∧ (e :: value).head?.any Char.isDigit
        · rw [if_pos hbad]
          obtain ⟨rfl, he⟩ := hbad
          exact iff_of_false hzero fun h => h e he (by simp)
        · rw [if_neg hbad]
          refine iff_of_true rfl fun d hd hprefix => hbad ?_
          simp only [List.cons_prefix_cons] at hprefix
          obtain ⟨rfl, rfl, -⟩ := hprefix
          exact ⟨rfl, hd⟩
    rw [readBack, List.cons.injEq, hfirst, ih]
    simp only [List.infix_cons_iff, not_or]
    exact ⟨fun h d hd => ⟨h.1 d hd, h.2 d hd⟩,
      fun h => ⟨fun d hd => (h d hd).1, fun d hd => (h d hd).2⟩⟩

/-! ## Tokens -/

namespace Lexer

theorem next_quote {l : Lexer} {value : String} {rest : List Char} (hdepth : l.templateDepth = 0)
    (hrest : l.cursor.rest = (quote value).toList ++ rest) :
    l.next = (.ok ⟨.string (String.ofList (readBack value.toList)), quote value,
        ⟨l.cursor.position, l.cursor.position.after (quote value).toList⟩, l.newlineBefore⟩,
      ⟨⟨rest, l.cursor.position.after (quote value).toList⟩, false, false, false, 0⟩) := by
  have htext : (quote value).toList = '"' :: (value.toList.flatMap quoteChar ++ ['"']) := by
    simp [quote]
  have hgap : gapFrom .blank l.newlineBefore l.lineStart 0 l.cursor.rest =
      ⟨l.newlineBefore, l.lineStart, .ok () 0⟩ := by
    rw [hrest, htext]
    exact BeginsToken.gapFrom ⟨by decide, by decide, by decide, by decide⟩ _ _ _ _
  rw [next, hgap]
  dsimp only
  rw [readToken, afterGap]
  simp only [Cursor.drop, Cursor.spanTo, List.drop_zero, List.take_zero, Position.after_nil, hdepth,
    hrest, scanToken_quote, List.take_left, List.drop_left, String.ofList_toList]
  rfl

end Lexer

/-- **The quoted form of a string is one token.** -/
theorem tokenize_quote (value : String) (origin : Position) :
    let stop := origin.after (quote value).toList
    tokenize (quote value) origin =
      .ok ⟨[⟨.string (String.ofList (readBack value.toList)), quote value, ⟨origin, stop⟩, false⟩],
        ⟨.eof, "", ⟨stop, stop⟩, false⟩⟩ := by
  intro stop
  obtain ⟨fuel, hfuel⟩ : ∃ n, (quote value).length = n + 1 := by
    refine ⟨(quote value).length - 1, ?_⟩
    have hlength : 2 ≤ (quote value).length := by
      rw [← String.length_toList]
      simp [quote]
    omega
  have hrest : (Lexer.start (quote value) origin).cursor.rest = (quote value).toList ++ [] := by
    simp [Lexer.start]
  have hnext := Lexer.next_quote rfl hrest
  obtain ⟨last, hend⟩ := @Lexer.next_end ⟨⟨[], stop⟩, false, false, false, 0⟩ rfl
  rw [tokenize, hfuel, Lexer.tokensFrom, hnext]
  dsimp only [Lexer.start]
  rw [if_neg (by simp), Lexer.tokensFrom, hend]
  dsimp only
  rw [if_pos rfl]

/-- **Which string literals are read back.** The text of a string literal is always cut into one
string token and the end of the text, and reading from behind the opening quote takes all of it.
What is read is the value of the literal exactly if none of its NULs stands directly before a
digit. -/
theorem tokenize_string_text (span : Span) (value : String) (origin : Position) :
    let text := (Expr.string span value).text
    let stop := origin.after text.toList
    let read := readBack value.toList
    tokenize text origin =
        .ok ⟨[⟨.string (String.ofList read), text, ⟨origin, stop⟩, false⟩],
          ⟨.eof, "", ⟨stop, stop⟩, false⟩⟩ ∧
      (∃ chars, text.toList = '"' :: chars ∧ scanString '"' 1 0 chars = .ok read text.length) ∧
      (read = value.toList ↔ ∀ d : Char, d.isDigit = true → ¬['\x00', d] <:+: value.toList) := by
  refine ⟨tokenize_quote value origin, ⟨value.toList.flatMap quoteChar ++ ['"'], ?_, ?_⟩,
    readBack_eq_self_iff⟩
  · show (quote value).toList = _
    simp [quote]
  · have hlength : (quote value).length = 1 + (value.toList.flatMap quoteChar).length + 1 := by
      rw [← String.length_toList]
      simp [quote]
      omega
    rw [scanString_quote]
    exact congrArg (Scanned.ok _) hlength.symm

/-- A NUL before a digit is written so that a string of two digits is read. -/
theorem null_before_digit_not_read_back :
    let value := "\x001"
    (Expr.string ⟨.first, .first⟩ value).text = "\"\\01\"" ∧
      tokenize "\"\\01\"" .first =
        .ok ⟨[⟨.string "01", "\"\\01\"", ⟨.first, ⟨1, 6, 5⟩⟩, false⟩],
          ⟨.eof, "", ⟨⟨1, 6, 5⟩, ⟨1, 6, 5⟩⟩, false⟩⟩ ∧
      "01" ≠ value := by
  intro value
  refine ⟨?_, ?_, ?_⟩
  · decide +kernel
  · decide +kernel
  · decide

end WidgetLint.Script
