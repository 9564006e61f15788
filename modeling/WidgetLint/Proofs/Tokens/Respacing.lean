import WidgetLint.Proofs.Tokens.Tiling

/-!
# Tokens set apart

A text is spread out by writing the spellings of its tokens one after the other, each behind the end
of a line if a line ended before the token and behind a space otherwise. The text that is spread out
is cut into the same tokens (`tokenize_respaced`): no comment, regular expression or longer
punctuator comes about or goes away.
-/

namespace WidgetLint.Script

open Text

/-- What stands before a token in a text that is spread out. -/
def Token.separator (t : Token) : Char :=
  if t.newlineBefore then '\n' else ' '

/-- The characters of a text that is spread out. -/
def Tokens.spread (tokens : Tokens) : List Char :=
  tokens.items.flatMap (fun t => t.separator :: t.lexeme.toList) ++
    if tokens.last.newlineBefore then ['\n'] else []

/-- A text that is spread out. -/
def Tokens.respaced (tokens : Tokens) : String :=
  String.ofList tokens.spread

/-- Nothing comes, or a separator does. -/
def SetApart (cs : List Char) : Prop :=
  ∀ c ∈ cs.head?, Separator c

section
variable {allowed : Bool} {depth : Nat} {part behind tail : List Char} {body : TokenBody}

theorem Token.separator_separator (t : Token) : Separator t.separator := by
  unfold Token.separator
  split
  · exact .inr rfl
  · exact .inl rfl

theorem Token.separator_breaks (t : Token) : (t.separator == '\n') = t.newlineBefore := by
  unfold Token.separator
  split
  · rename_i h
    exact h.symm
  · rename_i h
    exact (Bool.eq_false_iff.2 h).symm

theorem isPrefixOf_setApart {word : List Char} (htail : SetApart tail)
    (hword : (word.all fun c => !isWhiteSpace c) = true) :
    word.isPrefixOf (part ++ tail) = word.isPrefixOf part := by
  cases tail with
  | nil => rw [List.append_nil]
  | cons e tail =>
    have he : Separator e := htail e rfl
    exact isPrefixOf_apart fun hmem =>
      he.ne (by simpa using List.all_eq_true.1 hword e hmem) rfl

/-! ## Tokens -/

theorem scanToken_setApart (h : scanToken allowed depth (part ++ behind) = (.ok body part.length, 0))
    (hne : part ≠ []) (htail : SetApart tail) :
    scanToken allowed depth (part ++ tail) = (.ok body part.length, 0) := by
  have hself := scanToken_slice h hne
  cases tail with
  | nil => rwa [List.append_nil]
  | cons e tail => exact scanToken_apart (htail e rfl) hne hself

theorem symbol_of_minus (h : scanToken allowed depth ('-' :: part) = (.ok body (part.length + 1), 0)) :
    ∃ s : Symbol, s.text.toList = '-' :: part := by
  have hstart : isWordStart '-' = false := by simp [isWordStart_ascii]
  have hdigit : ¬(Char.isDigit '-' || '-' == '.' && part.head?.any Char.isDigit) = true :=
    Bool.false_ne_true
  have hword : ¬(isWordStart '-' || '-' == '\\' && part.head? == some 'u') = true := by
    simp [hstart]
  rw [scanToken, if_neg hdigit, if_neg (by decide), if_neg (by decide), if_neg (by simp),
    if_neg hword] at h
  split at h
  · rename_i s hread
    simp only [Prod.mk.injEq, Scanned.ok.injEq] at h
    exact ⟨s, Symbol.text_of_read? hread h.1.2⟩
  · cases h

/-- No gap begins with a token that is set apart, whether a line starts there or not. -/
theorem noGap_setApart {lineStart : Bool} (h : NoGap lineStart (part ++ behind))
    (hscan : scanToken allowed depth (part ++ behind) = (.ok body part.length, 0))
    (hne : part ≠ []) (htail : SetApart tail) (lineStart' : Bool) :
    NoGap lineStart' (part ++ tail) := by
  -- a mark of a comment would be in the spelling, and a comment would begin before
  have hmark {word : List Char} (hword : (word.all fun c => !isWhiteSpace c) = true)
      (hnone : word.isPrefixOf (part ++ behind) = false) :
      word.isPrefixOf (part ++ tail) = false := by
    rw [isPrefixOf_setApart htail hword, Bool.eq_false_iff, Ne, List.isPrefixOf_iff_prefix]
    intro hstarts
    rw [List.isPrefixOf_iff_prefix.2 (hstarts.trans (List.prefix_append part behind))] at hnone
    cases hnone
  have hline := h.line
  simp only [opensLineComment, Bool.or_eq_false_iff] at hline
  obtain ⟨⟨hslashes, hopening⟩, -⟩ := hline
  refine ⟨?_, ?_, hmark (by decide) h.block⟩
  · obtain ⟨c, part, rfl⟩ := List.exists_cons_of_ne_nil hne
    exact h.blank
  · have hclosing : ['-', '-', '>'].isPrefixOf (part ++ tail) = false := by
      rw [isPrefixOf_setApart htail (by decide), Bool.eq_false_iff, Ne, List.isPrefixOf_iff_prefix]
      rintro ⟨others, rfl⟩
      have hself := scanToken_slice hscan hne
      obtain ⟨s, hs⟩ := symbol_of_minus hself
      have hnone : ∀ s : Symbol, ['-', '-', '>'].isPrefixOf s.text.toList = false := by
        intro s
        cases s <;> decide
      have hstarts := hnone s
      rw [hs] at hstarts
      cases hstarts
    rw [opensLineComment, hmark (by decide) hslashes, hmark (by decide) hopening, hclosing,
      Bool.and_false]
    rfl

theorem NoGap.gapFrom {lineStart : Bool} {cs : List Char} (h : NoGap lineStart cs) (newline : Bool)
    (n : Nat) : gapFrom .blank newline lineStart n cs = ⟨newline, lineStart, .ok () n⟩ := by
  cases cs with
  | nil => rfl
  | cons c cs => exact gapFrom_stop (h.blank c rfl) h.line h.block newline n

theorem gapFrom_separator {e : Char} (he : Separator e) (newline lineStart : Bool) (n : Nat)
    (cs : List Char) : gapFrom .blank newline lineStart n (e :: cs) =
      gapFrom .blank (newline || e == '\n') (lineStart || e == '\n') (n + 1) cs := by
  rcases he with rfl | rfl
  · have hline : isLineEnd ' ' = false := by decide
    have hblank : isWhiteSpace ' ' = true := by decide
    rw [gapFrom_blank (by simp), hline, if_neg Bool.false_ne_true, if_pos hblank]
    simp
  · have hline : isLineEnd '\n' = true := by decide
    rw [gapFrom_blank (by simp), if_pos hline]
    simp

end

namespace Lexer

/-- The lexer stands before the given characters, behind a token or at the start. -/
structure Awaits (cs : List Char) (regexAllowed : Bool) (l : Lexer) : Prop where
  rest : l.cursor.rest = cs
  newline : l.newlineBefore = false
  regexAllowed : l.regexAllowed = regexAllowed
  depth : l.templateDepth = 0

section
variable {l m l' : Lexer} {t : Token} {gap part behind tail : List Char} {allowed : Bool}

/-- **A token is found again in a text that is spread out.** -/
theorem Found.respaced (h : l.Found gap part behind t m) (hdepth : l.templateDepth = 0)
    (hdepth' : m.templateDepth = 0) (hne : part ≠ []) (htail : SetApart tail)
    (hl' : l'.Awaits (t.separator :: (t.lexeme.toList ++ tail)) l.regexAllowed) :
    ∃ t' m', l'.next = (.ok t', m') ∧ t'.shape = t.shape ∧ m'.Awaits tail m.regexAllowed := by
  have hlexeme : t.lexeme.toList = part := by rw [h.lexeme, String.toList_ofList]
  have hrest : l'.cursor.rest = t.separator :: (part ++ tail) := by rw [hl'.rest, hlexeme]
  have hscan := h.scan
  rw [hdepth, hdepth'] at hscan
  obtain ⟨_, hstop⟩ := h.stop
  -- the gap is the separator alone
  have hgap : gapFrom .blank l'.newlineBefore l'.lineStart 0 l'.cursor.rest =
      ⟨t.newlineBefore, l'.lineStart || t.newlineBefore, .ok () 1⟩ := by
    rw [hrest, gapFrom_separator t.separator_separator,
      (noGap_setApart hstop hscan hne htail _).gapFrom, hl'.newline, t.separator_breaks,
      Bool.false_or]
  have hdrop : l'.cursor.drop 1 = ⟨part ++ tail, (l'.cursor.drop 1).position⟩ := by
    rw [Cursor.drop, hrest]
    rfl
  have hread : scanToken l'.regexAllowed l'.templateDepth (part ++ tail) =
      (.ok t.body part.length, 0) := by
    rw [hl'.regexAllowed, hl'.depth]
    exact scanToken_setApart hscan hne htail
  have hnext : l'.next = (.ok ⟨t.body, t.lexeme, (l'.cursor.drop 1).spanTo
      ((l'.cursor.drop 1).drop part.length), t.newlineBefore⟩,
      ⟨(l'.cursor.drop 1).drop part.length, false, false, m.regexAllowed, 0⟩) := by
    rw [next, hgap, h.regexAllowed, h.lexeme]
    simp only [afterGap, readToken]
    rw [hdrop, hread]
    simp only [List.take_left]
  refine ⟨_, _, hnext, rfl, ?_, rfl, rfl, rfl⟩
  rw [hdrop]
  exact List.drop_left

end

section
variable {l l' : Lexer} {allowed : Bool}

theorem Awaits.next_end {newline : Bool} (h : l.Awaits (if newline then ['\n'] else []) allowed) :
    ∃ t m, l.next = (.ok t, m) ∧ t.shape = ⟨.eof, newline⟩ := by
  cases newline with
  | false =>
    have hrest : l.cursor.rest = [] := h.rest
    rw [next, hrest, noGap_nil.gapFrom, h.newline]
    simp only [afterGap, readToken, Cursor.drop, hrest, List.drop_nil]
    exact ⟨_, _, rfl, rfl⟩
  | true =>
    have hrest : l.cursor.rest = ['\n'] := h.rest
    rw [next, hrest, gapFrom_separator (.inr rfl), noGap_nil.gapFrom, h.newline]
    simp only [afterGap, readToken, Cursor.drop, hrest]
    exact ⟨_, _, rfl, rfl⟩

theorem setApart_spread (tokens : Tokens) : SetApart tokens.spread := by
  intro c hc
  rw [Tokens.spread] at hc
  cases hitems : tokens.items with
  | nil =>
    rw [hitems, List.flatMap_nil, List.nil_append] at hc
    split at hc
    · cases hc
      exact .inr rfl
    · cases hc
  | cons t ts =>
    rw [hitems, List.flatMap_cons] at hc
    cases hc
    exact t.separator_separator

/-- **The tokens of a text are found again in the text that is spread out.** -/
theorem tokensFrom_spread {fuel : Nat} {tokens : Tokens} (h : l.tokensFrom fuel = .ok tokens)
    (hdepth : l.templateDepth = 0) (hl' : l'.Awaits tokens.spread l.regexAllowed) :
    ∃ after allowed, Cuts l' tokens.shapes.1 after ∧
      after.Awaits (if tokens.last.newlineBefore then ['\n'] else []) allowed := by
  induction fuel generalizing l l' tokens with
  | zero => cases h
  | succ fuel ih =>
    rw [tokensFrom] at h
    split at h
    · cases h
    rename_i t m hnext
    split at h
    · cases h
      exact ⟨l', _, .stay rfl, hl'⟩
    rename_i hbody
    split at h
    case h_2 => cases h
    rename_i others hothers
    cases h
    have hdepth' := (next_lexed hdepth hnext).2
    obtain ⟨gap, part, behind, hfound⟩ := next_found hnext
    have hne : part ≠ [] := by
      rintro rfl
      exact Nat.lt_irrefl 0 (size_pos_of_scanToken hfound.scan (mt hfound.eof_iff.2 hbody))
    have hspread : Tokens.spread { others with items := t :: others.items } =
        t.separator :: (t.lexeme.toList ++ others.spread) := by
      rw [Tokens.spread, Tokens.spread, List.flatMap_cons, List.append_assoc, List.cons_append]
    rw [hspread] at hl'
    obtain ⟨t', m', hnext', hshape, hm'⟩ :=
      hfound.respaced hdepth hdepth' hne (setApart_spread others) hl'
    obtain ⟨after, allowed, hcuts, hafter⟩ := ih hothers hdepth' hm'
    refine ⟨after, allowed, ?_, hafter⟩
    rw [Tokens.shapes, List.map_cons, ← hshape]
    exact .read hnext' (by rwa [show t'.body = t.body from congrArg Shape.body hshape]) hcuts

end

end Lexer

theorem length_items_le_spread (tokens : Tokens) : tokens.items.length ≤ tokens.spread.length := by
  have hitems (ts : List Token) :
      ts.length ≤ (ts.flatMap fun t => t.separator :: t.lexeme.toList).length := by
    induction ts with
    | nil => exact Nat.le_refl 0
    | cons t ts ih =>
      rw [List.flatMap_cons, List.length_append, List.length_cons, List.length_cons]
      omega
  rw [Tokens.spread, List.length_append]
  exact (hitems _).trans (Nat.le_add_right _ _)

theorem Tiles.covers {text : List Char} {lineStart : Bool} {k : Nat} {ts : List Token}
    {last : Token} (h : Tiles text lineStart k ts last) :
    ∀ t ∈ ts, t.span.Covers text t.lexeme.toList := by
  induction h with
  | last => simp
  | @token _ _ a b t _ _ _ htile _ _ ih =>
    refine List.forall_mem_cons.2 ⟨⟨text.take a, text.drop b, ?_, ?_, ?_⟩, ih⟩
    · rw [htile.lexeme, String.toList_ofList, htile.take_append_slice, List.take_append_drop]
    · rw [htile.span, placeAt]
    · rw [htile.lexeme, String.toList_ofList, htile.take_append_slice, htile.span]
      rfl

/-- **Spreading out a text does not change its tokens.** The slices of the text that its tokens stand
for, with the end of a line or a space before each one, are cut into tokens of the same bodies, with
the same ends of lines before them. -/
theorem tokenize_respaced {text : String} {tokens : Tokens}
    (h : tokenize text .first = .ok tokens) :
    (∀ t ∈ tokens.items, t.span.Covers text.toList t.lexeme.toList) ∧
      ∃ tokens', tokenize tokens.respaced .first = .ok tokens' ∧ tokens'.shapes = tokens.shapes := by
  refine ⟨(Lexer.tokensFrom_tiles (Lexer.standsAt_start text) h).covers, ?_⟩
  have hstart : (Lexer.start tokens.respaced .first).Awaits tokens.spread
      (Lexer.start text .first).regexAllowed :=
    ⟨String.toList_ofList, rfl, rfl, rfl⟩
  obtain ⟨after, allowed, hcuts, hafter⟩ := Lexer.tokensFrom_spread h rfl hstart
  obtain ⟨t, m, hnext, hshape⟩ := hafter.next_end
  have hlast : tokens.last.shape = ⟨.eof, tokens.last.newlineBefore⟩ := by
    rw [Token.shape, (Lexer.bodies_of_tokensFrom h).2]
  obtain ⟨k, hk⟩ := Nat.exists_eq_add_of_le (length_items_le_spread tokens)
  have hend : after.tokensFrom (k + 1) = .ok ⟨[], t⟩ := by
    rw [Lexer.tokensFrom, hnext]
    exact if_pos (congrArg Shape.body hshape)
  obtain ⟨tokens', hrun, hshapes⟩ := hcuts.tokensFrom hend
  refine ⟨tokens', ?_, ?_⟩
  · rw [tokenize, Tokens.respaced, String.length_ofList, hk, ← hrun, Tokens.shapes, List.length_map]
    rfl
  · rw [hshapes, Tokens.shapes, Tokens.shapes, hlast, hshape]
    simp

/-- Comments keep apart what would open a comment, and a slash begins a pattern after a colon. -/
theorem tokenize_respaced_comments : ∃ tokens,
    tokenize "a\n--/**/> b </*\n*/!--c ?/**/.5:/=/g" .first = .ok tokens ∧
      tokens.respaced = " a\n-- > b <\n! -- c ? .5 : /=/g" ∧
      ∃ tokens', tokenize tokens.respaced .first = .ok tokens' ∧
        tokens'.shapes = tokens.shapes := by
  have hspread : (tokenize "a\n--/**/> b </*\n*/!--c ?/**/.5:/=/g" .first).toOption.map
      (·.respaced) = some " a\n-- > b <\n! -- c ? .5 : /=/g" := by
    decide +kernel
  cases hread : tokenize "a\n--/**/> b </*\n*/!--c ?/**/.5:/=/g" .first with
  | error e =>
    rw [hread] at hspread
    cases hspread
  | ok tokens =>
    rw [hread] at hspread
    exact ⟨tokens, rfl, Option.some.inj hspread, (tokenize_respaced hread).2⟩

end WidgetLint.Script
