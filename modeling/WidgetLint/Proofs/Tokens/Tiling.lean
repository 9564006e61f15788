import WidgetLint.Proofs.Inset.Cut
import WidgetLint.Proofs.Safety.Parser
import WidgetLint.Proofs.Tokens.Gaps
import WidgetLint.Proofs.Tokens.Slices

/-!
# Tokens tile their text

The tokens of a text follow one another, with nothing but white space and comments between them, and
each one stands for the characters of its span (`tokenize_tiles`).
-/

namespace WidgetLint.Script

open Text

/-! ## Places and slices -/

/-- The place before the character at an index. -/
def placeAt (text : List Char) (k : Nat) : Position :=
  Position.first.after (text.take k)

/-- The characters from one index up to another. -/
def slice (text : List Char) (a b : Nat) : List Char :=
  (text.take b).drop a

section
variable {text : List Char}

theorem slice_add (text : List Char) (a n : Nat) :
    slice text a (a + n) = (text.drop a).take n := by
  rw [slice, List.drop_take, Nat.add_sub_cancel_left]

theorem placeAt_add (text : List Char) (a n : Nat) :
    placeAt text (a + n) = (placeAt text a).after ((text.drop a).take n) := by
  rw [placeAt, placeAt, List.take_add, Position.after_append]

end

/-! ## Tiles -/

/-- The token stands for the characters from `a` to `b`, and before it, from `k` on, there is only
a gap. -/
structure Token.Tile (text : List Char) (lineStart : Bool) (k a b : Nat) (t : Token) : Prop where
  start : k ≤ a
  stop : a ≤ b
  bound : b ≤ text.length
  gap : Trivia lineStart (slice text k a) (text.drop a)
  newline : t.newlineBefore = (slice text k a).any isLineEnd
  span : t.span = ⟨placeAt text a, placeAt text b⟩
  lexeme : t.lexeme = String.ofList (slice text a b)
  alone : ReadsAlone (slice text a b) t.body
  spelt : t.body.SpeltBy (slice text a b)

theorem Token.Tile.take_append_slice {text : List Char} {lineStart : Bool} {k a b : Nat} {t : Token}
    (h : t.Tile text lineStart k a b) : text.take a ++ slice text a b = text.take b := by
  have htake : (text.take b).take a = text.take a := by rw [List.take_take, Nat.min_eq_left h.stop]
  rw [slice, ← htake, List.take_append_drop]

/-- The tokens are cut one behind the other from what is left of a text from an index on, up to its
end. Only the last one, which stands for the end, takes no characters. -/
inductive Tiles (text : List Char) : (lineStart : Bool) → (k : Nat) → List Token → Token → Prop
  | last {lineStart : Bool} {k : Nat} {t : Token} : t.body = .eof →
    t.Tile text lineStart k text.length text.length → Tiles text lineStart k [] t
  | token {lineStart : Bool} {k a b : Nat} {t last : Token} {ts : List Token} : t.body ≠ .eof →
    t.Tile text lineStart k a b → a < b → Tiles text false b ts last →
    Tiles text lineStart k (t :: ts) last

namespace Lexer

/-- The tokens are found one after the other from the first lexer on, and the second one is the state
behind them. -/
inductive Reads : Lexer → List Token → Lexer → Prop
  | nil {l : Lexer} : Reads l [] l
  | cons {l m l' : Lexer} {t : Token} {ts : List Token} : l.next = (.ok t, m) → Reads m ts l' →
    Reads l (t :: ts) l'

/-- Behind a gap a token was found, which is spelt by the characters `part`. -/
structure Found (l : Lexer) (gap part behind : List Char) (t : Token) (m : Lexer) : Prop where
  rest : l.cursor.rest = gap ++ (part ++ behind)
  trivia : Trivia l.lineStart gap (part ++ behind)
  stop : ∃ lineStart, NoGap lineStart (part ++ behind)
  scan : scanToken l.regexAllowed l.templateDepth (part ++ behind) =
    (.ok t.body part.length, m.templateDepth)
  lexeme : t.lexeme = String.ofList part
  newline : t.newlineBefore = (l.newlineBefore || gap.any isLineEnd)
  span : t.span = ⟨l.cursor.position.after gap, l.cursor.position.after (gap ++ part)⟩
  cursor : m.cursor = ⟨behind, l.cursor.position.after (gap ++ part)⟩
  fresh : m.newlineBefore = false
  lineStart : m.lineStart = false
  regexAllowed : m.regexAllowed = regexAllowedAfter t.body t.lexeme

section
variable {text : List Char} {k : Nat} {l m : Lexer} {t : Token}

theorem next_found (h : l.next = (.ok t, m)) :
    ∃ gap part behind, l.Found gap part behind t m := by
  unfold next at h
  dsimp only at h
  split at h
  case h_2 => cases h
  rename_i size hgap
  obtain ⟨gap, rest, hgap⟩ := gapFrom_trivia hgap
  obtain rfl : size = gap.length := by rw [hgap.size, Nat.zero_add]
  have hdrop : l.cursor.drop gap.length = ⟨rest, l.cursor.position.after gap⟩ := by
    rw [Cursor.drop, hgap.split, List.drop_left, List.take_left]
  unfold readToken afterGap at h
  simp only [hdrop] at h
  split at h
  case h_2 => cases h
  rename_i body n depth hscan
  have hn : n ≤ rest.length := by
    have hwithin := scanToken_within l.regexAllowed l.templateDepth rest
    rw [hscan] at hwithin
    exact hwithin
  have hlength : (rest.take n).length = n := List.length_take_of_le hn
  have hcut : rest.take n ++ rest.drop n = rest := List.take_append_drop n rest
  cases h
  refine ⟨gap, rest.take n, rest.drop n, ?_, ?_, ⟨_, hcut.symm ▸ hgap.stop⟩, ?_, rfl,
    hgap.newline, ?_, ?_, rfl, rfl, rfl⟩
  · rw [hcut, hgap.split]
  · rw [hcut]
    exact hgap.trivia
  · rw [hcut, hlength]
    exact hscan
  · simp only [Cursor.spanTo, Cursor.drop, Position.after_append]
  · simp only [Cursor.drop, Position.after_append]

theorem Found.readsAlone {gap part behind : List Char} (h : l.Found gap part behind t m)
    (hdepth : l.templateDepth = 0) (hdepth' : m.templateDepth = 0) : ReadsAlone part t.body := by
  have hscan := h.scan
  rw [hdepth, hdepth'] at hscan
  refine ⟨l.regexAllowed, ?_⟩
  obtain _ | ⟨c, part⟩ := part
  · obtain _ | ⟨c, behind⟩ := behind
    · exact hscan
    · exact absurd (size_pos_of_scanToken hscan (List.cons_ne_nil c behind)) (Nat.lt_irrefl 0)
  · exact scanToken_slice hscan (List.cons_ne_nil c part)

theorem Found.eof_iff {gap part behind : List Char} (h : l.Found gap part behind t m) :
    t.body = .eof ↔ part ++ behind = [] := by
  have hscan := h.scan
  constructor
  · intro heof
    by_contra hne
    exact scanToken_ne_eof hscan hne heof
  · intro hnil
    rw [hnil] at hscan
    injection congrArg Prod.fst hscan with hbody
    exact hbody.symm

/-- The lexer stands before the character at an index, behind a token or at the start. -/
structure StandsAt (text : List Char) (k : Nat) (l : Lexer) : Prop where
  bound : k ≤ text.length
  cursor : l.cursor = ⟨text.drop k, placeAt text k⟩
  newline : l.newlineBefore = false
  depth : l.templateDepth = 0

/-- **One token is one tile**, and only at the end of the text it takes no characters. -/
theorem next_tile (hl : l.StandsAt text k) (h : l.next = (.ok t, m)) :
    ∃ a b, t.Tile text l.lineStart k a b ∧ m.StandsAt text b ∧ m.lineStart = false ∧
      (t.body = .eof ∧ a = text.length ∧ b = text.length ∨ t.body ≠ .eof ∧ a < b) := by
  have hdepth := (next_lexed hl.depth h).2
  obtain ⟨gap, part, behind, hfound⟩ := next_found h
  have hsplit : text.drop k = gap ++ (part ++ behind) := by rw [← hfound.rest, hl.cursor]
  have hlength : k + gap.length + part.length + behind.length = text.length := by
    have hall := congrArg List.length hsplit
    have hbound := hl.bound
    rw [List.length_drop, List.length_append, List.length_append] at hall
    omega
  have hrest : text.drop (k + gap.length) = part ++ behind := by
    rw [← List.drop_drop, hsplit, List.drop_left]
  have hbehind : text.drop (k + gap.length + part.length) = behind := by
    rw [← List.drop_drop, hrest, List.drop_left]
  have hgap : slice text k (k + gap.length) = gap := by rw [slice_add, hsplit, List.take_left]
  have hpart : slice text (k + gap.length) (k + gap.length + part.length) = part := by
    rw [slice_add, hrest, List.take_left]
  have hstart : placeAt text (k + gap.length) = l.cursor.position.after gap := by
    rw [placeAt_add, hsplit, List.take_left, hl.cursor]
  have hstop : placeAt text (k + gap.length + part.length) =
      l.cursor.position.after (gap ++ part) := by
    rw [placeAt_add, hrest, List.take_left, hstart, Position.after_append]
  have halone := hfound.readsAlone hl.depth hdepth
  refine ⟨k + gap.length, k + gap.length + part.length, ?_, ?_, hfound.lineStart, ?_⟩
  · refine ⟨Nat.le_add_right _ _, Nat.le_add_right _ _, by omega, ?_, ?_, ?_, ?_, ?_, ?_⟩
    · rw [hgap, hrest]
      exact hfound.trivia
    · rw [hgap, hfound.newline, hl.newline, Bool.false_or]
    · rw [hstart, hstop, hfound.span]
    · rw [hpart, hfound.lexeme]
    · rwa [hpart]
    · rw [hpart]
      exact halone.speltBy
  · exact ⟨by omega, by rw [hbehind, hstop, hfound.cursor], hfound.fresh, hdepth⟩
  · by_cases hnil : part ++ behind = []
    · obtain ⟨rfl, rfl⟩ := List.append_eq_nil_iff.1 hnil
      simp only [List.length_nil] at hlength
      exact .inl ⟨hfound.eof_iff.2 hnil, by omega, by simp only [List.length_nil]; omega⟩
    · have hpos := size_pos_of_scanToken hfound.scan hnil
      exact .inr ⟨mt hfound.eof_iff.1 hnil, by omega⟩

theorem tokensFrom_tiles {fuel : Nat} {tokens : Tokens} (hl : l.StandsAt text k)
    (h : l.tokensFrom fuel = .ok tokens) : Tiles text l.lineStart k tokens.items tokens.last := by
  induction fuel generalizing l k tokens with
  | zero => cases h
  | succ fuel ih =>
    rw [tokensFrom] at h
    split at h
    · cases h
    rename_i t m hnext
    obtain ⟨a, b, htile, hm, hstart, hend⟩ := next_tile hl hnext
    split at h
    · rename_i heof
      cases h
      obtain ⟨-, rfl, rfl⟩ | ⟨hbody, -⟩ := hend
      · exact .last heof htile
      · exact absurd heof hbody
    rename_i hbody
    split at h
    · rename_i others hothers
      cases h
      have hlt : a < b := hend.elim (fun h => absurd h.1 hbody) (·.2)
      exact .token hbody htile hlt (hstart ▸ ih hm hothers)
    · cases h

theorem tokensFrom_reads {fuel : Nat} {tokens : Tokens} (h : l.tokensFrom fuel = .ok tokens) :
    ∃ l', l.Reads tokens.all l' := by
  induction fuel generalizing l tokens with
  | zero => cases h
  | succ fuel ih =>
    rw [tokensFrom] at h
    split at h
    · cases h
    rename_i t m hnext
    split at h
    · cases h
      exact ⟨m, .cons hnext .nil⟩
    split at h
    · rename_i others hothers
      cases h
      obtain ⟨l', hreads⟩ := ih hothers
      exact ⟨l', .cons hnext hreads⟩
    · cases h

theorem Reads.templateDepth {ts : List Token} (h : Reads l ts m) (hdepth : l.templateDepth = 0) :
    m.templateDepth = 0 := by
  induction h with
  | nil => exact hdepth
  | cons hnext _ ih => exact ih (next_lexed hdepth hnext).2

theorem standsAt_start (text : String) : (start text .first).StandsAt text.toList 0 :=
  ⟨Nat.zero_le _, rfl, rfl, rfl⟩

end

end Lexer

theorem Tiles.readsAlone {text : List Char} {lineStart : Bool} {k : Nat} {ts : List Token}
    {last : Token} (h : Tiles text lineStart k ts last) :
    ∀ t ∈ ts ++ [last], ReadsAlone t.lexeme.toList t.body := by
  induction h with
  | last _ htile =>
    intro t ht
    obtain rfl := List.mem_singleton.1 ht
    rw [htile.lexeme, String.toList_ofList]
    exact htile.alone
  | token _ htile _ _ ih =>
    refine List.forall_mem_cons.2 ⟨?_, ih⟩
    rw [htile.lexeme, String.toList_ofList]
    exact htile.alone

/-- **The tokens of a text tile it.** Each one stands for the characters between its places, which say
what token it is; between them there are only white space and comments, and a token knows whether a
line ends in the gap before it. No template is left open behind any of them. -/
theorem tokenize_tiles {text : String} {tokens : Tokens} (h : tokenize text .first = .ok tokens) :
    Tiles text.toList true 0 tokens.items tokens.last ∧
      (∀ t ∈ tokens.all, ∀ t' ∈ tokens.all, t.lexeme = t'.lexeme → t.body = t'.body) ∧
      (∃ l, (Lexer.start text .first).Reads tokens.all l) ∧
      ∀ ts l, (Lexer.start text .first).Reads ts l → l.templateDepth = 0 := by
  have htiles := Lexer.tokensFrom_tiles (Lexer.standsAt_start text) h
  refine ⟨htiles, fun t ht t' ht' hsame => ?_, Lexer.tokensFrom_reads h, fun ts l hreads => ?_⟩
  · have halone := htiles.readsAlone t ht
    rw [hsame] at halone
    exact halone.unique (htiles.readsAlone t' ht')
  · exact hreads.templateDepth rfl

/-- A comment before everything, one over two lines, a template within a template, and slashes that
divide, that begin a pattern and that begin a comment. -/
theorem tokenize_tiles_nestedTemplate : ∃ tokens,
    tokenize "--> one\nx /* two\n */ = `a$\x7b`\x7d`\x7d` / /[/]/g // three" .first = .ok tokens ∧
      tokens.items.map (·.body) = [.word "x", .symbol .eq, .template "a$\x7b`\x7d`\x7d",
        .symbol .slash, .regex "[/]" "g"] ∧
      Tiles "--> one\nx /* two\n */ = `a$\x7b`\x7d`\x7d` / /[/]/g // three".toList true 0 tokens.items
        tokens.last := by
  have hbodies : (tokenize "--> one\nx /* two\n */ = `a$\x7b`\x7d`\x7d` / /[/]/g // three"
      .first).toOption.map (fun tokens => tokens.items.map (·.body)) =
        some [.word "x", .symbol .eq, .template "a$\x7b`\x7d`\x7d", .symbol .slash,
          .regex "[/]" "g"] := by
    decide +kernel
  cases hread : tokenize "--> one\nx /* two\n */ = `a$\x7b`\x7d`\x7d` / /[/]/g // three" .first with
  | error e =>
    rw [hread] at hbodies
    cases hbodies
  | ok tokens =>
    rw [hread] at hbodies
    exact ⟨tokens, rfl, Option.some.inj hbodies, (tokenize_tiles hread).1⟩

end WidgetLint.Script
