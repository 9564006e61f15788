import WidgetLint.Proofs.Markup.Rereading

/-!
# Cutting a written source again

Text stays text wherever it stands before a tag, a reference or the end of the source, so the
pieces of a source without problems are `Separable` (`pieces_separable`), and the written form of
separable pieces is cut into the same pieces (`piecesFrom_separable`).
-/

namespace WidgetLint.Markup

open Text

variable {html : Bool} {rest : List Char} {position : Position} {c next : Cursor}

/-! ## Text before a piece -/

/-- What may follow text: a tag, a reference or nothing. -/
def Neutral (rest : List Char) : Prop :=
  ∀ d ∈ rest.head?, d = '<' ∨ d = '&'

theorem neutral_nil : Neutral [] := by
  simp [Neutral]

theorem Neutral.head_false (h : Neutral rest) {p : Char → Bool} (hangle : p '<' = false)
    (hand : p '&' = false) : ∀ d ∈ rest.head?, p d = false := by
  intro d hd
  rcases h d hd with rfl | rfl
  · exact hangle
  · exact hand

section
variable {p : Char → Bool}

theorem takeWhile_append_neutral (text : List Char) (h : ∀ d ∈ rest.head?, p d = false) :
    (text ++ rest).takeWhile p = text.takeWhile p := by
  induction text with
  | nil =>
    cases rest with
    | nil => rfl
    | cons d rest => simp [h d rfl]
  | cons d text ih =>
    rw [List.cons_append, List.takeWhile_cons, List.takeWhile_cons, ih]

theorem dropWhile_append_neutral (text : List Char) (h : ∀ d ∈ rest.head?, p d = false) :
    (text ++ rest).dropWhile p = text.dropWhile p ++ rest := by
  induction text with
  | nil =>
    cases rest with
    | nil => rfl
    | cons d rest => simp [h d rfl]
  | cons d text ih =>
    rw [List.cons_append, List.dropWhile_cons, List.dropWhile_cons, ih]
    split <;> rfl

/-- Whether the first character passes a test does not depend on what follows the text. -/
theorem head_append_neutral (text : List Char) (h : ∀ d ∈ rest.head?, p d = false) :
    (text ++ rest).head?.any p = text.head?.any p := by
  cases text with
  | nil =>
    cases rest with
    | nil => rfl
    | cons d rest => simp [h d rfl]
  | cons d text => rfl

end

theorem name?_isSome (c : Cursor) : (name? c).isSome = c.rest.head?.any isNameStart := by
  unfold name?
  split
  · rename_i first others hrest
    rw [hrest]
    cases hfirst : isNameStart first <;> simp [hfirst]
  · rename_i hrest
    rw [hrest]
    rfl

theorem startsWith_singleton (d : Char) (c : Cursor) :
    c.startsWith [d] = c.rest.head?.any (d == ·) := by
  rw [Cursor.startsWith]
  cases c.rest <;> simp [List.isPrefixOf]

/-- Whether an angle bracket before the characters starts a piece. -/
def startsTag : List Char → Bool
  | '/' :: rest => rest.head?.any isNameStart
  | '!' :: _ => true
  | rest => rest.head?.any isNameStart

theorem openTag?_isSome (c : Cursor) :
    (openTag? html c).isSome = (name? (c.drop 1)).isSome := by
  unfold openTag?
  split
  · rename_i hname
    rw [hname]
    rfl
  · rename_i name afterName hname
    rw [hname]
    simp only
    split
    · rfl
    · split <;> rfl

theorem closeTag?_isSome (c : Cursor) : (closeTag? c).isSome = (name? (c.drop 2)).isSome := by
  unfold closeTag?
  split
  · rename_i hname
    rw [hname]
    rfl
  · rename_i name afterName hname
    rw [hname]
    rfl

theorem piece?_angle_isSome (text : List Char) (position : Position) :
    (piece? html ⟨'<' :: text, position⟩).isSome = startsTag text := by
  cases text with
  | nil => rfl
  | cons d text =>
    by_cases hslash : d = '/'
    · subst hslash
      have hpiece : piece? html ⟨'<' :: '/' :: text, position⟩ =
          closeTag? ⟨'<' :: '/' :: text, position⟩ := rfl
      rw [hpiece, closeTag?_isSome, name?_isSome]
      rfl
    · by_cases hbang : d = '!'
      · subst hbang
        have hclose : (⟨'<' :: '!' :: text, position⟩ : Cursor).startsWith ['<', '/'] = false := rfl
        have hopen : (⟨'<' :: '!' :: text, position⟩ : Cursor).startsWith ['<', '!'] = true := rfl
        simp only [piece?, hclose, hopen, Bool.false_eq_true, if_false, if_true]
        split
        · rfl
        · split <;> rfl
      · rw [piece?_openTag hslash hbang, openTag?_isSome, name?_isSome]
        unfold startsTag
        split
        · rename_i heq
          exact absurd (List.cons.inj heq).1 hslash
        · rename_i heq
          exact absurd (List.cons.inj heq).1 hbang
        · rfl

theorem startsTag_append (h : Neutral rest) (text : List Char) :
    startsTag (text ++ rest) = startsTag text := by
  have hstart : ∀ d ∈ rest.head?, isNameStart d = false := h.head_false (by decide) (by decide)
  cases text with
  | nil =>
    cases rest with
    | nil => rfl
    | cons d rest =>
      rcases h d rfl with rfl | rfl
      · rfl
      · rfl
  | cons d text =>
    rw [List.cons_append]
    unfold startsTag
    split
    · rename_i others heq
      obtain ⟨rfl, rfl⟩ := List.cons.inj heq
      exact head_append_neutral text hstart
    · rename_i others heq
      obtain ⟨rfl, rfl⟩ := List.cons.inj heq
      rfl
    · rename_i hslash hbang
      split
      · rename_i heq
        obtain ⟨rfl, rfl⟩ := List.cons.inj heq
        exact absurd rfl (hslash _)
      · rename_i heq
        obtain ⟨rfl, rfl⟩ := List.cons.inj heq
        exact absurd rfl (hbang _)
      · rfl

theorem charRef?_isSome_append (h : Neutral rest) (text : List Char) (p q : Position) :
    (charRef? ⟨'&' :: '#' :: (text ++ rest), p⟩).isSome =
      (charRef? ⟨'&' :: '#' :: text, q⟩).isSome := by
  have hdigits (radix : Nat) : ∀ d ∈ rest.head?, isDigitIn radix d = false := by
    intro d hd
    rcases h d hd with rfl | rfl
    · rfl
    · rfl
  have hmark : ∀ d ∈ rest.head?, ('x' == d) = false := h.head_false (by decide) (by decide)
  have hend : ∀ d ∈ rest.head?, (';' == d) = false := h.head_false (by decide) (by decide)
  have hdrop (p : Position) (cs : List Char) : (⟨'&' :: '#' :: cs, p⟩ : Cursor).drop 2 =
      ⟨cs, (p.next '&').next '#'⟩ := rfl
  unfold charRef?
  simp only [hdrop, startsWith_singleton, head_append_neutral text hmark]
  cases hhex : text.head?.any ('x' == ·) with
  | true =>
    cases text with
    | nil => cases hhex
    | cons d text =>
      simp only [if_true, Cursor.drop, Cursor.run, Cursor.skip, List.cons_append, List.drop_succ_cons,
        List.drop_zero, takeWhile_append_neutral text (hdigits 16),
        dropWhile_append_neutral text (hdigits 16), head_append_neutral _ hend]
      split <;> rfl
  | false =>
    simp only [Bool.false_eq_true, if_false, Cursor.run, Cursor.skip,
      takeWhile_append_neutral text (hdigits 10), dropWhile_append_neutral text (hdigits 10),
      head_append_neutral _ hend]
    split <;> rfl

theorem entityRef?_isSome (c : Cursor) :
    (entityRef? c).isSome = ((c.drop 1).rest.head?.any isNameStart &&
      ((c.drop 1).rest.dropWhile isNameChar).head?.any (';' == ·)) := by
  rw [← name?_isSome]
  unfold entityRef?
  split
  · rename_i name stop hname
    have hstop : stop.rest = (c.drop 1).rest.dropWhile isNameChar := by
      unfold name? at hname
      split at hname
      · split at hname
        · cases hname
          rfl
        · cases hname
      · cases hname
    rw [hname, startsWith_singleton, hstop]
    split
    · rename_i hsemicolon
      rw [hsemicolon]
      rfl
    · rename_i hsemicolon
      rw [Bool.not_eq_true] at hsemicolon
      rw [hsemicolon]
      rfl
  · rename_i hname
    rw [hname]
    rfl

theorem piece?_and_isSome (text : List Char) (position : Position) :
    (piece? html ⟨'&' :: text, position⟩).isSome =
      if text.head?.any ('#' == ·) then (charRef? ⟨'&' :: text, position⟩).isSome
      else (entityRef? ⟨'&' :: text, position⟩).isSome := by
  have hpiece : piece? html ⟨'&' :: text, position⟩ = reference? ⟨'&' :: text, position⟩ := rfl
  have hnumber : (⟨'&' :: text, position⟩ : Cursor).startsWith ['&', '#'] =
      text.head?.any ('#' == ·) := by
    cases text <;> simp [Cursor.startsWith, List.isPrefixOf]
  rw [hpiece, reference?, Option.isSome_map, hnumber]
  split <;> rfl

/-- Whether a piece starts in the text does not depend on the piece that follows it. -/
theorem piece?_isSome_append {text : List Char} (htext : text ≠ []) (h : Neutral rest)
    (p q : Position) :
    (piece? html ⟨text ++ rest, p⟩).isSome = (piece? html ⟨text, q⟩).isSome := by
  cases text with
  | nil => exact absurd rfl htext
  | cons d text =>
    rw [List.cons_append]
    by_cases hangle : d = '<'
    · subst hangle
      rw [piece?_angle_isSome, piece?_angle_isSome, startsTag_append h]
    · by_cases hand : d = '&'
      · subst hand
        have hnumber : ∀ d ∈ rest.head?, ('#' == d) = false := h.head_false (by decide) (by decide)
        have hstart : ∀ d ∈ rest.head?, isNameStart d = false :=
          h.head_false (by decide) (by decide)
        have hchar : ∀ d ∈ rest.head?, isNameChar d = false := h.head_false (by decide) (by decide)
        have hend : ∀ d ∈ rest.head?, (';' == d) = false := h.head_false (by decide) (by decide)
        have hdrop (p : Position) (cs : List Char) : (⟨'&' :: cs, p⟩ : Cursor).drop 1 =
          ⟨cs, p.next '&'⟩ := rfl
        rw [piece?_and_isSome, piece?_and_isSome, head_append_neutral text hnumber]
        split
        · rename_i hfirst
          cases text with
          | nil => cases hfirst
          | cons d text =>
            obtain rfl : '#' = d := by simpa using hfirst
            exact charRef?_isSome_append h text p q
        · simp only [entityRef?_isSome, hdrop, head_append_neutral text hstart,
            dropWhile_append_neutral text hchar, head_append_neutral _ hend]
      · rw [piece?_text hangle hand, piece?_text hangle hand]

theorem piece?_isSome_position (html : Bool) (c : Cursor) (position : Position) :
    (piece? html ⟨c.rest, position⟩).isSome = (piece? html c).isSome := by
  obtain ⟨text, p⟩ := c
  cases text with
  | nil => rfl
  | cons d text =>
    have hsame := @piece?_isSome_append html [] (d :: text) (List.cons_ne_nil d text)
      (fun _ hd => nomatch hd) position p
    rwa [List.append_nil] at hsame

theorem Loose.of_neutral {text rest rest' : List Char} (h : Loose html text rest)
    (hrest : Neutral rest) (hrest' : Neutral rest') : Loose html text rest' := by
  intro part hpart hne position
  have hnone := h part hpart hne position
  rw [← Option.not_isSome_iff_eq_none] at hnone ⊢
  rw [piece?_isSome_append hne hrest position position] at hnone
  rw [piece?_isSome_append hne hrest' position position]
  exact hnone

/-! ## Every piece takes characters -/

theorem rawElement_reaches (tag : Tag) (c : Cursor) : Reaches c (rawElement tag c).2 := by
  unfold rawElement
  simp only
  split
  · exact reaches_drop c _
  · exact ((reaches_drop c _).trans (reaches_drop _ _)).trans (closeTagEnd_reaches _)

theorem openTag?_reaches {piece : Piece} (h : openTag? html c = some (piece, next)) :
    Reaches (c.drop 1) next := by
  unfold openTag? at h
  split at h
  · cases h
  · rename_i name afterName hname
    have hrest := (Reaches.trans ⟨_, name?_takes hname⟩ (reaches_skip afterName isBlank)).trans
      (tagRest_reaches ((skipBlanks afterName).rest.length + 1) _)
    simp only at h
    split at h
    · cases h
      exact hrest
    · split at h
      · cases h
        exact hrest.trans (rawElement_reaches _ _)
      · cases h
        exact hrest

theorem closeTag?_reaches {piece : Piece} (h : closeTag? c = some (piece, next)) :
    Reaches (c.drop 2) next := by
  unfold closeTag? at h
  split at h
  · cases h
  · rename_i name afterName hname
    cases h
    exact .trans ⟨_, name?_takes hname⟩ (closeTagEnd_reaches afterName)

theorem charRef?_reaches {content : Leaf} (h : charRef? c = some (content, next)) :
    Reaches (c.drop 2) next := by
  unfold charRef? at h
  simp only at h
  rw [Option.ite_none_left_eq_some] at h
  obtain ⟨-, hfound⟩ := h
  cases hfound
  refine .trans (.trans ?_ (reaches_skip _ _)) (reaches_drop _ 1)
  split
  · exact reaches_drop _ 1
  · exact ⟨[], .refl _⟩

theorem entityRef?_reaches {content : Leaf} (h : entityRef? c = some (content, next)) :
    Reaches (c.drop 1) next := by
  unfold entityRef? at h
  split at h
  · rename_i name stop hname
    split at h
    · cases h
      exact .trans ⟨_, name?_takes hname⟩ (reaches_drop _ 1)
    · cases h
  · cases h

theorem Reaches.length_le {d : Cursor} (h : Reaches c d) : d.rest.length ≤ c.rest.length := by
  obtain ⟨part, htakes⟩ := h
  rw [htakes.1, List.length_append]
  omega

/-- A piece takes at least one character, so cutting ends. -/
theorem piece?_length_lt {piece : Piece} (h : piece? html c = some (piece, next)) :
    next.rest.length < c.rest.length := by
  have hshort {n : Nat} (hn : 0 < n) (hrest : c.rest ≠ []) (hnext : Reaches (c.drop n) next) :
      next.rest.length < c.rest.length := by
    have hle := hnext.length_le
    have hpos := List.length_pos_iff.2 hrest
    simp only [Cursor.drop, List.length_drop] at hle
    omega
  have hrest {first : Char} {word : List Char} (hword : c.startsWith (first :: word) = true) :
      c.rest ≠ [] := by
    rw [(Cursor.takes_word hword).1]
    simp
  cases piece?_at h with
  | closeTag hword hread => exact hshort (by decide) (hrest hword) (closeTag?_reaches hread)
  | comment hword hread =>
    cases hread
    exact hshort (n := 4) (by decide) (hrest hword) ((reaches_drop _ _).trans (reaches_drop _ _))
  | cdata hword hread =>
    cases hread
    exact hshort (n := 9) (by decide) (hrest hword) ((reaches_drop _ _).trans (reaches_drop _ _))
  | declaration hword _ _ hread =>
    cases hread
    exact hshort (n := 2) (by decide) (hrest hword) ((reaches_drop _ _).trans (reaches_drop _ _))
  | openTag hword hread => exact hshort (by decide) (hrest hword) (openTag?_reaches hread)
  | reference hword hread =>
    obtain ⟨content, rfl, ⟨-, hfound⟩ | hfound⟩ := reference?_cases hread
    · exact hshort (by decide) (hrest hword) (charRef?_reaches hfound)
    · exact hshort (by decide) (hrest hword) (entityRef?_reaches hfound)

/-! ## Separable pieces -/

def writePieces (kinds : List PieceKind) : List Char :=
  kinds.flatMap fun k => k.write.toList

/-- The pieces can be told apart in their written form: text stands before other pieces only. -/
inductive Separable (html : Bool) : List PieceKind → Prop
  | nil : Separable html []
  | piece {k : PieceKind} {others : List PieceKind} : k.Sound html → Separable html others →
      Separable html (k :: others)
  | text {value : String} {span : Span} {others : List PieceKind} : value.toList ≠ [] →
      Loose html value.toList [] → (∀ k ∈ others.head?, k.Sound html) → Separable html others →
      Separable html (.whole (.leaf (.text value) span) :: others)

theorem Separable.others {k : PieceKind} {others : List PieceKind}
    (h : Separable html (k :: others)) :
    Separable html others := by
  cases h with
  | piece _ hothers => exact hothers
  | text _ _ _ hothers => exact hothers

theorem Separable.opening {k : PieceKind} {others : List PieceKind}
    (h : Separable html (k :: others)) :
    ∀ tag, k = .opening tag → k.Sound html := by
  rintro tag rfl
  cases h with
  | piece hsound _ => exact hsound

theorem neutral_of_isSome (h : (piece? html c).isSome = true) : Neutral c.rest := by
  intro d hd
  obtain ⟨cs, position⟩ := c
  cases cs with
  | nil => cases hd
  | cons e others =>
    cases hd
    by_contra hnot
    rw [not_or] at hnot
    rw [piece?_text hnot.1 hnot.2] at h
    cases h

theorem PieceKind.Sound.starts {k : PieceKind} (h : k.Sound html) (rest : List Char)
    (position : Position) :
    k.write.toList ≠ [] ∧ (piece? html ⟨k.write.toList ++ rest, position⟩).isSome = true := by
  obtain ⟨q, stop, hread, -, -⟩ := h.readsAs rest position
  refine ⟨?_, by rw [hread]; rfl⟩
  intro hnil
  obtain ⟨q, stop, hread, -, -⟩ := h.readsAs [] position
  rw [hnil] at hread
  cases hread

theorem writePieces_starts {kinds : List PieceKind} (h : ∀ k ∈ kinds.head?, k.Sound html)
    (position : Position) :
    writePieces kinds = [] ∨ (piece? html ⟨writePieces kinds, position⟩).isSome = true := by
  cases kinds with
  | nil => exact .inl rfl
  | cons k kinds => exact .inr ((h k rfl).starts (writePieces kinds) position).2

theorem neutral_of_starts (h : c.rest = [] ∨ (piece? html c).isSome = true) : Neutral c.rest := by
  rcases h with hnil | hsome
  · intro d hd
    rw [hnil] at hd
    cases hd
  · exact neutral_of_isSome hsome

theorem piecesFrom_piece {q : Piece} (h : piece? html c = some (q, next)) (hne : c.rest ≠ [])
    (fuel : Nat) : piecesFrom html (fuel + 1) c.position [] c =
      q :: piecesFrom html fuel next.position [] next := by
  rw [piecesFrom]
  split
  · rename_i hnil
    exact absurd hnil hne
  · rw [h]
    rfl

theorem piecesFrom_flush (fuel : Nat) (start : Position) (run : List Char)
    (h : c.rest = [] ∨ (piece? html c).isSome = true) :
    piecesFrom html fuel start run c =
      textPiece start run c.position ++ piecesFrom html fuel c.position [] c := by
  have hnone (p : Position) : textPiece p [] c.position = [] := rfl
  cases fuel with
  | zero => rw [piecesFrom, piecesFrom, hnone, List.append_nil]
  | succ fuel =>
    rw [piecesFrom, piecesFrom]
    split
    · rw [hnone, List.append_nil]
    · rename_i d others hrest
      rw [hrest] at h
      obtain ⟨found, hfound⟩ := Option.isSome_iff_exists.1 (h.resolve_left (by simp))
      rw [hfound]
      simp only [hnone, List.nil_append]

/-- **Separable pieces are cut again as they were.** -/
theorem piecesFrom_separable {kinds : List PieceKind} (h : Separable html kinds) {fuel : Nat}
    (hfuel : (writePieces kinds).length ≤ fuel) (position : Position) :
    (piecesFrom html fuel position [] ⟨writePieces kinds, position⟩).map (·.kind.bare) =
        kinds.map PieceKind.bare ∧
      ∀ q ∈ piecesFrom html fuel position [] ⟨writePieces kinds, position⟩, q.problems = [] := by
  induction h generalizing fuel position with
  | nil =>
    have hnil : piecesFrom html fuel position [] ⟨writePieces [], position⟩ = [] :=
      piecesFrom_nil fuel position []
    rw [hnil]
    exact ⟨rfl, by simp⟩
  | @piece k others hk hothers ih =>
    obtain ⟨q, stop, hread, hbare, hclean⟩ := hk.readsAs (writePieces others) position
    obtain ⟨hne, -⟩ := hk.starts (writePieces others) position
    have hwrite : writePieces (k :: others) = k.write.toList ++ writePieces others := by
      simp [writePieces]
    cases hk : k.write.toList with
    | nil => exact absurd hk hne
    | cons d cs =>
      rw [hwrite, hk, List.cons_append, List.length_cons, List.length_append] at hfuel
      obtain ⟨fuel, rfl⟩ : ∃ n, fuel = n + 1 := ⟨fuel - 1, by omega⟩
      obtain ⟨hkinds, hproblems⟩ := @ih fuel (by omega) stop
      have hstep : piecesFrom html (fuel + 1) position [] ⟨writePieces (k :: others), position⟩ =
          q :: piecesFrom html fuel stop [] ⟨writePieces others, stop⟩ := by
        rw [hwrite]
        exact piecesFrom_piece hread (by simp [hk]) fuel
      rw [hstep]
      refine ⟨by rw [List.map_cons, List.map_cons, hbare, hkinds], ?_⟩
      simp only [List.mem_cons, forall_eq_or_imp]
      exact ⟨hclean, hproblems⟩
  | @text value span others hne hloose hnext hothers ih =>
    have hwrite : writePieces (.whole (.leaf (.text value) span) :: others) =
        value.toList ++ writePieces others := by
      simp [writePieces, PieceKind.write, Node.write, Leaf.write]
    rw [hwrite, List.length_append] at hfuel
    obtain ⟨fuel, rfl⟩ : ∃ n, fuel = value.toList.length + n :=
      ⟨fuel - value.toList.length, by omega⟩
    have hstarts := writePieces_starts hnext
    have hloose' : Loose html value.toList (writePieces others) :=
      hloose.of_neutral neutral_nil
        (@neutral_of_starts html ⟨writePieces others, position⟩ (hstarts position))
    obtain ⟨hkinds, hproblems⟩ :=
      @ih fuel (by omega) (position.after value.toList)
    have hstep : piecesFrom html (value.toList.length + fuel) position []
          ⟨writePieces (.whole (.leaf (.text value) span) :: others), position⟩ =
        ⟨.whole (.leaf (.text value) ⟨position, position.after value.toList⟩),
            ⟨position, position.after value.toList⟩, []⟩ ::
          piecesFrom html fuel (position.after value.toList) []
            ⟨writePieces others, position.after value.toList⟩ := by
      rw [hwrite, piecesFrom_loose hloose', piecesFrom_flush fuel _ _ (hstarts _)]
      simp [textPiece, hne]
    rw [hstep]
    refine ⟨by rw [List.map_cons, List.map_cons, hkinds]; rfl, ?_⟩
    simp only [List.mem_cons, forall_eq_or_imp]
    exact ⟨trivial, hproblems⟩

/-! ## The pieces of a source -/

theorem textPiece_separable {start stop : Position} {run : List Char}
    (hloose : Loose html run.reverse []) {others : List PieceKind}
    (hnext : ∀ k ∈ others.head?, k.Sound html) (hothers : Separable html others) :
    Separable html ((textPiece start run stop).map (·.kind) ++ others) := by
  unfold textPiece
  split
  · exact hothers
  · rename_i hrun
    refine .text ?_ ?_ hnext hothers
    · simpa using hrun
    · rw [String.toList_ofList]
      exact hloose

theorem textPiece_only {start stop : Position} {run : List Char}
    (hloose : Loose html run.reverse []) :
    Separable html ((textPiece start run stop).map (·.kind)) := by
  have hsolo := @textPiece_separable html start stop run hloose [] (by simp) .nil
  rwa [List.append_nil] at hsolo

theorem piecesFrom_sound (fuel : Nat) {start : Position} {run : List Char}
    (hfuel : c.rest.length ≤ fuel) (hloose : Loose html run.reverse c.rest)
    (hclean : ∀ q ∈ piecesFrom html fuel start run c, q.problems = [])
    (hquotable : ∀ q ∈ piecesFrom html fuel start run c, ∀ a ∈ q.kind.attributes,
      ∀ v ∈ a.value, v.Quotable) :
    Separable html ((piecesFrom html fuel start run c).map (·.kind)) := by
  induction fuel generalizing c start run with
  | zero =>
    have hrest : c.rest = [] := List.eq_nil_of_length_eq_zero (Nat.le_zero.1 hfuel)
    rw [hrest] at hloose
    rw [piecesFrom]
    exact textPiece_only hloose
  | succ fuel ih =>
    revert hclean hquotable
    rw [piecesFrom]
    split
    · rename_i hrest
      intro _ _
      rw [hrest] at hloose
      exact textPiece_only hloose
    · rename_i d others hrest
      split
      · rename_i piece next hpiece
        intro hclean hquotable
        simp only [List.mem_append, List.mem_cons] at hclean hquotable
        have hsound : piece.kind.Sound html := piece?_sound hpiece (hclean piece (.inr (.inl rfl)))
          (hquotable piece (.inr (.inl rfl)))
        have hneutral : Neutral c.rest := neutral_of_isSome (by rw [hpiece]; rfl)
        have hshorter : next.rest.length ≤ fuel := by
          have hlt := piece?_length_lt hpiece
          omega
        have hlater := @ih next next.position [] hshorter (loose_nil html next.rest)
          (fun q hq => hclean q (.inr (.inr hq))) (fun q hq => hquotable q (.inr (.inr hq)))
        rw [List.map_append, List.map_cons]
        refine textPiece_separable (hloose.of_neutral hneutral neutral_nil) ?_
          (.piece hsound hlater)
        rintro k ⟨⟩
        exact hsound
      · rename_i hnone
        intro hclean hquotable
        refine ih ?_ ?_ hclean hquotable
        · simp only [Cursor.drop, List.length_drop]
          omega
        · simp only [List.reverse_cons, Cursor.drop, hrest, List.drop_succ_cons, List.drop_zero]
          rw [hrest] at hloose
          refine loose_concat hloose fun position => ?_
          have hsame := piece?_isSome_position html c position
          rw [hnone] at hsame
          rw [← Option.not_isSome_iff_eq_none, ← hrest, hsame]
          decide

end WidgetLint.Markup
