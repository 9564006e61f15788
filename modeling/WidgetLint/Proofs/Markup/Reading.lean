import WidgetLint.Markup.Document
import WidgetLint.Proofs.Text.Place
import WidgetLint.Text.Slice

/-!
# What written markup is read as

For each reader, the source that makes it stop where a written part ends: a run of characters
before one that does not belong to it, a name, a quoted attribute, an open tag, a raw body before
its close tag, and text before a tag. Each fact is about any characters that may follow.
-/

namespace WidgetLint.Text.Cursor

variable {p : Char → Bool} {word rest : List Char} {position : Position}

theorem run_append (hword : ∀ c ∈ word, p c = true) (hrest : ∀ c ∈ rest.head?, p c = false) :
    (⟨word ++ rest, position⟩ : Cursor).run p = word := by
  have hnone : rest.takeWhile p = [] := by
    cases rest with
    | nil => rfl
    | cons c rest => rw [List.takeWhile_cons_of_neg (by simp [hrest c rfl])]
  rw [run, List.takeWhile_append_of_pos hword, hnone, List.append_nil]

theorem skip_append (hword : ∀ c ∈ word, p c = true) (hrest : ∀ c ∈ rest.head?, p c = false) :
    (⟨word ++ rest, position⟩ : Cursor).skip p = ⟨rest, position.after word⟩ := by
  rw [skip_eq_drop, run_append hword hrest, drop]
  simp

theorem drop_append (n : Nat) (hn : n = word.length) :
    (⟨word ++ rest, position⟩ : Cursor).drop n = ⟨rest, position.after word⟩ := by
  subst hn
  simp [drop]

end WidgetLint.Text.Cursor

namespace WidgetLint.Markup

open Text

variable {rest : List Char} {position : Position}

/-! ## Names and attributes -/

/-- The characters spell a name. -/
def IsName : List Char → Bool
  | [] => false
  | first :: others => isNameStart first && others.all isNameChar

theorem IsName.chars {name : List Char} (h : IsName name = true) :
    ∀ c ∈ name, isNameChar c = true := by
  cases name with
  | nil => simp
  | cons first others =>
    rw [IsName, Bool.and_eq_true] at h
    intro c hc
    rcases List.mem_cons.mp hc with rfl | hc
    · rw [isNameChar, h.1, Bool.true_or]
    · exact List.all_eq_true.mp h.2 c hc

theorem name?_append {name : List Char} (h : IsName name = true)
    (hrest : ∀ c ∈ rest.head?, isNameChar c = false) :
    name? ⟨name ++ rest, position⟩ =
      some (String.ofList name, ⟨rest, position.after name⟩) := by
  rw [name?, Cursor.run_append (IsName.chars h) hrest, Cursor.skip_append (IsName.chars h) hrest]
  cases name with
  | nil => cases h
  | cons first others =>
    rw [IsName, Bool.and_eq_true] at h
    simp [h.1]

theorem skipBlanks_cons {c : Char} (h : isBlank c = false) :
    skipBlanks ⟨c :: rest, position⟩ = ⟨c :: rest, position⟩ := by
  have hword : ∀ c ∈ ([] : List Char), isBlank c = true := by simp
  have hrest : ∀ d ∈ (c :: rest).head?, isBlank d = false := by
    intro d hd
    cases hd
    exact h
  exact Cursor.skip_append hword hrest

theorem angleProblems_eq_nil {text : List Char} (h : '<' ∉ text) (position : Position) :
    angleProblems position text = [] := by
  induction text generalizing position with
  | nil => rfl
  | cons c text ih =>
    simp only [List.mem_cons, not_or] at h
    rw [angleProblems, if_neg (Ne.symm h.1), ih h.2]

theorem quotedValue_append {quote : Char} {text : List Char} (hquote : quote ∉ text) :
    quotedValue quote ⟨text ++ quote :: rest, position⟩ =
      (⟨String.ofList text, some quote, ⟨position, position.after text⟩⟩,
        ⟨rest, (position.after text).next quote⟩, angleProblems position text) := by
  have hword : ∀ c ∈ text, (c != quote) = true := by
    intro c hc
    simp only [bne_iff_ne, ne_eq]
    rintro rfl
    exact hquote hc
  have hstop : ∀ c ∈ (quote :: rest).head?, (c != quote) = false := by simp
  rw [quotedValue, Cursor.run_append hword hstop, Cursor.skip_append hword hstop]
  simp [Cursor.drop, Cursor.spanTo]

theorem attribute?_quoted {name : List Char} {quote : Char} (hquotes : quote = '"' ∨ quote = '\'')
    (hname : IsName name = true) :
    attribute? ⟨name ++ '=' :: quote :: rest, position⟩ =
      some (⟨String.ofList name, ⟨position, position.after name⟩,
          some (quotedValue quote ⟨rest, position.after (name ++ ['=', quote])⟩).1⟩,
        (quotedValue quote ⟨rest, position.after (name ++ ['=', quote])⟩).2) := by
  have hequals : isBlank '=' = false := by decide
  have hquoted : isBlank quote = false := by rcases hquotes with rfl | rfl <;> decide
  have hend : ∀ c ∈ ('=' :: quote :: rest).head?, isNameChar c = false := by
    rintro c ⟨⟩
    decide
  have hdrop : (⟨'=' :: quote :: rest, position.after name⟩ : Cursor).drop 1 =
      ⟨quote :: rest, (position.after name).next '='⟩ := rfl
  have hread : attributeValue ⟨quote :: rest, (position.after name).next '='⟩ =
      quotedValue quote ⟨rest, ((position.after name).next '=').next quote⟩ := by
    rcases hquotes with rfl | rfl <;> rfl
  rw [attribute?, name?_append hname hend]
  simp only [skipBlanks_cons hequals]
  rw [if_pos (by simp [Cursor.startsWith]), hdrop, skipBlanks_cons hquoted, hread]
  simp [Position.after_append, Cursor.spanTo]

theorem attribute?_append {name text : List Char} {quote : Char}
    (hquotes : quote = '"' ∨ quote = '\'') (hname : IsName name = true) (hquote : quote ∉ text)
    (hangle : '<' ∉ text) :
    attribute? ⟨name ++ '=' :: quote :: (text ++ quote :: rest), position⟩ =
      some (⟨String.ofList name, ⟨position, position.after name⟩,
          some ⟨String.ofList text, some quote,
            ⟨position.after (name ++ ['=', quote]), position.after (name ++ ['=', quote] ++ text)⟩⟩⟩,
        ⟨rest, position.after (name ++ ['=', quote] ++ text ++ [quote])⟩, []) := by
  rw [attribute?_quoted hquotes hname, quotedValue_append hquote, angleProblems_eq_nil hangle]
  simp [Position.after_append]

theorem tagRest_append {name text : List Char} (hname : IsName name = true) (hquote : '"' ∉ text)
    (hangle : '<' ∉ text) (fuel : Nat) :
    tagRest (fuel + 2) ⟨name ++ '=' :: '"' :: (text ++ '"' :: '>' :: rest), position⟩ =
      ⟨[⟨String.ofList name, ⟨position, position.after name⟩,
          some ⟨String.ofList text, some '"',
            ⟨position.after (name ++ ['=', '"']), position.after (name ++ ['=', '"'] ++ text)⟩⟩⟩],
        .closed, [], ⟨rest, position.after (name ++ ['=', '"'] ++ text ++ ['"', '>'])⟩⟩ := by
  have hread : attribute? ⟨name ++ '=' :: '"' :: (text ++ '"' :: '>' :: rest), position⟩ = _ :=
    attribute?_append (.inl rfl) hname hquote hangle
  have hblank : isBlank '>' = false := by decide
  have hclosed (p : Position) :
      tagRest (fuel + 1) ⟨'>' :: rest, p⟩ = ⟨[], .closed, [], ⟨rest, p.next '>'⟩⟩ := rfl
  cases name with
  | nil => cases hname
  | cons first others =>
    rw [IsName, Bool.and_eq_true] at hname
    have hslash : first ≠ '/' := by
      rintro rfl
      exact absurd hname.1 (by decide)
    have hend : first ≠ '>' := by
      rintro rfl
      exact absurd hname.1 (by decide)
    rw [List.cons_append] at hread ⊢
    unfold tagRest
    simp only [hread, skipBlanks_cons hblank, hclosed]
    simp [hslash, hend, Position.after_append]

/-! ## Raw bodies -/

theorem beginsIgnoringCase_iff {word text : List Char} :
    beginsIgnoringCase word text = true ↔ foldAscii word <+: foldAscii text := by
  induction word generalizing text with
  | nil => simp [beginsIgnoringCase, foldAscii]
  | cons w word ih =>
    cases text with
    | nil => simp [beginsIgnoringCase, foldAscii]
    | cons c text =>
      rw [beginsIgnoringCase, Bool.and_eq_true, beq_iff_eq, ih]
      simp [foldAscii, List.cons_prefix_cons]

/-- A word cannot begin in a text and end in what follows it, if what follows starts with a
character that the word only starts with. -/
theorem not_begins_append {first : Char} {word text rest : List Char}
    (hfirst : first.toLower ∉ foldAscii word) (htext : text ≠ [])
    (h : beginsIgnoringCase (first :: word) text = false) :
    beginsIgnoringCase (first :: word) (text ++ first :: rest) = false := by
  rw [← Bool.not_eq_true, beginsIgnoringCase_iff] at h ⊢
  intro hbegins
  apply h
  have htexts : foldAscii (text ++ first :: rest) =
      foldAscii text ++ first.toLower :: foldAscii rest := by simp [foldAscii]
  rw [htexts] at hbegins
  rcases List.prefix_or_prefix_of_prefix hbegins (List.prefix_append _ _) with hshort | hlong
  · exact hshort
  · obtain ⟨tail, htail⟩ := hlong
    rw [← htail, List.prefix_append_right_inj] at hbegins
    cases tail with
    | nil => exact ⟨[], by rw [← htail, List.append_nil, List.append_nil]⟩
    | cons t tail =>
      obtain ⟨rfl, -⟩ := List.cons_prefix_cons.mp hbegins
      cases text with
      | nil => exact absurd rfl htext
      | cons c text =>
        have hword : foldAscii text ++ first.toLower :: tail = foldAscii word :=
          (List.cons.inj htail).2
        exact absurd (hword ▸ by simp) hfirst

/-- The word occurs nowhere in the text, up to the case of ASCII letters. -/
def Avoids (word text : List Char) : Prop :=
  occursIn (foldAscii word) (foldAscii text) = false
deriving Decidable

theorem avoids_cons {word : List Char} {c : Char} {text : List Char} :
    Avoids word (c :: text) ↔
      beginsIgnoringCase word (c :: text) = false ∧ Avoids word text := by
  have hbegins : (foldAscii word).isPrefixOf (foldAscii (c :: text)) =
      beginsIgnoringCase word (c :: text) := by
    rw [Bool.eq_iff_iff, List.isPrefixOf_iff_prefix, beginsIgnoringCase_iff]
  rw [Avoids, ← hbegins]
  exact Bool.or_eq_false_iff

theorem rawText_append {first : Char} {word : List Char} (hfirst : first.toLower ∉ foldAscii word)
    {body : List Char} (hbody : Avoids (first :: word) body) :
    rawText (first :: word) (body ++ first :: (word ++ rest)) = body := by
  induction body with
  | nil =>
    have hbegins : beginsIgnoringCase (first :: word) (first :: (word ++ rest)) = true := by
      rw [beginsIgnoringCase_iff]
      simp [foldAscii]
    rw [List.nil_append, rawText, if_pos hbegins]
  | cons c body ih =>
    obtain ⟨hhead, htail⟩ := avoids_cons.mp hbody
    have hbegins : beginsIgnoringCase (first :: word) (c :: body ++ first :: (word ++ rest)) =
        false := not_begins_append hfirst (List.cons_ne_nil c body) hhead
    rw [List.cons_append] at hbegins ⊢
    rw [rawText, if_neg (by rw [hbegins]; decide), ih htail]

theorem rawElement_append {tag : Tag} (htag : '<' ∉ foldAscii ('/' :: tag.name.toList))
    {body : List Char} (hbody : Avoids ('<' :: '/' :: tag.name.toList) body) :
    ∃ span stop, rawElement tag
        ⟨body ++ '<' :: '/' :: (tag.name.toList ++ '>' :: rest), position⟩ =
      (⟨.whole (.element { tag with span := span }
          [.leaf (if isScript tag.name then .script (String.ofList body)
            else .style (String.ofList body)) ⟨position, position.after body⟩]), span, []⟩,
        ⟨rest, stop⟩) := by
  have hraw : rawText ('<' :: '/' :: tag.name.toList)
      (body ++ '<' :: '/' :: (tag.name.toList ++ '>' :: rest)) = body :=
    rawText_append htag hbody
  have hstop : (⟨body ++ '<' :: '/' :: (tag.name.toList ++ '>' :: rest), position⟩ : Cursor).drop
      body.length = ⟨'<' :: '/' :: (tag.name.toList ++ '>' :: rest), position.after body⟩ :=
    Cursor.drop_append _ rfl
  have hclose (p : Position) : (⟨'<' :: '/' :: (tag.name.toList ++ '>' :: rest), p⟩ : Cursor).drop
      ('<' :: '/' :: tag.name.toList).length =
        ⟨'>' :: rest, p.after ('<' :: '/' :: tag.name.toList)⟩ :=
    Cursor.drop_append _ rfl
  have hend (p : Position) : closeTagEnd ⟨'>' :: rest, p⟩ = (⟨rest, p.next '>'⟩, []) := by
    simp [closeTagEnd, Cursor.skip, Cursor.run, Cursor.drop, strayProblems]
  unfold rawElement
  simp only [hraw, hstop, hclose, hend]
  rw [if_neg (by simp)]
  exact ⟨_, _, rfl⟩

theorem openTag?_eq {html : Bool} {c afterName stop : Cursor} {name : String}
    {attributes : List Attribute} {ending : TagEnd} (hname : name? (c.drop 1) = some (name, afterName))
    (hrest : tagRest ((skipBlanks afterName).rest.length + 1) (skipBlanks afterName) =
      ⟨attributes, ending, [], stop⟩)
    (hending : ending ≠ .missing) :
    openTag? html c =
      if ending == .selfClosed || html && isVoid name then
        some (⟨.whole (.element ⟨name, attributes, ending == .selfClosed, false, c.spanTo stop⟩ []),
          c.spanTo stop, []⟩, stop)
      else if html && (isScript name || isStyle name) then
        some (rawElement ⟨name, attributes, ending == .selfClosed, false, c.spanTo stop⟩ stop)
      else
        some (⟨.opening ⟨name, attributes, ending == .selfClosed, false, c.spanTo stop⟩,
          c.spanTo stop, []⟩, stop) := by
  unfold openTag?
  simp [hname, hrest, hending]

theorem openTag?_raw {c afterName stop : Cursor} {name : String} {attributes : List Attribute}
    (hname : name? (c.drop 1) = some (name, afterName))
    (hrest : tagRest ((skipBlanks afterName).rest.length + 1) (skipBlanks afterName) =
      ⟨attributes, .closed, [], stop⟩)
    (hvoid : isVoid name = false) (hraw : (isScript name || isStyle name) = true) :
    openTag? true c = some (rawElement ⟨name, attributes, false, false, c.spanTo stop⟩ stop) := by
  have hopen : (TagEnd.closed == .selfClosed) = false := by decide
  rw [openTag?_eq hname hrest (by decide), hopen, hvoid, if_neg (by decide), if_pos]
  rw [Bool.true_and, hraw]

/-! ## Text -/

theorem piece?_text {html : Bool} {c : Char} (hangle : c ≠ '<') (hand : c ≠ '&') :
    piece? html ⟨c :: rest, position⟩ = none := by
  unfold piece?
  simp [Cursor.startsWith, Ne.symm hangle, Ne.symm hand]

/-- No piece starts in the text when `rest` follows it. -/
def Loose (html : Bool) (text rest : List Char) : Prop :=
  ∀ part, part <:+ text → part ≠ [] → ∀ position, piece? html ⟨part ++ rest, position⟩ = none

theorem loose_nil (html : Bool) (rest : List Char) : Loose html [] rest :=
  fun _ hpart hne => absurd (List.suffix_nil.1 hpart) hne

theorem loose_cons {html : Bool} {d : Char} {text rest : List Char} :
    Loose html (d :: text) rest ↔
      (∀ position, piece? html ⟨d :: (text ++ rest), position⟩ = none) ∧ Loose html text rest := by
  constructor
  · intro h
    exact ⟨h (d :: text) List.suffix_rfl (List.cons_ne_nil d text),
      fun part hpart => h part (hpart.trans (List.suffix_cons d text))⟩
  · rintro ⟨hhead, htail⟩ part hpart hne
    rcases List.suffix_cons_iff.1 hpart with rfl | hpart
    · exact hhead
    · exact htail part hpart hne

theorem loose_concat {html : Bool} {d : Char} {text rest : List Char}
    (h : Loose html text (d :: rest))
    (hd : ∀ position, piece? html ⟨d :: rest, position⟩ = none) :
    Loose html (text ++ [d]) rest := by
  intro part hpart hne position
  rcases List.suffix_concat_iff.1 hpart with rfl | ⟨before, rfl, hbefore⟩
  · exact absurd rfl hne
  · rw [List.append_assoc]
    cases before with
    | nil => exact hd position
    | cons e before => exact h (e :: before) hbefore (List.cons_ne_nil e before) position

theorem piecesFrom_loose {html : Bool} {start : Position} {run text : List Char} {fuel : Nat}
    (h : Loose html text rest) :
    piecesFrom html (text.length + fuel) start run ⟨text ++ rest, position⟩ =
      piecesFrom html fuel start (text.reverse ++ run) ⟨rest, position.after text⟩ := by
  induction text generalizing run position with
  | nil => simp
  | cons c text ih =>
    rw [loose_cons] at h
    have hfuel : (c :: text).length + fuel = (text.length + fuel) + 1 := by
      rw [List.length_cons]
      omega
    have hdrop : (⟨c :: (text ++ rest), position⟩ : Cursor).drop 1 =
        ⟨text ++ rest, position.next c⟩ := rfl
    rw [hfuel, piecesFrom]
    simp only [List.cons_append, h.1, hdrop]
    rw [ih h.2]
    simp

theorem piecesFrom_text {html : Bool} {start : Position} {run text : List Char} {fuel : Nat}
    (hangle : '<' ∉ text) (hand : '&' ∉ text) :
    piecesFrom html (text.length + fuel) start run ⟨text ++ rest, position⟩ =
      piecesFrom html fuel start (text.reverse ++ run) ⟨rest, position.after text⟩ := by
  refine piecesFrom_loose ?_
  induction text with
  | nil => exact loose_nil html rest
  | cons c text ih =>
    simp only [List.mem_cons, not_or] at hangle hand
    rw [loose_cons]
    exact ⟨fun _ => piece?_text (Ne.symm hangle.1) (Ne.symm hand.1), ih hangle.2 hand.2⟩

theorem piece?_openTag {html : Bool} {c : Char} (hslash : c ≠ '/') (hbang : c ≠ '!') :
    piece? html ⟨'<' :: c :: rest, position⟩ = openTag? html ⟨'<' :: c :: rest, position⟩ := by
  unfold piece?
  simp [Cursor.startsWith, Ne.symm hslash, Ne.symm hbang]

theorem piecesFrom_nil {html : Bool} (fuel : Nat) (start : Position) (run : List Char) :
    piecesFrom html fuel start run ⟨[], position⟩ = textPiece start run position := by
  cases fuel with
  | zero => rfl
  | succ fuel => rfl

/-! ## Documents of whole nodes -/

/-- The piece of a node that was read without problems. -/
def Piece.ofWhole (n : Node × Span) : Piece :=
  ⟨.whole n.1, n.2, []⟩

theorem textPiece_eq_leaves (start : Position) (run : List Char) (stop : Position) :
    ∃ leaves : List (Node × Span), (∀ n ∈ leaves.map (·.1), n.element? = none) ∧
      textPiece start run stop = leaves.map Piece.ofWhole := by
  unfold textPiece
  split
  · exact ⟨[], by simp, rfl⟩
  · exact ⟨[(.leaf (.text (String.ofList run.reverse)) ⟨start, stop⟩, ⟨start, stop⟩)],
      by simp [Node.element?], rfl⟩

theorem Builder.foldl_wholes (html : Bool) (nodes : List (Node × Span)) (b : Builder) :
    (nodes.map Piece.ofWhole).foldl (Builder.step html) b =
      { b with top := { b.top with children := b.top.children ++ nodes.map (·.1) } } := by
  induction nodes generalizing b with
  | nil => simp
  | cons n nodes ih =>
    rw [List.map_cons, List.foldl_cons, ih]
    simp [Builder.step, Piece.ofWhole, Builder.push]

theorem parse_wholes (options : Options) (source : String) (nodes : List (Node × Span))
    (h : pieces options.html (options.prepare source) = nodes.map Piece.ofWhole) :
    (parse options source).problems = [] ∧
      ∃ span, (parse options source).root = ⟨Tag.named rootName span, nodes.map (·.1)⟩ := by
  unfold parse
  simp only [h, Builder.foldl_wholes]
  exact ⟨rfl, _, rfl⟩

end WidgetLint.Markup
