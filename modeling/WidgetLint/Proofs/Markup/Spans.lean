import WidgetLint.Markup.Document
import WidgetLint.Markup.Written
import WidgetLint.Proofs.Markup.Places
import WidgetLint.Proofs.Markup.Reading

/-!
# What the spans of a tree show

Every span of a tree covers the characters that its node was read from: text and raw bodies as they
are, comments, declarations and references with their delimiters, names and values of attributes,
and for an element a stretch that begins with its open tag. Children lie inside their parent, one
after the other (`parse_spans_faithful`).

The proof says what each reader takes from the source (`piece?_spelled`), that pieces follow one
another without a gap (`piecesFrom_chained`), and that the builder keeps what it has put together in
order (`Builder.step_ordered`).
-/

namespace WidgetLint.Markup

open Text

variable {text : List Char} {c next : Cursor} {html : Bool}

/-! ## What the parts of a tree say about the source -/

/-- The name and the value of an attribute are the characters at their spans. -/
def Attribute.SpelledIn (text : List Char) (a : Attribute) : Prop :=
  a.nameSpan.Covers text a.name.toList ∧ ∀ v, a.value = some v → v.span.Covers text v.text.toList

/-- The stretch of an element begins with its open tag, and its attributes are spelled there. -/
def Tag.SpelledIn (text : List Char) (t : Tag) : Prop :=
  (∃ others, t.span.Covers text ('<' :: t.name.toList ++ others)) ∧
    ∀ a ∈ t.attributes, a.SpelledIn text

/-- The value stands between two delimiters, of which the second one may be missing at the end of
the source. -/
def Delimits (text : List Char) (span : Span) (opening value closing : String) : Prop :=
  span.Covers text (opening ++ value ++ closing).toList ∨
    span.Covers text (opening ++ value).toList ∧ span.stop = Position.first.after text

/-- What a leaf says is what stands at its span. -/
def Leaf.SpelledIn (text : List Char) (span : Span) : Leaf → Prop
  | .text value | script value | style value => span.Covers text value.toList
  | comment value => Delimits text span "<!--" value "-->"
  | cdata value => Delimits text span "<![CDATA[" value "]]>"
  | declaration value => Delimits text span "<!" value ">"
  | charRef raw _ => span.Covers text ("&#" ++ raw ++ ";").toList
  | entityRef name => span.Covers text ("&" ++ name ++ ";").toList

/-- Nodes lie inside a span, one after the other. -/
structure InOrder (span : Span) (nodes : List Node) : Prop where
  inside : ∀ node ∈ nodes, span.start.offset ≤ node.span.start.offset ∧
    node.span.stop.offset ≤ span.stop.offset
  apart : nodes.Pairwise fun a b => a.span.stop.offset ≤ b.span.start.offset

/-- A node and everything in it is what stands at its span, and children lie in order inside their
parent. -/
inductive Node.SpelledIn (text : List Char) : Node → Prop
  | element {tag : Tag} {children : List Node} : tag.SpelledIn text → InOrder tag.span children →
      (∀ child ∈ children, child.SpelledIn text) → (Node.element tag children).SpelledIn text
  | leaf {content : Leaf} {span : Span} : content.SpelledIn text span →
      (Node.leaf content span).SpelledIn text

def Piece.SpelledIn (text : List Char) (piece : Piece) : Prop :=
  match piece.kind with
  | .opening tag => tag.SpelledIn text ∧ tag.span = piece.span
  | .closing _ => ∃ part, piece.span.Covers text part
  | .whole node => node.SpelledIn text ∧ node.span = piece.span

theorem Leaf.SpelledIn.covers {span : Span} {content : Leaf} (h : content.SpelledIn text span) :
    ∃ part, span.Covers text part := by
  cases content with
  | comment value => exact h.elim (fun h => ⟨_, h⟩) fun h => ⟨_, h.1⟩
  | cdata value => exact h.elim (fun h => ⟨_, h⟩) fun h => ⟨_, h.1⟩
  | declaration value => exact h.elim (fun h => ⟨_, h⟩) fun h => ⟨_, h.1⟩
  | _ => exact ⟨_, h⟩

theorem Node.SpelledIn.covers {node : Node} (h : node.SpelledIn text) :
    ∃ part, node.span.Covers text part := by
  cases h with
  | element htag =>
    obtain ⟨others, hcovers⟩ := htag.1
    exact ⟨_, hcovers⟩
  | leaf hleaf => exact hleaf.covers

theorem Piece.SpelledIn.covers {piece : Piece} (h : piece.SpelledIn text) :
    ∃ part, piece.span.Covers text part := by
  unfold Piece.SpelledIn at h
  split at h
  · obtain ⟨⟨⟨others, hcovers⟩, -⟩, hspan⟩ := h
    exact ⟨_, hspan ▸ hcovers⟩
  · exact h
  · obtain ⟨hnode, hspan⟩ := h
    rw [← hspan]
    exact hnode.covers

/-! ## Names and attributes -/

/-- Some characters are taken on the way from one cursor to another. -/
def Reaches (c d : Cursor) : Prop :=
  ∃ part, c.Takes part d

theorem Reaches.trans {d e : Cursor} (h : Reaches c d) (h' : Reaches d e) : Reaches c e := by
  obtain ⟨part, h⟩ := h
  obtain ⟨part', h'⟩ := h'
  exact ⟨part ++ part', h.trans h'⟩

theorem reaches_drop (c : Cursor) (n : Nat) : Reaches c (c.drop n) :=
  ⟨_, c.takes_drop n⟩

theorem reaches_skip (c : Cursor) (p : Char → Bool) : Reaches c (c.skip p) :=
  ⟨_, c.takes_skip p⟩

theorem Reaches.onTail {d : Cursor} (h : Reaches c d) (hc : c.OnTail text) : d.OnTail text := by
  obtain ⟨part, h⟩ := h
  exact h.onTail hc

theorem name?_takes {name : String} (h : name? c = some (name, next)) :
    c.Takes name.toList next := by
  unfold name? at h
  split at h
  · split at h
    · cases h
      rw [String.toList_ofList]
      exact c.takes_skip _
    · cases h
  · cases h

theorem quotedValue_reaches (quote : Char) (c : Cursor) : Reaches c (quotedValue quote c).2.1 :=
  (reaches_skip c _).trans (reaches_drop _ 1)

theorem quotedValue_spelled (hc : c.OnTail text) (quote : Char) :
    (quotedValue quote c).1.span.Covers text (quotedValue quote c).1.text.toList := by
  rw [quotedValue, String.toList_ofList]
  exact (c.takes_skip _).covers hc.inText

theorem attributeValue_reaches (c : Cursor) : Reaches c (attributeValue c).2.1 := by
  unfold attributeValue
  split
  · exact (reaches_drop c 1).trans (quotedValue_reaches _ _)
  · exact (reaches_drop c 1).trans (quotedValue_reaches _ _)
  · exact reaches_drop c _

theorem attributeValue_spelled (hc : c.OnTail text) :
    (attributeValue c).1.span.Covers text (attributeValue c).1.text.toList := by
  unfold attributeValue
  split
  · exact quotedValue_spelled ((reaches_drop c 1).onTail hc) '"'
  · exact quotedValue_spelled ((reaches_drop c 1).onTail hc) '\''
  · have htakes := c.takes_drop (bareText c.rest).length
    rw [← bareText_eq_take] at htakes
    rw [String.toList_ofList]
    exact htakes.covers hc.inText

theorem attribute?_reaches {found : Attribute} {problems : List Problem}
    (h : attribute? c = some (found, next, problems)) : Reaches c next := by
  unfold attribute? at h
  split at h
  · cases h
  · rename_i name afterName hname
    have hblanks : Reaches c (skipBlanks afterName) :=
      .trans ⟨_, name?_takes hname⟩ (reaches_skip afterName isBlank)
    simp only at h
    split at h
    · cases h
      have hstart := (hblanks.trans (reaches_drop _ 1)).trans (reaches_skip _ isBlank)
      exact hstart.trans (attributeValue_reaches _)
    · cases h
      exact hblanks

theorem attribute?_spelled (hc : c.OnTail text) {found : Attribute} {problems : List Problem}
    (h : attribute? c = some (found, next, problems)) : found.SpelledIn text := by
  unfold attribute? at h
  split at h
  · cases h
  · rename_i name afterName hname
    have hnameTakes := name?_takes hname
    have hblanks : Reaches c (skipBlanks afterName) :=
      .trans ⟨_, hnameTakes⟩ (reaches_skip afterName isBlank)
    simp only at h
    split at h
    · have hstart : Reaches c (skipBlanks ((skipBlanks afterName).drop 1)) :=
        (hblanks.trans (reaches_drop _ 1)).trans (reaches_skip _ isBlank)
      cases h
      refine ⟨hnameTakes.covers hc.inText, fun v hv => ?_⟩
      cases hv
      exact attributeValue_spelled (hstart.onTail hc)
    · cases h
      refine ⟨hnameTakes.covers hc.inText, fun v hv => ?_⟩
      cases hv

theorem tagRest_reaches (fuel : Nat) (c : Cursor) : Reaches c (tagRest fuel c).cursor := by
  induction fuel generalizing c with
  | zero => exact ⟨[], .refl c⟩
  | succ fuel ih =>
    unfold tagRest
    split
    · exact ⟨[], .refl c⟩
    · exact reaches_drop c 2
    · exact reaches_drop c 1
    · split
      · rename_i found next problems hfound
        exact ((attribute?_reaches hfound).trans (reaches_skip next isBlank)).trans (ih _)
      · exact ((reaches_drop c 1).trans (reaches_skip _ isBlank)).trans (ih _)

theorem tagRest_spelled (hc : c.OnTail text) (fuel : Nat) :
    ∀ a ∈ (tagRest fuel c).attributes, a.SpelledIn text := by
  induction fuel generalizing c with
  | zero => simp [tagRest]
  | succ fuel ih =>
    unfold tagRest
    split
    · simp
    · simp
    · simp
    · split
      · rename_i found next problems hfound
        have hblanks := (attribute?_reaches hfound).trans (reaches_skip next isBlank)
        intro a ha
        rcases List.mem_cons.1 ha with rfl | ha
        · exact attribute?_spelled hc hfound
        · exact ih (hblanks.onTail hc) a ha
      · exact ih (((reaches_drop c 1).trans (reaches_skip _ isBlank)).onTail hc)

/-! ## Pieces -/

theorem closeTagEnd_reaches (c : Cursor) : Reaches c (closeTagEnd c).1 :=
  (reaches_skip c _).trans (reaches_drop _ 1)

/-- What a reader returns is spelled at the stretch that it takes. -/
def SpelledFrom (text : List Char) (c : Cursor) (found : Piece × Cursor) : Prop :=
  found.1.SpelledIn text ∧ found.1.span = c.spanTo found.2 ∧ Reaches c found.2

theorem inOrder_nil (span : Span) : InOrder span [] :=
  ⟨by simp, .nil⟩

theorem inOrder_singleton {span : Span} {node : Node}
    (hstart : span.start.offset ≤ node.span.start.offset)
    (hstop : node.span.stop.offset ≤ span.stop.offset) : InOrder span [node] := by
  refine ⟨fun other hother => ?_, List.pairwise_singleton _ _⟩
  rw [List.mem_singleton] at hother
  subst hother
  exact ⟨hstart, hstop⟩

theorem Reaches.offset_le {d : Cursor} (h : Reaches c d) : c.position.offset ≤ d.position.offset := by
  obtain ⟨part, h⟩ := h
  have hpart := c.position.le_offset_after part
  rw [h.2]
  omega

theorem Tag.SpelledIn.extend {tag : Tag} (h : tag.SpelledIn text) {stop : Position}
    (hstop : PlaceOf text stop) (hle : tag.span.stop.offset ≤ stop.offset) (unclosed : Bool) :
    Tag.SpelledIn text { tag with unclosed := unclosed, span := ⟨tag.span.start, stop⟩ } := by
  obtain ⟨⟨others, hcovers⟩, hattributes⟩ := h
  obtain ⟨more, hmore⟩ := hcovers.extend hstop hle
  exact ⟨⟨others ++ more, by rw [← List.append_assoc]; exact hmore⟩, hattributes⟩

theorem rawElement_spelled {start : Cursor} {tag : Tag} (hstart : start.OnTail text)
    (htag : tag.SpelledIn text) (hreach : Reaches start c) (hspan : tag.span = start.spanTo c) :
    SpelledFrom text start (rawElement tag c) := by
  have hc := hreach.onTail hstart
  have hbody := c.takes_drop (rawText ('<' :: '/' :: tag.name.toList) c.rest).length
  rw [← rawText_eq_take] at hbody
  unfold rawElement
  simp only
  generalize rawText ('<' :: '/' :: tag.name.toList) c.rest = body at hbody ⊢
  generalize c.drop body.length = stop at hbody ⊢
  have hstop := hbody.onTail hc
  have hchild : (Node.leaf (if isScript tag.name then .script (String.ofList body)
      else .style (String.ofList body)) (c.spanTo stop)).SpelledIn text := by
    refine .leaf ?_
    split
    · rw [Leaf.SpelledIn, String.toList_ofList]
      exact hbody.covers hc.inText
    · rw [Leaf.SpelledIn, String.toList_ofList]
      exact hbody.covers hc.inText
  have hstartOffset : tag.span.start.offset ≤ c.position.offset := by
    rw [hspan]
    exact hreach.offset_le
  have htagStop : tag.span.stop = c.position := by rw [hspan]; rfl
  -- the element ends at some later place, with or without its close tag
  have helement (next : Cursor) (hnext : Reaches stop next) (unclosed : Bool) :
      (Node.element { tag with unclosed := unclosed, span := ⟨tag.span.start, next.position⟩ }
        [.leaf (if isScript tag.name then .script (String.ofList body)
          else .style (String.ofList body)) (c.spanTo stop)]).SpelledIn text := by
    have hle := (Reaches.trans ⟨_, hbody⟩ hnext).offset_le
    refine .element (htag.extend (hnext.onTail hstop).inText.place (by rw [htagStop]; exact hle) unclosed)
      (inOrder_singleton hstartOffset hnext.offset_le) ?_
    intro child hmem
    rw [List.mem_singleton] at hmem
    subst hmem
    exact hchild
  have hall (next : Cursor) (hnext : Reaches stop next) : Reaches start next :=
    (hreach.trans ⟨_, hbody⟩).trans hnext
  split
  · refine ⟨⟨helement stop ⟨[], .refl stop⟩ true, rfl⟩, ?_, hall stop ⟨[], .refl stop⟩⟩
    rw [hspan]
    rfl
  · have hnext : Reaches stop (closeTagEnd (stop.drop ('<' :: '/' :: tag.name.toList).length)).1 :=
      (reaches_drop stop _).trans (closeTagEnd_reaches _)
    have hclosed := helement _ hnext tag.unclosed
    refine ⟨⟨hclosed, rfl⟩, ?_, hall _ hnext⟩
    rw [hspan]
    rfl

theorem openTag?_spelled (hc : c.OnTail text) (hangle : c.startsWith ['<'] = true)
    {found : Piece × Cursor} (h : openTag? html c = some found) : SpelledFrom text c found := by
  have hopen := Cursor.takes_word hangle
  unfold openTag? at h
  split at h
  · cases h
  · rename_i name afterName hname
    have hnameTakes := hopen.trans (name?_takes hname)
    have hstart : Reaches afterName (skipBlanks afterName) := reaches_skip _ isBlank
    have hstartIn := hstart.onTail (hnameTakes.onTail hc)
    have hattributes := tagRest_spelled hstartIn ((skipBlanks afterName).rest.length + 1)
    have hrest := tagRest_reaches ((skipBlanks afterName).rest.length + 1) (skipBlanks afterName)
    simp only at h
    generalize tagRest ((skipBlanks afterName).rest.length + 1) (skipBlanks afterName) = rest
      at h hattributes hrest
    obtain ⟨others, hothers⟩ := hstart.trans hrest
    have htakes := hnameTakes.trans hothers
    have htag : Tag.SpelledIn text
        ⟨name, rest.attributes, rest.ending == .selfClosed, false, c.spanTo rest.cursor⟩ :=
      ⟨⟨others, htakes.covers hc.inText⟩, hattributes⟩
    split at h
    · cases h
      exact ⟨⟨.element htag (inOrder_nil _) (by simp), rfl⟩, rfl, ⟨_, htakes⟩⟩
    · split at h
      · cases h
        obtain ⟨hpiece, hspan, hreach⟩ := rawElement_spelled hc htag ⟨_, htakes⟩ rfl
        exact ⟨hpiece, hspan, hreach⟩
      · cases h
        exact ⟨⟨htag, rfl⟩, rfl, ⟨_, htakes⟩⟩

theorem closeTag?_spelled (hc : c.OnTail text) {found : Piece × Cursor}
    (h : closeTag? c = some found) : SpelledFrom text c found := by
  unfold closeTag? at h
  split at h
  · cases h
  · rename_i name afterName hname
    have hname : Reaches c afterName := (reaches_drop c 2).trans ⟨_, name?_takes hname⟩
    have hreach := hname.trans (closeTagEnd_reaches afterName)
    cases h
    obtain ⟨part, htakes⟩ := hreach
    exact ⟨⟨part, htakes.covers hc.inText⟩, rfl, ⟨part, htakes⟩⟩

theorem textBefore_takes (word : List Char) (c : Cursor) :
    c.Takes (textBefore word c.rest) (c.drop (textBefore word c.rest).length) := by
  have htake (cs : List Char) : textBefore word cs = cs.take (textBefore word cs).length := by
    induction cs with
    | nil => rfl
    | cons char rest ih =>
      unfold textBefore
      split
      · rfl
      · rw [List.length_cons, List.take_succ_cons, ← ih]
  have htakes := c.takes_drop (textBefore word c.rest).length
  rwa [← htake] at htakes

/-- What follows the characters before a word starts with the word, if there is anything. -/
theorem startsWith_after_textBefore (word : List Char) (c : Cursor)
    (h : (c.drop (textBefore word c.rest).length).rest.isEmpty = false) :
    (c.drop (textBefore word c.rest).length).startsWith word = true := by
  obtain ⟨cs, position⟩ := c
  simp only [Cursor.drop, Cursor.startsWith] at h ⊢
  induction cs with
  | nil => cases h
  | cons char rest ih =>
    unfold textBefore at h ⊢
    split
    · rename_i hword
      exact hword
    · rename_i hword
      rw [if_neg hword] at h
      exact ih h

theorem drop_of_isEmpty (h : c.rest.isEmpty = true) (n : Nat) : c.drop n = c := by
  obtain ⟨cs, position⟩ := c
  have hnil : cs = [] := by simpa using h
  subst hnil
  simp [Cursor.drop]

/-- A node between two delimiters covers both of them, or runs to the end of the source. -/
theorem delimited_spelled {content : String → Leaf} (opening closing : String)
    (hc : c.OnTail text) (hopening : c.startsWith opening.toList = true) (fault : Fault)
    (hcontent : ∀ value span, (content value).SpelledIn text span ↔
      Delimits text span opening value closing) :
    SpelledFrom text c (delimited content opening.length closing.toList fault c) := by
  have hopen := Cursor.takes_word hopening
  rw [String.length_toList] at hopen
  have hvalue := textBefore_takes closing.toList (c.drop opening.length)
  have hfollows := startsWith_after_textBefore closing.toList (c.drop opening.length)
  unfold delimited
  simp only
  generalize textBefore closing.toList (c.drop opening.length).rest = value at hvalue hfollows ⊢
  generalize (c.drop opening.length).drop value.length = stop at hvalue hfollows ⊢
  have htakes := hopen.trans hvalue
  have hreach : Reaches c (stop.drop closing.toList.length) :=
    .trans ⟨_, htakes⟩ (reaches_drop stop _)
  refine ⟨⟨.leaf ((hcontent _ _).2 ?_), rfl⟩, rfl, hreach⟩
  cases hend : stop.rest.isEmpty with
  | true =>
    rw [drop_of_isEmpty hend]
    refine .inr ⟨?_, (htakes.onTail hc).position_of_isEmpty hend⟩
    rw [String.toList_append, String.toList_ofList]
    exact htakes.covers hc.inText
  | false =>
    have hclose := htakes.trans (Cursor.takes_word (hfollows hend))
    left
    rw [String.toList_append, String.toList_append, String.toList_ofList]
    exact hclose.covers hc.inText

/-! ## References -/

theorem charRef?_takes (hopening : c.startsWith ['&', '#'] = true) {content : Leaf}
    (h : charRef? c = some (content, next)) :
    ∃ raw code, content = .charRef raw code ∧ c.Takes content.write.toList next := by
  have hopen : c.Takes ['&', '#'] (c.drop 2) := Cursor.takes_word hopening
  unfold charRef? at h
  simp only at h
  rw [Option.ite_none_left_eq_some] at h
  obtain ⟨hnot, hfound⟩ := h
  simp only [Bool.or_eq_true, Bool.not_eq_true', not_or, decide_eq_true_eq] at hnot
  have hsemicolon := hnot.1.2
  cases hfound
  refine ⟨_, _, rfl, ?_⟩
  rw [Leaf.write, String.toList_append, String.toList_append, String.toList_ofList]
  cases hhex : (c.drop 2).startsWith ['x'] with
  | true =>
    simp only [hhex, if_true] at hsemicolon ⊢
    have hmark : (c.drop 2).Takes ['x'] ((c.drop 2).drop 1) := Cursor.takes_word hhex
    have hdigits := ((c.drop 2).drop 1).takes_skip (isDigitIn 16)
    have htakes := ((hopen.trans hmark).trans hdigits).trans
      (Cursor.takes_word (by simpa using hsemicolon))
    simpa using htakes
  | false =>
    simp only [hhex, Bool.false_eq_true, if_false] at hsemicolon ⊢
    have hdigits := (c.drop 2).takes_skip (isDigitIn 10)
    have htakes := (hopen.trans hdigits).trans (Cursor.takes_word (by simpa using hsemicolon))
    simpa using htakes

theorem entityRef?_takes (hopening : c.startsWith ['&'] = true) {content : Leaf}
    (h : entityRef? c = some (content, next)) :
    ∃ name, content = .entityRef name ∧ c.Takes content.write.toList next := by
  unfold entityRef? at h
  split at h
  · rename_i name stop hname
    split at h
    · rename_i hsemicolon
      cases h
      refine ⟨name, rfl, ?_⟩
      rw [Leaf.write, String.toList_append, String.toList_append]
      exact ((Cursor.takes_word hopening).trans (name?_takes hname)).trans
        (Cursor.takes_word hsemicolon)
    · cases h
  · cases h

theorem reference?_spelled (hc : c.OnTail text) (hopening : c.startsWith ['&'] = true)
    {found : Piece × Cursor} (h : reference? c = some found) : SpelledFrom text c found := by
  obtain ⟨piece, stop⟩ := found
  obtain ⟨content, rfl, hcontent⟩ := reference?_cases h
  have hleaf : content.SpelledIn text (c.spanTo stop) ∧ Reaches c stop := by
    rcases hcontent with ⟨hnumeric, hfound⟩ | hfound
    · obtain ⟨raw, code, rfl, htakes⟩ := charRef?_takes hnumeric hfound
      exact ⟨htakes.covers hc.inText, _, htakes⟩
    · obtain ⟨name, rfl, htakes⟩ := entityRef?_takes hopening hfound
      exact ⟨htakes.covers hc.inText, _, htakes⟩
  exact ⟨⟨.leaf hleaf.1, rfl⟩, rfl, hleaf.2⟩

/-! ## Cutting a source into pieces -/

theorem piece?_spelled (hc : c.OnTail text) {found : Piece × Cursor}
    (h : piece? html c = some found) : SpelledFrom text c found := by
  cases piece?_at h with
  | closeTag _ hread => exact closeTag?_spelled hc hread
  | comment hopening hread =>
    cases hread
    exact delimited_spelled "<!--" "-->" hc hopening _ fun _ _ => Iff.rfl
  | cdata hopening hread =>
    cases hread
    exact delimited_spelled "<![CDATA[" "]]>" hc hopening _ fun _ _ => Iff.rfl
  | declaration hopening _ _ hread =>
    cases hread
    exact delimited_spelled "<!" ">" hc hopening _ fun _ _ => Iff.rfl
  | openTag hopening hread => exact openTag?_spelled hc hopening hread
  | reference hopening hread => exact reference?_spelled hc hopening hread

theorem mem_piecesFrom (hc : c.OnTail text) {fuel : Nat} {start : Position} {run : List Char}
    {piece : Piece} (h : piece ∈ piecesFrom html fuel start run c) :
    (∃ start run stop, piece ∈ textPiece start run stop) ∨
      ∃ d next, d.OnTail text ∧ piece? html d = some (piece, next) := by
  induction fuel generalizing c start run with
  | zero => exact .inl ⟨_, _, _, h⟩
  | succ fuel ih =>
    unfold piecesFrom at h
    split at h
    · exact .inl ⟨_, _, _, h⟩
    · split at h
      · rename_i found next hfound
        rcases List.mem_append.1 h with h | h
        · exact .inl ⟨_, _, _, h⟩
        · rcases List.mem_cons.1 h with rfl | h
          · exact .inr ⟨c, next, hc, hfound⟩
          · exact ih ((piece?_spelled hc hfound).2.2.onTail hc) h
      · exact ih ((reaches_drop c 1).onTail hc) h

theorem mem_pieces {source : String} {piece : Piece} (h : piece ∈ pieces html source) :
    (∃ start run stop, piece ∈ textPiece start run stop) ∨
      ∃ d next, d.OnTail source.toList ∧ piece? html d = some (piece, next) :=
  mem_piecesFrom (Cursor.onTail_ofString source) h

/-- Pieces that are spelled in the source, each where the one before it ends. -/
def Chained (text : List Char) : Position → List Piece → Prop
  | _, [] => True
  | start, piece :: rest =>
    piece.span.start = start ∧ piece.SpelledIn text ∧ Chained text piece.span.stop rest

theorem textPiece_chained {start : Position} {run : List Char} {stop : Position}
    (hrun : Span.Covers text run.reverse ⟨start, stop⟩) {rest : List Piece}
    (hrest : Chained text stop rest) : Chained text start (textPiece start run stop ++ rest) := by
  unfold textPiece
  cases run with
  | nil =>
    have hsame : start = stop := by
      obtain ⟨before, behind, -, hstart, hstop⟩ := hrun
      rw [List.reverse_nil, List.append_nil] at hstop
      exact hstart.trans hstop.symm
    subst hsame
    exact hrest
  | cons char run =>
    refine ⟨rfl, ⟨.leaf ?_, rfl⟩, hrest⟩
    rw [Leaf.SpelledIn, String.toList_ofList]
    exact hrun

theorem piecesFrom_chained (hc : c.OnTail text) (fuel : Nat) {start : Position}
    {run : List Char} (hrun : Span.Covers text run.reverse ⟨start, c.position⟩) :
    Chained text start (piecesFrom html fuel start run c) := by
  induction fuel generalizing c start run with
  | zero =>
    rw [piecesFrom, ← List.append_nil (textPiece _ _ _)]
    exact textPiece_chained hrun trivial
  | succ fuel ih =>
    unfold piecesFrom
    split
    · rw [← List.append_nil (textPiece _ _ _)]
      exact textPiece_chained hrun trivial
    · rename_i char rest hchars
      split
      · rename_i piece next hfound
        obtain ⟨hpiece, hspan, hreach⟩ := piece?_spelled hc hfound
        dsimp only at hpiece hspan hreach
        have hnext := hreach.onTail hc
        refine textPiece_chained hrun ⟨by rw [hspan]; rfl, hpiece, ?_⟩
        rw [hspan]
        exact ih hnext (((Cursor.Takes.refl next).covers hnext.inText))
      · -- the character joins the run of text before it
        have htakes : c.Takes [char] (c.drop 1) := by
          have hdrop := c.takes_drop 1
          rwa [hchars] at hdrop
        refine ih (htakes.onTail hc) ?_
        obtain ⟨before, hbefore, hposition⟩ := hc
        obtain ⟨first, behind, htext, hstart, hstop⟩ := hrun
        have hsame : before = first ++ run.reverse := by
          refine eq_of_offset_eq text ⟨c.rest, hbefore.symm⟩ ⟨behind, htext.symm⟩ ?_
          rw [← hposition, ← hstop]
        refine ⟨first, (c.drop 1).rest, ?_, hstart, ?_⟩
        · rw [hbefore, hsame, htakes.1]
          simp
        · show (c.drop 1).position = _
          rw [htakes.2, hposition, hsame, ← Position.after_append]
          simp

theorem pieces_chained (html : Bool) (source : String) :
    Chained source.toList .first (pieces html source) :=
  piecesFrom_chained (Cursor.onTail_ofString source) _ ⟨[], source.toList, rfl, rfl, rfl⟩

/-! ## Putting pieces together -/

/-- The children of an element that is open at a place are spelled in order up to that place. -/
structure Element.OpenAt (text : List Char) (place : Position) (e : Element) : Prop where
  start : e.tag.span.start.offset ≤ place.offset
  order : InOrder ⟨e.tag.span.start, place⟩ e.children
  children : ∀ child ∈ e.children, child.SpelledIn text

/-- Elements that are open at a place: the innermost one up to that place, and each other one up to
where the one inside it starts. The last one is the root. -/
def OpenStack (text : List Char) (place : Position) (top : Element) : List Element → Prop
  | [] => top.OpenAt text place ∧ top.tag.span.start = .first
  | parent :: around =>
    top.OpenAt text place ∧ top.tag.SpelledIn text ∧ top.tag.span.stop.offset ≤ place.offset ∧
      OpenStack text top.tag.span.start parent around

theorem InOrder.mono {span : Span} {nodes : List Node} (h : InOrder span nodes) {stop : Position}
    (hle : span.stop.offset ≤ stop.offset) : InOrder ⟨span.start, stop⟩ nodes :=
  ⟨fun node hnode => ⟨(h.inside node hnode).1, Nat.le_trans (h.inside node hnode).2 hle⟩, h.apart⟩

theorem Element.OpenAt.mono {e : Element} {place later : Position} (h : e.OpenAt text place)
    (hle : place.offset ≤ later.offset) : e.OpenAt text later :=
  ⟨Nat.le_trans h.start hle, h.order.mono hle, h.children⟩

theorem Element.OpenAt.push {e : Element} {place : Position} (h : e.OpenAt text place) {node : Node}
    (hnode : node.SpelledIn text) (hstart : place.offset ≤ node.span.start.offset)
    (hspan : node.span.start.offset ≤ node.span.stop.offset) :
    Element.OpenAt text node.span.stop { e with children := e.children ++ [node] } := by
  have hopen := h.mono (Nat.le_trans hstart hspan)
  refine ⟨hopen.start, ⟨?_, ?_⟩, ?_⟩
  · intro child hchild
    rcases List.mem_append.1 hchild with hchild | hchild
    · exact hopen.order.inside child hchild
    · rw [List.mem_singleton] at hchild
      subst hchild
      exact ⟨Nat.le_trans h.start hstart, Nat.le_refl _⟩
  · rw [List.pairwise_append]
    refine ⟨h.order.apart, List.pairwise_singleton _ _, fun child hchild other hother => ?_⟩
    rw [List.mem_singleton] at hother
    subst hother
    exact Nat.le_trans (h.order.inside child hchild).2 hstart
  · intro child hchild
    rcases List.mem_append.1 hchild with hchild | hchild
    · exact h.children child hchild
    · rw [List.mem_singleton] at hchild
      subst hchild
      exact hnode

theorem OpenStack.mono {place later : Position} {top : Element} {around : List Element}
    (h : OpenStack text place top around) (hle : place.offset ≤ later.offset) :
    OpenStack text later top around := by
  cases around with
  | nil => exact ⟨h.1.mono hle, h.2⟩
  | cons parent around =>
    exact ⟨h.1.mono hle, h.2.1, Nat.le_trans h.2.2.1 hle, h.2.2.2⟩

theorem OpenStack.push {place : Position} {top : Element} {around : List Element}
    (h : OpenStack text place top around) {node : Node} (hnode : node.SpelledIn text)
    (hstart : place.offset ≤ node.span.start.offset)
    (hspan : node.span.start.offset ≤ node.span.stop.offset) :
    OpenStack text node.span.stop { top with children := top.children ++ [node] } around := by
  cases around with
  | nil => exact ⟨h.1.push hnode hstart hspan, h.2⟩
  | cons parent around =>
    exact ⟨h.1.push hnode hstart hspan, h.2.1,
      Nat.le_trans h.2.2.1 (Nat.le_trans hstart hspan), h.2.2.2⟩

/-- The innermost element, closed at a later place, becomes the last child of the one around it. -/
theorem OpenStack.leave {place stop : Position} {top parent : Element} {around : List Element}
    (h : OpenStack text place top (parent :: around)) (hstop : PlaceOf text stop)
    (hle : place.offset ≤ stop.offset) (unclosed : Bool) :
    OpenStack text stop { parent with children := parent.children ++
      [.element { top.tag with unclosed := unclosed, span := ⟨top.tag.span.start, stop⟩ }
        top.children] } around := by
  obtain ⟨htop, htag, htagStop, hparent⟩ := h
  have hnode : (Node.element
      { top.tag with unclosed := unclosed, span := ⟨top.tag.span.start, stop⟩ }
      top.children).SpelledIn text :=
    .element (htag.extend hstop (Nat.le_trans htagStop hle) unclosed) (htop.order.mono hle)
      htop.children
  exact hparent.push hnode (Nat.le_refl _) (Nat.le_trans htop.start hle)

namespace Builder
variable {b : Builder} {place : Position}

/-- The open elements of a builder have been read up to a place. -/
def OrderedTo (text : List Char) (place : Position) (b : Builder) : Prop :=
  OpenStack text place b.top b.around

theorem empty_ordered : Builder.empty.OrderedTo text .first :=
  ⟨⟨Nat.le_refl _, inOrder_nil _, by simp [Builder.empty]⟩, rfl⟩

theorem enter_ordered (h : b.OrderedTo text place) {tag : Tag} (htag : tag.SpelledIn text)
    (hstart : tag.span.start = place) : (b.enter tag).OrderedTo text tag.span.stop := by
  obtain ⟨others, hcovers⟩ := htag.1
  have hspan := hcovers.start_le_stop
  have hplace : place.offset ≤ tag.span.start.offset := Nat.le_of_eq (by rw [hstart])
  unfold enter
  split
  · have hnode : (Node.element tag []).SpelledIn text := .element htag (inOrder_nil _) (by simp)
    have hpushed : OpenStack text tag.span.stop
        { b.top with children := b.top.children ++ [.element tag []] } b.around :=
      OpenStack.push h hnode hplace hspan
    simp only
    split
    · exact hpushed
    · exact hpushed
  · refine ⟨⟨hspan, inOrder_nil _, by simp⟩, htag, Nat.le_refl _, ?_⟩
    rw [hstart]
    exact h

theorem leave_ordered (h : b.OrderedTo text place) {stop : Position} (hstop : PlaceOf text stop)
    (hle : place.offset ≤ stop.offset) (unclosed : Bool) :
    (b.leave unclosed stop).OrderedTo text stop := by
  unfold leave
  unfold OrderedTo at h
  split
  · exact OpenStack.mono h hle
  · rename_i parent around heq
    rw [heq] at h
    exact h.leave hstop hle _

theorem close_ordered (h : b.OrderedTo text place) (name : String) {span : Span}
    (hstop : PlaceOf text span.stop) (hle : place.offset ≤ span.stop.offset) :
    (b.close html name span).OrderedTo text span.stop := by
  unfold close
  split
  · exact OpenStack.mono h hle
  · split
    · exact OpenStack.mono h hle
    · simp only
      split
      · exact leave_ordered h hstop hle false
      · exact leave_ordered (b := b.report _ _) h hstop hle true

/-- **A step of the builder keeps what has been put together in order.** -/
theorem step_ordered (h : b.OrderedTo text place) {piece : Piece} (hpiece : piece.SpelledIn text)
    (hstart : piece.span.start = place) : (b.step html piece).OrderedTo text piece.span.stop := by
  have hb : ({ b with problems := b.problems ++ piece.problems } : Builder).OrderedTo text place :=
    h
  unfold Piece.SpelledIn at hpiece
  unfold step
  simp only
  split
  · rename_i tag hkind
    rw [hkind] at hpiece
    obtain ⟨htag, hspan⟩ := hpiece
    rw [← hspan] at hstart ⊢
    exact enter_ordered hb htag hstart
  · rename_i name hkind
    rw [hkind] at hpiece
    obtain ⟨part, hcovers⟩ := hpiece
    refine close_ordered hb name hcovers.stop_place ?_
    rw [← hstart]
    exact hcovers.start_le_stop
  · rename_i node hkind
    rw [hkind] at hpiece
    obtain ⟨hnode, hspan⟩ := hpiece
    rw [← hspan] at hstart ⊢
    obtain ⟨part, hcovers⟩ := hnode.covers
    exact OpenStack.push hb hnode (Nat.le_of_eq (by rw [hstart])) hcovers.start_le_stop

theorem foldl_step_ordered (html : Bool) (h : b.OrderedTo text place) (hplace : PlaceOf text place)
    {pieces : List Piece} (hpieces : Chained text place pieces) :
    ∃ last, PlaceOf text last ∧ (pieces.foldl (step html) b).OrderedTo text last := by
  induction pieces generalizing b place with
  | nil => exact ⟨place, hplace, h⟩
  | cons piece rest ih =>
    obtain ⟨hstart, hpiece, hrest⟩ := hpieces
    obtain ⟨part, hcovers⟩ := hpiece.covers
    exact ih (step_ordered h hpiece hstart) hcovers.stop_place hrest

theorem closeAll_ordered {stop : Position} (hstop : PlaceOf text stop) {top : Element}
    {around : List Element} (h : OpenStack text place top around)
    (hle : place.offset ≤ stop.offset) :
    let root := closeAll stop top around
    root.tag.span = ⟨.first, stop⟩ ∧ InOrder root.tag.span root.children ∧
      ∀ child ∈ root.children, child.SpelledIn text := by
  induction around generalizing top place with
  | nil =>
    obtain ⟨hopen, hstart⟩ := h
    refine ⟨?_, hopen.order.mono hle, hopen.children⟩
    rw [closeAll, hstart]
  | cons parent around ih => exact ih (h.leave hstop hle true) (Nat.le_refl _)

end Builder

/-- **Spans are faithful.** The root covers the whole source; every other span covers what its node
says, children lie inside their parent one after the other, and problems are reported at places of
the source. -/
theorem parse_spans_faithful (html : Bool) (source : String) :
    (parse ⟨html, false⟩ source).root.tag.span.Covers source.toList source.toList ∧
      InOrder (parse ⟨html, false⟩ source).root.tag.span
        (parse ⟨html, false⟩ source).root.children ∧
      (∀ child ∈ (parse ⟨html, false⟩ source).root.children, child.SpelledIn source.toList) ∧
      ∀ problem ∈ (parse ⟨html, false⟩ source).problems,
        PlaceOf source.toList problem.position := by
  have hwhole : Span.Covers source.toList source.toList
      ⟨.first, Position.first.after source.toList⟩ := ⟨[], [], by simp, rfl, rfl⟩
  obtain ⟨last, hlast, hordered⟩ := Builder.foldl_step_ordered html Builder.empty_ordered
    hwhole.start_place (pieces_chained html source)
  have hle : last.offset ≤ (Position.first.after source.toList).offset := by
    obtain ⟨k, -, rfl⟩ := hlast
    have hmore := (Position.first.after (source.toList.take k)).le_offset_after
      (source.toList.drop k)
    rw [← Position.after_append, List.take_append_drop] at hmore
    omega
  obtain ⟨hspan, horder, hchildren⟩ := Builder.closeAll_ordered hwhole.stop_place hordered hle
  refine ⟨?_, horder, hchildren, (parse_placed ⟨html, false⟩ source).2⟩
  exact hspan ▸ hwhole

end WidgetLint.Markup
