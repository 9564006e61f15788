import WidgetLint.Proofs.Markup.Tags

/-!
# Reading written pieces again

`PieceKind.Sound` lists the pieces that are read without problems: `piece?_sound` shows that there
are no others, and `PieceKind.Sound.readsAs` reads each of them back from its written form,
whatever follows.
-/

namespace WidgetLint.Markup

open Text

variable {html : Bool} {rest : List Char} {position : Position} {c next : Cursor}

/-! ## Nodes and pieces without places -/

mutual

/-- The node without quotes and places. -/
def Node.bare : Node → Node
  | .element tag children => .element tag.bare (bareAll children)
  | .leaf content _ => .leaf content nowhere

def bareAll : List Node → List Node
  | [] => []
  | node :: rest => node.bare :: bareAll rest

end

def Element.bare (e : Element) : Element :=
  ⟨e.tag.bare, bareAll e.children⟩

def PieceKind.bare : PieceKind → PieceKind
  | opening tag => opening tag.bare
  | closing name => closing name
  | whole node => whole node.bare

theorem PieceKind.opening_of_bare {k : PieceKind} {tag : Tag} (h : k.bare = .opening tag) :
    ∃ found, k = .opening found ∧ found.bare = tag := by
  cases k with
  | opening found => exact ⟨found, rfl, PieceKind.opening.inj h⟩
  | closing => cases h
  | whole => cases h

theorem PieceKind.closing_of_bare {k : PieceKind} {name : String} (h : k.bare = .closing name) :
    k = .closing name := by
  cases k with
  | opening => cases h
  | closing found => exact h
  | whole => cases h

def PieceKind.write : PieceKind → String
  | opening tag => tag.writeOpening ++ ">"
  | closing name => "</" ++ name ++ ">"
  | whole node => node.write

/-- The written form of a piece is read as the piece, whatever follows. -/
def ReadsAs (html : Bool) (k : PieceKind) : Prop :=
  ∀ rest position,
    ∃ q stop, piece? html ⟨k.write.toList ++ rest, position⟩ = some (q, ⟨rest, stop⟩) ∧
      q.kind.bare = k.bare ∧ q.problems = []

mutual

/-- The attributes of all tags of a node, in source order. -/
def Node.attributes : Node → List Attribute
  | .element tag children => tag.attributes ++ attributesAll children
  | .leaf .. => []

def attributesAll : List Node → List Attribute
  | [] => []
  | node :: rest => node.attributes ++ attributesAll rest

end

def PieceKind.attributes : PieceKind → List Attribute
  | opening tag => tag.attributes
  | closing _ => []
  | whole node => node.attributes

/-! ## Which pieces are read without problems -/

/-- The word stands after the value for the first time. -/
def EndsAtFirst (word value : List Char) : Prop :=
  textBefore word (value ++ word) = value

/-- The digits of a numeric reference and its code. -/
structure IsNumeral (radix : Nat) (digits : List Char) (code : Nat) : Prop where
  nonempty : digits ≠ []
  digit : ∀ d ∈ digits, isDigitIn radix d = true
  spells : code = numeralValue radix digits
  bound : code < 0x100000000

/-- The leaf can be told from what follows it. Text and raw bodies cannot. -/
def Leaf.Sound : Leaf → Prop
  | comment value => EndsAtFirst "-->".toList value.toList
  | cdata value => EndsAtFirst "]]>".toList value.toList
  | declaration value => EndsAtFirst ">".toList value.toList ∧ ¬"--".toList <+: value.toList ∧
      ¬"[CDATA[".toList <+: value.toList
  | charRef raw code => IsNumeral 10 raw.toList code ∨
      ∃ digits, raw.toList = 'x' :: digits ∧ IsNumeral 16 digits code
  | entityRef name => IsName name.toList = true
  | _ => False

def isRaw (name : String) : Bool :=
  isScript name || isStyle name

def rawLeaf (name body : String) : Leaf :=
  if isScript name then .script body else .style body

/-- The piece can be told from what follows it. In xml no name makes an element void or raw. -/
inductive PieceKind.Sound (html : Bool) : PieceKind → Prop
  | opening {tag : Tag} : tag.Sound → tag.selfClosing = false →
      (html && isVoid tag.name) = false → (html && isRaw tag.name) = false → Sound html (.opening tag)
  | closing {name : String} : IsName name.toList = true → Sound html (.closing name)
  | childless {tag : Tag} : tag.Sound → (tag.selfClosing || html && isVoid tag.name) = true →
      Sound html (.whole (.element tag []))
  | raw {tag : Tag} {body : String} {span : Span} : tag.Sound → tag.selfClosing = false →
      (html && isRaw tag.name) = true → Avoids ('<' :: '/' :: tag.name.toList) body.toList →
      Sound html (.whole (.element tag [.leaf (rawLeaf tag.name body) span]))
  | leaf {content : Leaf} {span : Span} : content.Sound → Sound html (.whole (.leaf content span))

/-! ## Reading back what stands between delimiters -/

theorem prefix_append_iff {word text : List Char} (h : word.length ≤ text.length) :
    word <+: text ++ rest ↔ word <+: text :=
  ⟨fun hword => List.prefix_of_prefix_length_le hword (List.prefix_append text rest) h,
    fun hword => hword.trans (List.prefix_append text rest)⟩

theorem endsAtFirst_iff {word value : List Char} :
    textBefore word (value ++ (word ++ rest)) = value ↔ EndsAtFirst word value := by
  unfold EndsAtFirst
  induction value with
  | nil =>
    cases word with
    | nil => cases rest <;> simp [textBefore]
    | cons d word =>
      have hlong : (d :: word).isPrefixOf (d :: (word ++ rest)) = true := by
        rw [List.isPrefixOf_iff_prefix]
        exact List.prefix_append (d :: word) rest
      have hshort : (d :: word).isPrefixOf (d :: word) = true :=
        List.isPrefixOf_iff_prefix.2 List.prefix_rfl
      rw [List.nil_append, List.nil_append, List.cons_append, textBefore, textBefore, if_pos hlong,
        if_pos hshort]
  | cons d value ih =>
    have hsame : word.isPrefixOf (d :: (value ++ (word ++ rest))) =
        word.isPrefixOf (d :: (value ++ word)) := by
      have hiff := @prefix_append_iff rest word (d :: (value ++ word)) (by simp; omega)
      rw [Bool.eq_iff_iff, List.isPrefixOf_iff_prefix, List.isPrefixOf_iff_prefix, ← hiff]
      simp
    rw [List.cons_append, List.cons_append, textBefore, textBefore, hsame]
    split
    · simp
    · rw [List.cons_inj_right, List.cons_inj_right, ih]

theorem delimited_written {content : String → Leaf} {opening value closing : String}
    (hclosing : closing.toList ≠ []) (h : EndsAtFirst closing.toList value.toList) (fault : Fault)
    (position : Position) :
    ∃ span stop, delimited content opening.length closing.toList fault
        ⟨opening.toList ++ (value.toList ++ (closing.toList ++ rest)), position⟩ =
      (⟨.whole (.leaf (content value) span), span, []⟩, ⟨rest, stop⟩) := by
  have hopen (p : Position) : (⟨opening.toList ++ (value.toList ++ (closing.toList ++ rest)), p⟩ :
      Cursor).drop opening.length = ⟨value.toList ++ (closing.toList ++ rest), p.after opening.toList⟩ :=
    Cursor.drop_append _ String.length_toList.symm
  have hvalue (p : Position) : (⟨value.toList ++ (closing.toList ++ rest), p⟩ : Cursor).drop
      value.toList.length = ⟨closing.toList ++ rest, p.after value.toList⟩ :=
    Cursor.drop_append _ rfl
  have hclose (p : Position) : (⟨closing.toList ++ rest, p⟩ : Cursor).drop closing.toList.length =
      ⟨rest, p.after closing.toList⟩ :=
    Cursor.drop_append _ rfl
  have hrest : (closing.toList ++ rest).isEmpty = false := by
    cases htext : closing.toList with
    | nil => exact absurd htext hclosing
    | cons d others => rfl
  unfold delimited
  simp only [hopen, endsAtFirst_iff.2 h, hvalue, hclose, hrest, String.ofList_toList]
  exact ⟨_, _, rfl⟩

theorem delimited_sound {content : String → Leaf} {closing : String} {opening : Nat} {fault : Fault}
    (h : (delimited content opening closing.toList fault c).1.problems = []) :
    ∃ value span rest, (delimited content opening closing.toList fault c).1.kind =
        .whole (.leaf (content value) span) ∧ EndsAtFirst closing.toList value.toList ∧
      (c.drop opening).rest = value.toList ++ (closing.toList ++ rest) := by
  have hvalue := textBefore_takes closing.toList (c.drop opening)
  have hfollows := startsWith_after_textBefore closing.toList (c.drop opening)
  unfold delimited at h ⊢
  simp only at h ⊢
  generalize hdef : textBefore closing.toList (c.drop opening).rest = value at *
  generalize (c.drop opening).drop value.length = stop at *
  split at h
  · cases h
  · rename_i hstop
    have hclose := Cursor.takes_word (hfollows (by simpa using hstop))
    have hrest := hvalue.1
    rw [hclose.1] at hrest
    refine ⟨String.ofList value, _, (stop.drop closing.toList.length).rest, rfl, ?_, ?_⟩
    · rw [String.toList_ofList, ← @endsAtFirst_iff _ closing.toList, ← hrest, hdef]
    · rw [String.toList_ofList]
      exact hrest

theorem prefix_of_not_mem {word text : List Char} {d : Char} (hd : d ∉ word)
    (h : word <+: text ++ d :: rest) : word <+: text := by
  rcases List.prefix_or_prefix_of_prefix h (List.prefix_append text (d :: rest)) with hshort | hlong
  · exact hshort
  · obtain ⟨tail, rfl⟩ := hlong
    rw [List.prefix_append_right_inj] at h
    cases tail with
    | nil => simp
    | cons t tail =>
      obtain ⟨rfl, -⟩ := List.cons_prefix_cons.1 h
      exact absurd (by simp) hd

theorem piece?_declaration {value : List Char} (hcomment : ¬"--".toList <+: value)
    (hcdata : ¬"[CDATA[".toList <+: value) :
    piece? html ⟨'<' :: '!' :: (value ++ '>' :: rest), position⟩ =
      some (delimited .declaration 2 ['>'] .unterminatedDeclaration
        ⟨'<' :: '!' :: (value ++ '>' :: rest), position⟩) := by
  have hnot {word : List Char} (hword : '>' ∉ word) (h : ¬word <+: value) :
      ('<' :: '!' :: word).isPrefixOf ('<' :: '!' :: (value ++ '>' :: rest)) = false := by
    rw [← Bool.not_eq_true, List.isPrefixOf_iff_prefix, List.cons_prefix_cons,
      List.cons_prefix_cons]
    exact fun hboth => h (prefix_of_not_mem hword hboth.2.2)
  have hclose : ['<', '/'].isPrefixOf ('<' :: '!' :: (value ++ '>' :: rest)) = false := rfl
  have hnotComment :
      ['<', '!', '-', '-'].isPrefixOf ('<' :: '!' :: (value ++ '>' :: rest)) = false :=
    hnot (by decide) hcomment
  have hnotCdata : ['<', '!', '[', 'C', 'D', 'A', 'T', 'A', '['].isPrefixOf
      ('<' :: '!' :: (value ++ '>' :: rest)) = false :=
    hnot (by decide) hcdata
  have hopen : ['<', '!'].isPrefixOf ('<' :: '!' :: (value ++ '>' :: rest)) = true := rfl
  simp only [piece?, Cursor.startsWith, hclose, hnotComment, hnotCdata, hopen, Bool.false_eq_true,
    if_false, if_true]

/-! ## Reading back references -/

theorem charRef?_written {raw : String} {code : Nat} (h : (Leaf.charRef raw code).Sound)
    (position : Position) :
    ∃ stop, charRef? ⟨'&' :: '#' :: (raw.toList ++ ';' :: rest), position⟩ =
      some (.charRef raw code, ⟨rest, stop⟩) := by
  have hdrop : (⟨'&' :: '#' :: (raw.toList ++ ';' :: rest), position⟩ : Cursor).drop 2 =
      ⟨raw.toList ++ ';' :: rest, (position.next '&').next '#'⟩ := rfl
  have hsemicolon (radix : Nat) :
      ∀ d ∈ (';' :: rest).head?, isDigitIn radix d = false := by
    rintro d ⟨⟩
    rfl
  have hend (p : Position) : (⟨';' :: rest, p⟩ : Cursor).startsWith [';'] = true := rfl
  have hlast (p : Position) : (⟨';' :: rest, p⟩ : Cursor).drop 1 = ⟨rest, p.next ';'⟩ := rfl
  rcases h with hdecimal | ⟨digits, hraw, hhex⟩
  · have hmark (p : Position) : (⟨raw.toList ++ ';' :: rest, p⟩ : Cursor).startsWith ['x'] =
        false := by
      cases hraw : raw.toList with
      | nil => exact absurd hraw hdecimal.nonempty
      | cons d digits =>
        have hd : d ≠ 'x' := by
          rintro rfl
          exact absurd (hdecimal.digit 'x' (by rw [hraw]; simp)) (by decide)
        simp [Cursor.startsWith, List.isPrefixOf, Ne.symm hd]
    have hempty : raw.toList.isEmpty = false := by simpa using hdecimal.nonempty
    have hbound : decide (0x100000000 ≤ code) = false := by simpa using hdecimal.bound
    unfold charRef?
    simp only [hdrop, hmark, Bool.false_eq_true, if_false,
      Cursor.run_append hdecimal.digit (hsemicolon 10),
      Cursor.skip_append hdecimal.digit (hsemicolon 10), hempty, hend, hlast, hbound,
      String.ofList_toList, ← hdecimal.spells]
    exact ⟨_, rfl⟩
  · have hmark (p : Position) : (⟨'x' :: (digits ++ ';' :: rest), p⟩ : Cursor).startsWith ['x'] =
        true := rfl
    have hfirst (p : Position) : (⟨'x' :: (digits ++ ';' :: rest), p⟩ : Cursor).drop 1 =
        ⟨digits ++ ';' :: rest, p.next 'x'⟩ := rfl
    have hempty : digits.isEmpty = false := by simpa using hhex.nonempty
    have hbound : decide (0x100000000 ≤ code) = false := by simpa using hhex.bound
    have hraw' : raw = String.ofList ('x' :: digits) := by rw [← hraw, String.ofList_toList]
    unfold charRef?
    rw [hraw, List.cons_append] at hdrop ⊢
    simp only [hdrop, hmark, hfirst, if_true,
      Cursor.run_append hhex.digit (hsemicolon 16),
      Cursor.skip_append hhex.digit (hsemicolon 16), hempty, hend, hlast, hbound,
      ← hhex.spells, ← hraw']
    exact ⟨_, rfl⟩

theorem entityRef?_written {name : String} (h : IsName name.toList = true) (position : Position) :
    ∃ stop, entityRef? ⟨'&' :: (name.toList ++ ';' :: rest), position⟩ =
      some (.entityRef name, ⟨rest, stop⟩) := by
  have hend : ∀ d ∈ (';' :: rest).head?, isNameChar d = false := by
    rintro d ⟨⟩
    decide
  have hname : name? ((⟨'&' :: (name.toList ++ ';' :: rest), position⟩ : Cursor).drop 1) =
      some (String.ofList name.toList, ⟨';' :: rest, (position.next '&').after name.toList⟩) :=
    name?_append h hend
  have hsemicolon (p : Position) : (⟨';' :: rest, p⟩ : Cursor).startsWith [';'] = true := rfl
  unfold entityRef?
  simp only [hname, hsemicolon, if_true, String.ofList_toList]
  exact ⟨_, rfl⟩

theorem charRef?_sound {content : Leaf} (h : charRef? c = some (content, next)) :
    content.Sound := by
  unfold charRef? at h
  simp only at h
  rw [Option.ite_none_left_eq_some] at h
  obtain ⟨hnot, hfound⟩ := h
  simp only [Bool.or_eq_true, Bool.not_eq_true', not_or, decide_eq_true_eq] at hnot
  obtain ⟨⟨hempty, -⟩, hbound⟩ := hnot
  cases hfound
  have hnumeral (radix : Nat) (d : Cursor) (hne : ¬(d.run (isDigitIn radix)).isEmpty = true)
      (hlt : ¬0x100000000 ≤ numeralValue radix (d.run (isDigitIn radix))) :
      IsNumeral radix (d.run (isDigitIn radix))
        (numeralValue radix (d.run (isDigitIn radix))) :=
    ⟨by simpa using hne, fun _ hd => List.mem_takeWhile_imp hd, rfl, Nat.not_le.1 hlt⟩
  cases hhex : (c.drop 2).startsWith ['x'] with
  | true =>
    simp only [hhex, if_true] at hempty hbound ⊢
    exact .inr ⟨_, String.toList_ofList, hnumeral 16 _ hempty hbound⟩
  | false =>
    simp only [hhex, Bool.false_eq_true, if_false] at hempty hbound ⊢
    rw [Leaf.Sound, String.toList_ofList]
    exact .inl (hnumeral 10 _ hempty hbound)

theorem entityRef?_sound {content : Leaf} (h : entityRef? c = some (content, next)) :
    content.Sound := by
  unfold entityRef? at h
  split at h
  · rename_i name stop hname
    split at h
    · cases h
      exact (name?_isName hname).1
    · cases h
  · cases h

/-! ## Reading back pieces -/

theorem sameIgnoringCase_of_isRaw {name : String} (h : isRaw name = true) :
    foldAscii name.toList = "script".toList ∨ foldAscii name.toList = "style".toList := by
  rw [isRaw, Bool.or_eq_true] at h
  rcases h with hscript | hstyle
  · left
    exact sameIgnoringCase_iff.1 hscript
  · right
    exact sameIgnoringCase_iff.1 hstyle

theorem isVoid_of_isRaw {name : String} (h : isRaw name = true) : isVoid name = false := by
  unfold isVoid sameIgnoringCase
  rcases sameIgnoringCase_of_isRaw h with hname | hname
  · rw [hname]
    decide
  · rw [hname]
    decide

theorem piece?_tag {tag : Tag} (h : tag.Sound) :
    piece? html ⟨tag.writeOpening.toList ++ rest, position⟩ =
      openTag? html ⟨tag.writeOpening.toList ++ rest, position⟩ := by
  obtain ⟨first, others, hname, hstart⟩ := IsName.cons h.name
  have hslash : first ≠ '/' := by
    rintro rfl
    exact absurd hstart (by decide)
  have hbang : first ≠ '!' := by
    rintro rfl
    exact absurd hstart (by decide)
  rw [toList_writeOpening, hname]
  exact piece?_openTag hslash hbang

theorem piece?_closeTag {name : String} (h : IsName name.toList = true) (position : Position) :
    piece? html ⟨'<' :: '/' :: (name.toList ++ '>' :: rest), position⟩ =
      some (⟨.closing name, ⟨position, position.after ('<' :: '/' :: (name.toList ++ ['>']))⟩, []⟩,
        ⟨rest, position.after ('<' :: '/' :: (name.toList ++ ['>']))⟩) := by
  have hend : ∀ d ∈ ('>' :: rest).head?, isNameChar d = false := by
    rintro d ⟨⟩
    decide
  have hname : name? ((⟨'<' :: '/' :: (name.toList ++ '>' :: rest), position⟩ : Cursor).drop 2) =
      some (String.ofList name.toList,
        ⟨'>' :: rest, ((position.next '<').next '/').after name.toList⟩) :=
    name?_append h hend
  have hclose (p : Position) : closeTagEnd ⟨'>' :: rest, p⟩ = (⟨rest, p.next '>'⟩, []) := rfl
  have hpiece : piece? html ⟨'<' :: '/' :: (name.toList ++ '>' :: rest), position⟩ =
      closeTag? ⟨'<' :: '/' :: (name.toList ++ '>' :: rest), position⟩ := rfl
  have hafter : position.after ('<' :: '/' :: (name.toList ++ ['>'])) =
      (((position.next '<').next '/').after name.toList).next '>' := by
    simp [Position.after_append]
  rw [hpiece, hafter]
  unfold closeTag?
  simp only [hname, hclose, String.ofList_toList]
  rfl

theorem closing_readsAs {name : String} (h : IsName name.toList = true) :
    ReadsAs html (.closing name) := by
  intro rest position
  have hwrite : (PieceKind.closing name).write.toList ++ rest =
      '<' :: '/' :: (name.toList ++ '>' :: rest) := by
    simp [PieceKind.write]
  rw [hwrite, piece?_closeTag h]
  exact ⟨_, _, rfl, rfl, rfl⟩

theorem opening_readsAs {tag : Tag} (h : tag.Sound) (hself : tag.selfClosing = false)
    (hvoid : (html && isVoid tag.name) = false) (hraw : (html && isRaw tag.name) = false) :
    ReadsAs html (.opening tag) := by
  intro rest position
  obtain ⟨found, stop, hbare, hread⟩ := @openTag?_written rest html tag h position
  have hwrite : (PieceKind.opening tag).write.toList ++ rest =
      tag.writeOpening.toList ++ (tag.ending.word ++ rest) := by
    simp [PieceKind.write, Tag.ending, TagEnd.word, hself]
  rw [isRaw] at hraw
  simp only [hself, hvoid, hraw, Bool.or_false, Bool.false_eq_true, if_false] at hread
  rw [hwrite, piece?_tag h, hread]
  exact ⟨_, _, rfl, by simp [PieceKind.bare, hbare], rfl⟩

theorem childless_readsAs {tag : Tag} (h : tag.Sound)
    (hchildless : (tag.selfClosing || html && isVoid tag.name) = true) :
    ReadsAs html (.whole (.element tag [])) := by
  intro rest position
  obtain ⟨found, stop, hbare, hread⟩ := @openTag?_written rest html tag h position
  have hwrite : (PieceKind.whole (.element tag [])).write.toList ++ rest =
      tag.writeOpening.toList ++ (tag.ending.word ++ rest) := by
    cases hself : tag.selfClosing with
    | true => simp [PieceKind.write, Node.write, Tag.write, Tag.ending, TagEnd.word, hself]
    | false =>
      rw [hself, Bool.false_or, Bool.and_eq_true] at hchildless
      simp [PieceKind.write, Node.write, Tag.write, Tag.ending, TagEnd.word, hself, hchildless.2]
  rw [if_pos hchildless] at hread
  rw [hwrite, piece?_tag h, hread]
  exact ⟨_, _, rfl, by simp [PieceKind.bare, Node.bare, bareAll, hbare], rfl⟩

theorem raw_readsAs {tag : Tag} {body : String} {span : Span} (h : tag.Sound)
    (hself : tag.selfClosing = false) (hhtml : (html && isRaw tag.name) = true)
    (hbody : Avoids ('<' :: '/' :: tag.name.toList) body.toList) :
    ReadsAs html (.whole (.element tag [.leaf (rawLeaf tag.name body) span])) := by
  intro rest position
  obtain ⟨rfl, hraw⟩ := Bool.and_eq_true_iff.1 hhtml
  have hvoid := isVoid_of_isRaw hraw
  have hangle : '<' ∉ foldAscii ('/' :: tag.name.toList) := by
    have hfold : foldAscii ('/' :: tag.name.toList) = '/' :: foldAscii tag.name.toList := rfl
    rw [hfold]
    rcases sameIgnoringCase_of_isRaw hraw with hname | hname
    · rw [hname]
      decide
    · rw [hname]
      decide
  have hleaf : (rawLeaf tag.name body).write = body := by
    unfold rawLeaf
    split <;> rfl
  have hwrite : (PieceKind.whole (.element tag [.leaf (rawLeaf tag.name body) span])).write.toList ++
      rest = tag.writeOpening.toList ++ (tag.ending.word ++
        (body.toList ++ '<' :: '/' :: (tag.name.toList ++ '>' :: rest))) := by
    simp [PieceKind.write, Node.write, writeAll, Tag.write, Tag.ending, TagEnd.word, hself, hvoid,
      h.closed, hleaf]
  obtain ⟨found, stop, hbare, hread⟩ :=
    @openTag?_written (body.toList ++ '<' :: '/' :: (tag.name.toList ++ '>' :: rest)) true tag h
      position
  have hname : found.bare.name = tag.bare.name := by rw [hbare]
  rw [Tag.bare, Tag.bare] at hname
  rw [← hname] at hangle hbody
  obtain ⟨foundSpan, last, helement⟩ := @rawElement_append rest stop found hangle body.toList hbody
  rw [hname, String.ofList_toList] at helement
  rw [isRaw] at hraw
  simp only [hself, hvoid, hraw, Bool.and_false, Bool.true_and, Bool.or_false, Bool.false_eq_true,
    if_false, if_true] at hread
  rw [hwrite, piece?_tag h, hread, helement]
  refine ⟨_, _, rfl, ?_, rfl⟩
  have hsame : Tag.bare { found with span := foundSpan } = tag.bare := hbare
  rw [hname] at hsame
  simp [PieceKind.bare, Node.bare, bareAll, hsame, rawLeaf]

theorem leaf_readsAs {content : Leaf} {span : Span} (h : content.Sound) :
    ReadsAs html (.whole (.leaf content span)) := by
  intro rest position
  cases content with
  | text value => exact h.elim
  | script body => exact h.elim
  | style body => exact h.elim
  | comment value =>
    obtain ⟨found, stop, hread⟩ := @delimited_written rest .comment "<!--" value "-->" (by decide) h
      .unterminatedComment position
    have hwrite : (PieceKind.whole (.leaf (.comment value) span)).write.toList ++ rest =
        "<!--".toList ++ (value.toList ++ ("-->".toList ++ rest)) := by
      simp [PieceKind.write, Node.write, Leaf.write]
    rw [hwrite]
    exact ⟨_, stop, congrArg some hread, rfl, rfl⟩
  | cdata value =>
    obtain ⟨found, stop, hread⟩ := @delimited_written rest .cdata "<![CDATA[" value "]]>" (by decide)
      h .unterminatedCData position
    have hwrite : (PieceKind.whole (.leaf (.cdata value) span)).write.toList ++ rest =
        "<![CDATA[".toList ++ (value.toList ++ ("]]>".toList ++ rest)) := by
      simp [PieceKind.write, Node.write, Leaf.write]
    rw [hwrite]
    exact ⟨_, stop, congrArg some hread, rfl, rfl⟩
  | declaration value =>
    obtain ⟨found, stop, hread⟩ := @delimited_written rest .declaration "<!" value ">" (by decide)
      h.1 .unterminatedDeclaration position
    have hwrite : (PieceKind.whole (.leaf (.declaration value) span)).write.toList ++ rest =
        '<' :: '!' :: (value.toList ++ '>' :: rest) := by
      simp [PieceKind.write, Node.write, Leaf.write]
    rw [hwrite, piece?_declaration h.2.1 h.2.2]
    exact ⟨_, stop, congrArg some hread, rfl, rfl⟩
  | charRef raw code =>
    obtain ⟨stop, hread⟩ := @charRef?_written rest raw code h position
    have hwrite : (PieceKind.whole (.leaf (.charRef raw code) span)).write.toList ++ rest =
        '&' :: '#' :: (raw.toList ++ ';' :: rest) := by
      simp [PieceKind.write, Node.write, Leaf.write]
    have hpiece : piece? html ⟨'&' :: '#' :: (raw.toList ++ ';' :: rest), position⟩ =
        (charRef? ⟨'&' :: '#' :: (raw.toList ++ ';' :: rest), position⟩).map fun found =>
          (⟨.whole (.leaf found.1 ⟨position, found.2.position⟩), ⟨position, found.2.position⟩, []⟩,
            found.2) := rfl
    rw [hwrite, hpiece, hread]
    exact ⟨_, stop, rfl, rfl, rfl⟩
  | entityRef name =>
    obtain ⟨stop, hread⟩ := @entityRef?_written rest name h position
    obtain ⟨first, others, hname, hstart⟩ := IsName.cons h
    have hwrite : (PieceKind.whole (.leaf (.entityRef name) span)).write.toList ++ rest =
        '&' :: (name.toList ++ ';' :: rest) := by
      simp [PieceKind.write, Node.write, Leaf.write]
    have hnumber : first ≠ '#' := by
      rintro rfl
      exact absurd hstart (by decide)
    have hpiece : piece? html ⟨'&' :: (name.toList ++ ';' :: rest), position⟩ =
        (entityRef? ⟨'&' :: (name.toList ++ ';' :: rest), position⟩).map fun found =>
          (⟨.whole (.leaf found.1 ⟨position, found.2.position⟩), ⟨position, found.2.position⟩, []⟩,
            found.2) := by
      rw [hname]
      simp [piece?, reference?, Cursor.startsWith, List.isPrefixOf, Ne.symm hnumber, Cursor.spanTo]
    rw [hwrite, hpiece, hread]
    exact ⟨_, stop, rfl, rfl, rfl⟩

/-- **Pieces are read back.** -/
theorem PieceKind.Sound.readsAs {k : PieceKind} (h : k.Sound html) : ReadsAs html k := by
  cases h with
  | opening htag hself hvoid hraw => exact opening_readsAs htag hself hvoid hraw
  | closing hname => exact closing_readsAs hname
  | childless htag hchildless => exact childless_readsAs htag hchildless
  | raw htag hself hraw hbody => exact raw_readsAs htag hself hraw hbody
  | leaf hcontent => exact leaf_readsAs hcontent

/-! ## Reading without problems -/

theorem avoids_rawText (first : Char) (word text : List Char) :
    Avoids (first :: word) (rawText (first :: word) text) := by
  induction text with
  | nil => rfl
  | cons d text ih =>
    rw [rawText]
    split
    · rfl
    · rename_i hnot
      rw [avoids_cons]
      refine ⟨?_, ih⟩
      rw [beginsIgnoringCase_iff] at hnot
      rw [← Bool.not_eq_true, beginsIgnoringCase_iff]
      intro hbegins
      have hbody : rawText (first :: word) text <+: text := by
        rw [rawText_eq_take]
        exact List.take_prefix _ text
      have hfold : foldAscii (d :: rawText (first :: word) text) <+: foldAscii (d :: text) :=
        (List.cons_prefix_cons.2 ⟨rfl, hbody⟩).map Char.toLower
      exact hnot (hbegins.trans hfold)

theorem rawElement_attributes (tag : Tag) (c : Cursor) :
    (rawElement tag c).1.kind.attributes = tag.attributes := by
  unfold rawElement
  simp only
  split <;> simp [PieceKind.attributes, Node.attributes, attributesAll]

theorem rawElement_sound {tag : Tag} (h : tag.Sound) (hself : tag.selfClosing = false)
    (hraw : (html && isRaw tag.name) = true) (hclean : (rawElement tag c).1.problems = []) :
    (rawElement tag c).1.kind.Sound html := by
  revert hclean
  unfold rawElement
  simp only
  split
  · intro hclean
    cases hclean
  · intro _
    have htag (span : Span) : Tag.Sound { tag with span := span } := ⟨h.name, h.attributes, h.closed⟩
    refine .raw (htag _) hself hraw ?_
    rw [String.toList_ofList]
    exact avoids_rawText '<' _ c.rest

theorem openTag?_sound {piece : Piece} (h : openTag? html c = some (piece, next))
    (hclean : piece.problems = [])
    (hquotable : ∀ a ∈ piece.kind.attributes, ∀ v ∈ a.value, v.Quotable) :
    piece.kind.Sound html := by
  unfold openTag? at h
  split at h
  · cases h
  · rename_i name afterName hname
    simp only at h
    have hattributes := @tagRest_sound (skipBlanks afterName)
      ((skipBlanks afterName).rest.length + 1) (skipBlanks_head afterName)
    generalize tagRest ((skipBlanks afterName).rest.length + 1) (skipBlanks afterName) = rest
      at h hattributes
    have htag (selfClosing : Bool) (span : Span) (hrest : rest.problems = [])
        (hvalues : ∀ a ∈ rest.attributes, ∀ v ∈ a.value, v.Quotable) :
        Tag.Sound ⟨name, rest.attributes, selfClosing, false, span⟩ :=
      ⟨(name?_isName hname).1, hattributes hrest hvalues, rfl⟩
    split at h
    · rename_i hchildless
      cases h
      rw [List.append_eq_nil_iff] at hclean
      simp only [PieceKind.attributes, Node.attributes, attributesAll, List.append_nil] at hquotable
      exact .childless (htag _ _ hclean.1 hquotable) hchildless
    · rename_i hopen
      rw [Bool.or_eq_true, not_or, Bool.not_eq_true, Bool.not_eq_true] at hopen
      split at h
      · rename_i hraw
        cases h
        simp only [List.append_eq_nil_iff] at hclean
        simp only [rawElement_attributes] at hquotable
        exact rawElement_sound (htag _ _ hclean.1.1 hquotable) hopen.1 hraw hclean.2
      · rename_i hraw
        cases h
        rw [List.append_eq_nil_iff] at hclean
        rw [Bool.not_eq_true] at hraw
        exact .opening (htag _ _ hclean.1 hquotable) hopen.1 hopen.2 hraw

/-- **What is read without problems can be read again.** -/
theorem piece?_sound {piece : Piece} (h : piece? html c = some (piece, next))
    (hclean : piece.problems = [])
    (hquotable : ∀ a ∈ piece.kind.attributes, ∀ v ∈ a.value, v.Quotable) :
    piece.kind.Sound html := by
  cases piece?_at h with
  | closeTag _ hread =>
    unfold closeTag? at hread
    split at hread
    · cases hread
    · rename_i name afterName hname
      cases hread
      exact .closing (name?_isName hname).1
  | comment _ hread =>
    cases hread
    obtain ⟨value, span, rest, hkind, hvalue, -⟩ :=
      @delimited_sound c .comment "-->" 4 .unterminatedComment hclean
    exact hkind ▸ .leaf hvalue
  | cdata _ hread =>
    cases hread
    obtain ⟨value, span, rest, hkind, hvalue, -⟩ :=
      @delimited_sound c .cdata "]]>" 9 .unterminatedCData hclean
    exact hkind ▸ .leaf hvalue
  | declaration hopening hcomment hcdata hread =>
    cases hread
    obtain ⟨value, span, rest, hkind, hvalue, hrest⟩ :=
      @delimited_sound c .declaration ">" 2 .unterminatedDeclaration hclean
    have hsource : c.rest = '<' :: '!' :: (value.toList ++ (">".toList ++ rest)) := by
      rw [(Cursor.takes_word hopening).1]
      exact congrArg (['<', '!'] ++ ·) hrest
    have hnot {word : List Char} (hno : ¬c.startsWith ('<' :: '!' :: word) = true) :
        ¬word <+: value.toList := by
      intro hword
      apply hno
      rw [Cursor.startsWith, List.isPrefixOf_iff_prefix, hsource, List.cons_prefix_cons,
        List.cons_prefix_cons]
      exact ⟨rfl, rfl, hword.trans (List.prefix_append _ _)⟩
    exact hkind ▸ .leaf ⟨hvalue, hnot hcomment, hnot hcdata⟩
  | openTag _ hread => exact openTag?_sound hread hclean hquotable
  | reference _ hread =>
    obtain ⟨content, rfl, ⟨-, hfound⟩ | hfound⟩ := reference?_cases hread
    · exact .leaf (charRef?_sound hfound)
    · exact .leaf (entityRef?_sound hfound)

end WidgetLint.Markup
