import Mathlib.Data.List.TakeWhile
import WidgetLint.Markup.Written
import WidgetLint.Proofs.Markup.Spans

/-!
# Reading written tags again

A tag that was read without problems has attributes that can be told apart in its written form
(`tagRest_sound`), and such a tag is read back from it, whatever follows (`openTag?_written`). The
tag that is read back has the same `bare` form: it differs at most in places and quotes.
-/

namespace WidgetLint.Markup

open Text

variable {rest : List Char} {position : Position} {c next : Cursor}

/-! ## What stays when places and quotes are forgotten -/

/-- The value without its quotes and its place. -/
def AttributeValue.bare (v : AttributeValue) : AttributeValue :=
  ⟨v.text, none, nowhere⟩

def Attribute.bare (a : Attribute) : Attribute :=
  ⟨a.name, nowhere, a.value.map AttributeValue.bare⟩

def Tag.bare (t : Tag) : Tag :=
  ⟨t.name, t.attributes.map Attribute.bare, t.selfClosing, t.unclosed, nowhere⟩

/-! ## Attributes -/

/-- A value that stood without quotes holds at most one kind of them. -/
def AttributeValue.Quotable (v : AttributeValue) : Prop :=
  v.quote = none → ¬('"' ∈ v.text.toList ∧ '\'' ∈ v.text.toList)
deriving Decidable

/-- The value can be told from what follows its closing quote. -/
structure AttributeValue.Sound (v : AttributeValue) : Prop where
  angle : '<' ∉ v.text.toList
  quotes : v.writtenQuote = '"' ∨ v.writtenQuote = '\''
  quote : v.writtenQuote ∉ v.text.toList

/-- The attribute can be told from the blank before it and from what follows. -/
structure Attribute.Sound (a : Attribute) : Prop where
  name : IsName a.name.toList = true
  first : ∀ c ∈ a.name.toList.head?, isBlank c = false
  value : ∀ v ∈ a.value, v.Sound

/-- The name of the attribute can be told from the blank before it. -/
structure Attribute.Named (a : Attribute) : Prop where
  name : IsName a.name.toList = true
  first : ∀ c ∈ a.name.toList.head?, isBlank c = false

theorem Attribute.Sound.named {a : Attribute} (h : a.Sound) : a.Named :=
  ⟨h.name, h.first⟩

/-- A value that stood in quotes does not contain them. -/
def AttributeValue.Read (v : AttributeValue) : Prop :=
  ∀ quote, v.quote = some quote → (quote = '"' ∨ quote = '\'') ∧ quote ∉ v.text.toList

section
variable {v : AttributeValue}

theorem AttributeValue.Read.writtenQuote_quotes (h : v.Read) :
    v.writtenQuote = '"' ∨ v.writtenQuote = '\'' := by
  unfold writtenQuote
  simp only
  split
  · rename_i quote hquote
    rw [if_neg (by simpa using (h quote hquote).2)]
    exact (h quote hquote).1
  · split
    · exact .inr rfl
    · exact .inl rfl

/-- A value can be written in the quotes chosen for it unless it stood without quotes and holds both
kinds of them. -/
theorem AttributeValue.Read.writtenQuote_not_mem_iff (h : v.Read) :
    v.writtenQuote ∉ v.text.toList ↔ v.Quotable := by
  unfold writtenQuote Quotable
  simp only
  split
  · rename_i quote hquote
    rw [if_neg (by simpa using (h quote hquote).2)]
    exact iff_of_true (h quote hquote).2 fun hnone => nomatch hquote.symm.trans hnone
  · rename_i hquote
    split
    · rename_i hdouble
      simp [hquote, List.contains_iff_mem.1 hdouble]
    · rename_i hdouble
      rw [List.contains_iff_mem] at hdouble
      simp [hdouble]

end

theorem name?_isName {name : String} (h : name? c = some (name, next)) :
    IsName name.toList = true ∧ name.toList.head? = c.rest.head? := by
  unfold name? at h
  split at h
  · rename_i first others hrest
    split at h
    · rename_i hfirst
      cases h
      have hchar : isNameChar first = true := by rw [isNameChar, hfirst, Bool.true_or]
      rw [String.toList_ofList, Cursor.run, hrest, List.takeWhile_cons_of_pos hchar]
      refine ⟨?_, rfl⟩
      rw [IsName, hfirst, Bool.true_and, List.all_eq_true]
      exact fun d hd => List.mem_takeWhile_imp hd
    · cases h
  · cases h

theorem mem_of_angleProblems {text : List Char} (h : angleProblems position text = []) :
    '<' ∉ text := by
  induction text generalizing position with
  | nil => simp
  | cons c text ih =>
    rw [angleProblems] at h
    split at h
    · cases h
    · rename_i hc
      rw [List.mem_cons, not_or]
      exact ⟨Ne.symm hc, ih h⟩

theorem quotedValue_read {quote : Char} (hquote : quote = '"' ∨ quote = '\'') :
    (quotedValue quote c).1.Read := by
  rintro _ ⟨⟩
  refine ⟨hquote, fun hmem => ?_⟩
  rw [quotedValue, String.toList_ofList] at hmem
  have hne := List.mem_takeWhile_imp hmem
  simp at hne

theorem quotedValue_angle {quote : Char} (h : (quotedValue quote c).2.2 = []) :
    '<' ∉ (quotedValue quote c).1.text.toList := by
  rw [quotedValue, List.append_eq_nil_iff] at h
  rw [quotedValue, String.toList_ofList]
  exact mem_of_angleProblems h.1

theorem not_mem_bareText (text : List Char) : '<' ∉ bareText text := by
  induction text using bareText.induct with
  | case1 => simp [bareText]
  | case2 => simp [bareText]
  | case3 d text hslash hstop =>
    rw [bareText, if_pos hstop]
    · simp
    · exact hslash
  | case4 d text hslash hstop ih =>
    rw [bareText, if_neg hstop]
    · simp only [Bool.or_eq_true, beq_iff_eq, not_or] at hstop
      rw [List.mem_cons, not_or]
      exact ⟨Ne.symm hstop.1.2, ih⟩
    · exact hslash

theorem attributeValue_read (c : Cursor) : (attributeValue c).1.Read := by
  unfold attributeValue
  split
  · exact quotedValue_read (.inl rfl)
  · exact quotedValue_read (.inr rfl)
  · exact fun _ hquote => nomatch hquote

theorem attributeValue_angle (h : (attributeValue c).2.2 = []) :
    '<' ∉ (attributeValue c).1.text.toList := by
  revert h
  unfold attributeValue
  split
  · exact quotedValue_angle
  · exact quotedValue_angle
  · intro _
    simpa using not_mem_bareText c.rest

theorem attributeValue_sound (h : (attributeValue c).2.2 = [])
    (hquotable : (attributeValue c).1.Quotable) : (attributeValue c).1.Sound :=
  ⟨attributeValue_angle h, (attributeValue_read c).writtenQuote_quotes,
    (attributeValue_read c).writtenQuote_not_mem_iff.2 hquotable⟩

section
variable {found : Attribute} {problems : List Problem}

/-- An attribute has a name and, after an equals sign, a value, from which all its problems are. -/
theorem attribute?_eq_some (h : attribute? c = some (found, next, problems)) :
    IsName found.name.toList = true ∧ found.name.toList.head? = c.rest.head? ∧
      ((found.value = none ∧ problems = []) ∨
        ∃ d, found.value = some (attributeValue d).1 ∧ problems = (attributeValue d).2.2) := by
  unfold attribute? at h
  split at h
  · cases h
  · rename_i name afterName hname
    obtain ⟨hisName, hhead⟩ := name?_isName hname
    simp only at h
    split at h
    · cases h
      exact ⟨hisName, hhead, .inr ⟨_, rfl, rfl⟩⟩
    · cases h
      exact ⟨hisName, hhead, .inl ⟨rfl, rfl⟩⟩

theorem attribute?_read (h : attribute? c = some (found, next, problems))
    (hfirst : ∀ d ∈ c.rest.head?, isBlank d = false) :
    found.Named ∧ ∀ v ∈ found.value, v.Read := by
  obtain ⟨hname, hhead, ⟨hvalue, -⟩ | ⟨d, hvalue, -⟩⟩ := attribute?_eq_some h
  · exact ⟨⟨hname, hhead ▸ hfirst⟩, by simp [hvalue]⟩
  · exact ⟨⟨hname, hhead ▸ hfirst⟩, by simpa [hvalue] using attributeValue_read d⟩

theorem attribute?_sound (h : attribute? c = some (found, next, problems)) (hclean : problems = [])
    (hfirst : ∀ d ∈ c.rest.head?, isBlank d = false) (hquotable : ∀ v ∈ found.value, v.Quotable) :
    found.Sound := by
  obtain ⟨hname, hhead, ⟨hvalue, -⟩ | ⟨d, hvalue, hproblems⟩⟩ := attribute?_eq_some h
  · exact ⟨hname, hhead ▸ hfirst, by simp [hvalue]⟩
  · have hsound := attributeValue_sound (hproblems ▸ hclean) (hquotable _ hvalue)
    exact ⟨hname, hhead ▸ hfirst, by simpa [hvalue] using hsound⟩

end

theorem skipBlanks_head (c : Cursor) : ∀ d ∈ (skipBlanks c).rest.head?, isBlank d = false := by
  intro d hd
  have hhead := List.head?_dropWhile_not isBlank c.rest
  rw [skipBlanks, Cursor.skip] at hd
  rw [Option.mem_def.1 hd] at hhead
  exact hhead

theorem mem_tagRest {a : Attribute} (fuel : Nat) (hfirst : ∀ d ∈ c.rest.head?, isBlank d = false)
    (h : a ∈ (tagRest fuel c).attributes) :
    ∃ start next problems, attribute? start = some (a, next, problems) ∧
      (∀ d ∈ start.rest.head?, isBlank d = false) ∧ problems ⊆ (tagRest fuel c).problems := by
  induction fuel generalizing c with
  | zero => simp [tagRest] at h
  | succ fuel ih =>
    revert h
    unfold tagRest
    split
    · simp
    · simp
    · simp
    · split
      · rename_i found next problems hfound
        intro h
        rcases List.mem_cons.1 h with rfl | h
        · exact ⟨c, next, problems, hfound, hfirst, List.subset_append_left _ _⟩
        · obtain ⟨start, next', problems', hread, hstart, hsubset⟩ := ih (skipBlanks_head next) h
          exact ⟨start, next', problems', hread, hstart,
            List.subset_append_of_subset_right _ hsubset⟩
      · exact ih (skipBlanks_head _)

theorem tagRest_read {a : Attribute} (fuel : Nat) (hfirst : ∀ d ∈ c.rest.head?, isBlank d = false)
    (h : a ∈ (tagRest fuel c).attributes) : a.Named ∧ ∀ v ∈ a.value, v.Read := by
  obtain ⟨start, next, problems, hread, hstart, -⟩ := mem_tagRest fuel hfirst h
  exact attribute?_read hread hstart

theorem tagRest_sound (fuel : Nat) (hfirst : ∀ d ∈ c.rest.head?, isBlank d = false)
    (hclean : (tagRest fuel c).problems = [])
    (hquotable : ∀ a ∈ (tagRest fuel c).attributes, ∀ v ∈ a.value, v.Quotable) :
    ∀ a ∈ (tagRest fuel c).attributes, a.Sound := by
  intro a ha
  obtain ⟨start, next, problems, hread, hstart, hsubset⟩ := mem_tagRest fuel hfirst ha
  rw [hclean] at hsubset
  exact attribute?_sound hread (List.subset_nil.1 hsubset) hstart (hquotable a ha)

theorem IsName.cons {name : List Char} (h : IsName name = true) :
    ∃ first others, name = first :: others ∧ isNameStart first = true := by
  cases name with
  | nil => cases h
  | cons first others =>
    rw [IsName, Bool.and_eq_true] at h
    exact ⟨first, others, rfl, h.1⟩

theorem skipBlanks_of_head (h : ∀ d ∈ rest.head?, isBlank d = false) :
    skipBlanks ⟨rest, position⟩ = ⟨rest, position⟩ := by
  cases rest with
  | nil => rfl
  | cons d rest => exact skipBlanks_cons (h d rfl)

/-- A written attribute without a value is read back, and the blanks after it are taken along. -/
theorem attribute?_write_none {a : Attribute} (h : a.Named) (hvalue : a.value = none)
    (hend : ∀ d ∈ rest.head?, isNameChar d = false)
    (hequals : (rest.dropWhile isBlank).head? ≠ some '=') (position : Position) :
    attribute? ⟨a.write.toList ++ rest, position⟩ =
      some (⟨a.name, ⟨position, position.after a.name.toList⟩, none⟩,
        skipBlanks ⟨rest, position.after a.name.toList⟩, []) := by
  have hread : name? ⟨a.name.toList ++ rest, position⟩ = some (String.ofList a.name.toList,
      ⟨rest, position.after a.name.toList⟩) := name?_append h.name hend
  have hnot : (skipBlanks ⟨rest, position.after a.name.toList⟩).startsWith ['='] = false := by
    rw [Cursor.startsWith, skipBlanks, Cursor.skip]
    cases hrest : rest.dropWhile isBlank with
    | nil => rfl
    | cons d others =>
      rw [hrest] at hequals
      simp only [List.head?_cons, ne_eq, Option.some.injEq] at hequals
      simp [List.isPrefixOf, Ne.symm hequals]
  rw [Attribute.write, hvalue]
  unfold attribute?
  rw [hread]
  simp [hnot, Cursor.spanTo]

/-- A written attribute with a value is read with its name and with what stands between its
quotes. -/
theorem attribute?_write_some {a : Attribute} {v : AttributeValue} (h : a.Named)
    (hvalue : a.value = some v) (hquotes : v.writtenQuote = '"' ∨ v.writtenQuote = '\'')
    (position : Position) :
    ∃ nameSpan start,
      let found := quotedValue v.writtenQuote ⟨v.text.toList ++ v.writtenQuote :: rest, start⟩
      attribute? ⟨a.write.toList ++ rest, position⟩ =
        some (⟨a.name, nameSpan, some found.1⟩, found.2) := by
  have hwrite : a.write.toList ++ rest =
      a.name.toList ++ '=' :: v.writtenQuote :: (v.text.toList ++ v.writtenQuote :: rest) := by
    simp [Attribute.write, hvalue]
  rw [hwrite, attribute?_quoted hquotes h.name, String.ofList_toList]
  exact ⟨_, _, rfl⟩

/-- A written attribute is read back. The blanks after it may be taken along. -/
theorem attribute?_written {a : Attribute} (h : a.Sound)
    (hend : ∀ d ∈ rest.head?, isNameChar d = false)
    (hequals : (rest.dropWhile isBlank).head? ≠ some '=') (position : Position) :
    ∃ found next stop, attribute? ⟨a.write.toList ++ rest, position⟩ = some (found, next, []) ∧
      found.bare = a.bare ∧ skipBlanks next = skipBlanks ⟨rest, stop⟩ := by
  cases hvalue : a.value with
  | none =>
    refine ⟨_, _, _, attribute?_write_none h.named hvalue hend hequals position, ?_,
      skipBlanks_of_head (skipBlanks_head _)⟩
    simp [Attribute.bare, hvalue]
  | some v =>
    have hv := h.value v hvalue
    obtain ⟨nameSpan, start, hread⟩ :=
      @attribute?_write_some rest a v h.named hvalue hv.quotes position
    rw [quotedValue_append hv.quote, angleProblems_eq_nil hv.angle] at hread
    refine ⟨_, _, _, hread, ?_, rfl⟩
    simp [Attribute.bare, hvalue, AttributeValue.bare]

/-! ## Open tags -/

/-- How the end of an open tag is written. -/
def TagEnd.word : TagEnd → List Char
  | selfClosed => ['/', '>']
  | closed => ['>']
  | missing => []

def attributesText (attributes : List Attribute) : List Char :=
  attributes.flatMap fun a => ' ' :: a.write.toList

theorem toList_writeOpening (t : Tag) :
    t.writeOpening.toList = '<' :: (t.name.toList ++ attributesText t.attributes) := by
  rw [Tag.writeOpening]
  simp [attributesText, List.flatMap_map]

theorem Attribute.Named.write_cons {a : Attribute} (h : a.Named) :
    ∃ first others, a.write.toList = first :: others ∧ isNameStart first = true ∧
      isBlank first = false := by
  obtain ⟨first, others, hname, hstart⟩ := IsName.cons h.name
  have hblank : isBlank first = false := h.first first (by rw [hname]; rfl)
  unfold Attribute.write
  split
  · rename_i v hv
    exact ⟨first, others ++ '=' :: v.writtenQuote :: (v.text.toList ++ [v.writtenQuote]),
      by simp [hname], hstart, hblank⟩
  · exact ⟨first, others, hname, hstart, hblank⟩

theorem isBlank_word {ending : TagEnd} (hending : ending ≠ .missing) :
    ∃ first others, ending.word = first :: others ∧ isNameChar first = false ∧
      isBlank first = false ∧ first ≠ '=' := by
  cases ending with
  | selfClosed => exact ⟨'/', ['>'], rfl, by decide, by decide, by decide⟩
  | closed => exact ⟨'>', [], rfl, by decide, by decide, by decide⟩
  | missing => exact absurd rfl hending

theorem attributesText_head {attributes : List Attribute} {ending : TagEnd}
    (hending : ending ≠ .missing) :
    ∀ d ∈ (attributesText attributes ++ (ending.word ++ rest)).head?, isNameChar d = false := by
  cases attributes with
  | nil =>
    obtain ⟨first, others, hword, hname, -, -⟩ := isBlank_word hending
    rw [hword]
    rintro d ⟨⟩
    exact hname
  | cons a attributes =>
    rintro d ⟨⟩
    decide

theorem skipBlanks_attribute {a : Attribute} (h : a.Named) :
    skipBlanks ⟨' ' :: (a.write.toList ++ rest), position⟩ =
      ⟨a.write.toList ++ rest, position.next ' '⟩ := by
  obtain ⟨first, others, hwrite, -, hblank⟩ := h.write_cons
  rw [hwrite]
  have hskip : ∀ d ∈ (first :: others ++ rest).head?, isBlank d = false := by
    rintro d ⟨⟩
    exact hblank
  exact @Cursor.skip_append isBlank [' '] _ position (List.forall_mem_singleton.2 rfl) hskip

theorem attributesText_not_equals {attributes : List Attribute} {ending : TagEnd}
    (h : ∀ a ∈ attributes, a.Named) (hending : ending ≠ .missing) :
    ((attributesText attributes ++ (ending.word ++ rest)).dropWhile isBlank).head? ≠ some '=' := by
  cases attributes with
  | nil =>
    obtain ⟨first, others, hword, -, hblank, hequals⟩ := isBlank_word hending
    simp [attributesText, hword, hblank, hequals]
  | cons a attributes =>
    obtain ⟨first, others, hwrite, hstart, hblank⟩ := (h a (by simp)).write_cons
    have hspace : isBlank ' ' = true := by decide
    have hequals : first ≠ '=' := by
      rintro rfl
      exact absurd hstart (by decide)
    simp [attributesText, hwrite, hspace, hblank, hequals]

theorem tagRest_word {ending : TagEnd} (hending : ending ≠ .missing) (fuel : Nat) :
    tagRest (fuel + 1) ⟨ending.word ++ rest, position⟩ =
      ⟨[], ending, [], ⟨rest, position.after ending.word⟩⟩ := by
  cases ending with
  | selfClosed => rfl
  | closed => rfl
  | missing => exact absurd rfl hending

theorem tagRest_written {attributes : List Attribute} {ending : TagEnd}
    (h : ∀ a ∈ attributes, a.Sound) (hending : ending ≠ .missing) {fuel : Nat}
    (hfuel : attributes.length < fuel) (position : Position) :
    ∃ found stop, tagRest fuel
          (skipBlanks ⟨attributesText attributes ++ (ending.word ++ rest), position⟩) =
        ⟨found, ending, [], ⟨rest, stop⟩⟩ ∧
      found.map Attribute.bare = attributes.map Attribute.bare := by
  induction attributes generalizing fuel position with
  | nil =>
    obtain ⟨first, others, hword, -, hblank, -⟩ := isBlank_word hending
    obtain ⟨fuel, rfl⟩ : ∃ n, fuel = n + 1 := ⟨fuel - 1, by simp at hfuel; omega⟩
    have hskip : skipBlanks ⟨ending.word ++ rest, position⟩ = ⟨ending.word ++ rest, position⟩ := by
      rw [hword]
      exact skipBlanks_cons hblank
    rw [attributesText, List.flatMap_nil, List.nil_append, hskip, tagRest_word hending]
    exact ⟨[], _, rfl, rfl⟩
  | cons a attributes ih =>
    simp only [List.mem_cons, forall_eq_or_imp] at h
    obtain ⟨fuel, rfl⟩ : ∃ n, fuel = n + 1 := ⟨fuel - 1, by simp at hfuel; omega⟩
    have htext : attributesText (a :: attributes) ++ (ending.word ++ rest) =
        ' ' :: (a.write.toList ++ (attributesText attributes ++ (ending.word ++ rest))) := by
      simp [attributesText]
    have hend : ∀ d ∈ (attributesText attributes ++ (ending.word ++ rest)).head?,
        isNameChar d = false := attributesText_head hending
    obtain ⟨found, next, stop, hread, hbare, hnext⟩ := attribute?_written h.1 hend
      (attributesText_not_equals (fun a ha => (h.2 a ha).named) hending) (position.next ' ')
    obtain ⟨others, last, hothers, hbares⟩ := ih h.2 (by simpa using hfuel) stop
    rw [htext, skipBlanks_attribute h.1.named]
    obtain ⟨first, more, hwrite, hstart, -⟩ := h.1.named.write_cons
    have hslash : first ≠ '/' := by
      rintro rfl
      exact absurd hstart (by decide)
    have hclose : first ≠ '>' := by
      rintro rfl
      exact absurd hstart (by decide)
    rw [hwrite] at hread ⊢
    unfold tagRest
    rw [List.cons_append] at hread ⊢
    simp only [hread, hnext, hothers]
    refine ⟨found :: others, last, ?_, by rw [List.map_cons, hbare, hbares, List.map_cons]⟩
    simp [hslash, hclose]

/-- The tag of an element that was closed where it had to be, with a name and attributes that can be
told apart. -/
structure Tag.Sound (t : Tag) : Prop where
  name : IsName t.name.toList = true
  attributes : ∀ a ∈ t.attributes, a.Sound
  closed : t.unclosed = false

def Tag.ending (t : Tag) : TagEnd :=
  if t.selfClosing then .selfClosed else .closed

theorem Tag.ending_ne_missing (t : Tag) : t.ending ≠ .missing := by
  unfold Tag.ending
  split <;> decide

theorem length_le_attributesText {attributes : List Attribute} (h : ∀ a ∈ attributes, a.Sound) :
    2 * attributes.length ≤ (attributesText attributes).length := by
  induction attributes with
  | nil => exact Nat.le_refl 0
  | cons a attributes ih =>
    simp only [List.mem_cons, forall_eq_or_imp] at h
    obtain ⟨first, others, hwrite, -, -⟩ := h.1.named.write_cons
    have hothers := ih h.2
    simp only [attributesText, List.flatMap_cons, List.length_append, List.length_cons, hwrite]
      at hothers ⊢
    omega

theorem length_le_skipBlanks {attributes : List Attribute} (h : ∀ a ∈ attributes, a.Sound) :
    attributes.length ≤ (skipBlanks ⟨attributesText attributes ++ rest, position⟩).rest.length := by
  cases attributes with
  | nil => exact Nat.zero_le _
  | cons a attributes =>
    have htext : attributesText (a :: attributes) ++ rest =
        ' ' :: (a.write.toList ++ (attributesText attributes ++ rest)) := by simp [attributesText]
    simp only [List.mem_cons, forall_eq_or_imp] at h
    obtain ⟨first, others, hwrite, -, -⟩ := h.1.named.write_cons
    have hothers := length_le_attributesText h.2
    rw [htext, skipBlanks_attribute h.1.named]
    simp only [hwrite, List.length_append, List.length_cons]
    omega

theorem openTag?_written {html : Bool} {tag : Tag} (h : tag.Sound) (position : Position) :
    ∃ found stop, found.bare = tag.bare ∧
      openTag? html ⟨tag.writeOpening.toList ++ (tag.ending.word ++ rest), position⟩ =
        if tag.selfClosing || html && isVoid tag.name then
          some (⟨.whole (.element found []), found.span, []⟩, ⟨rest, stop⟩)
        else if html && (isScript tag.name || isStyle tag.name) then some (rawElement found ⟨rest, stop⟩)
        else some (⟨.opening found, found.span, []⟩, ⟨rest, stop⟩) := by
  have hending := tag.ending_ne_missing
  have htext : tag.writeOpening.toList ++ (tag.ending.word ++ rest) =
      '<' :: (tag.name.toList ++ (attributesText tag.attributes ++ (tag.ending.word ++ rest))) := by
    simp [toList_writeOpening]
  have hend : ∀ d ∈ (attributesText tag.attributes ++ (tag.ending.word ++ rest)).head?,
      isNameChar d = false := attributesText_head hending
  have hname : name? ((⟨'<' :: (tag.name.toList ++ (attributesText tag.attributes ++
        (tag.ending.word ++ rest))), position⟩ : Cursor).drop 1) =
      some (String.ofList tag.name.toList, ⟨attributesText tag.attributes ++
        (tag.ending.word ++ rest), (position.next '<').after tag.name.toList⟩) :=
    name?_append h.name hend
  rw [String.ofList_toList] at hname
  have hlength : tag.attributes.length < (skipBlanks ⟨attributesText tag.attributes ++
      (tag.ending.word ++ rest), (position.next '<').after tag.name.toList⟩).rest.length + 1 :=
    Nat.lt_succ_of_le (length_le_skipBlanks h.attributes)
  obtain ⟨attributes, stop, hrest, hbare⟩ := tagRest_written h.attributes hending hlength _
  have hself : (tag.ending == .selfClosed) = tag.selfClosing := by
    unfold Tag.ending
    cases tag.selfClosing <;> rfl
  refine ⟨⟨tag.name, attributes, tag.selfClosing, false, ⟨position, stop⟩⟩, stop, ?_, ?_⟩
  · simp only [Tag.bare, hbare, h.closed]
  · rw [htext, openTag?_eq hname hrest hending, hself]
    rfl

end WidgetLint.Markup
