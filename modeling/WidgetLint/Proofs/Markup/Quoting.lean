import WidgetLint.Proofs.Markup.Gathering

/-!
# Quotes around written values

An attribute is written with its own quotes, or else with quotes that its value does not contain.
A value that stood without quotes may contain both kinds of them; it is written all the same, and
then it is cut short when it is read again. **These values are the only ones that are not read back**
(`write_read_iff`).
-/

namespace WidgetLint.Markup

open Text

variable {html : Bool} {c next : Cursor} {piece : Piece} {a : Attribute}

/-! ## Attributes of pieces -/

theorem openTag?_attributes (h : openTag? html c = some (piece, next)) :
    ∃ fuel start, piece.kind.attributes = (tagRest fuel (skipBlanks start)).attributes := by
  unfold openTag? at h
  split at h
  · cases h
  · rename_i name afterName hname
    simp only at h
    refine ⟨(skipBlanks afterName).rest.length + 1, afterName, ?_⟩
    split at h
    · cases h
      simp [PieceKind.attributes, Node.attributes, attributesAll]
    · split at h
      · cases h
        exact rawElement_attributes _ _
      · cases h
        rfl

theorem piece?_attribute (h : piece? html c = some (piece, next))
    (ha : a ∈ piece.kind.attributes) : openTag? html c = some (piece, next) := by
  have hleaf (content : Leaf) (span : Span) :
      (PieceKind.whole (.leaf content span)).attributes = [] := rfl
  cases piece?_at h with
  | closeTag _ hread =>
    unfold closeTag? at hread
    split at hread
    · cases hread
    · cases hread
      cases ha
  | comment _ hread | cdata _ hread | declaration _ _ _ hread =>
    cases hread
    cases ha
  | openTag _ hread => exact hread
  | reference _ hread =>
    obtain ⟨content, rfl, -⟩ := reference?_cases hread
    cases ha

/-- The attributes of a tree have names, and those of their values that stood in quotes do not
contain them. -/
theorem parse_attribute_read {options : Options} {source : String}
    (ha : a ∈ attributesAll (parse options source).root.children) :
    a.Named ∧ ∀ v ∈ a.value, v.Read := by
  rw [parse_attributes] at ha
  obtain ⟨piece, hpiece, ha⟩ := List.mem_flatMap.1 ha
  rcases mem_pieces hpiece with ⟨start, run, stop, htext⟩ | ⟨d, next, -, hread⟩
  · unfold textPiece at htext
    split at htext
    · cases htext
    · obtain rfl := List.mem_singleton.1 htext
      cases ha
  · obtain ⟨fuel, start, hattributes⟩ := openTag?_attributes (piece?_attribute hread ha)
    rw [hattributes] at ha
    exact tagRest_read fuel (skipBlanks_head start) ha

/-! ## Reading written attributes again -/

section
variable {rest : List Char} {position : Position}

theorem quotedValue_text_iff {quote : Char} {text : String} :
    (quotedValue quote ⟨text.toList ++ quote :: rest, position⟩).1.text = text ↔
      quote ∉ text.toList := by
  constructor
  · intro h hmem
    rw [← h, quotedValue, String.toList_ofList] at hmem
    have hne := List.mem_takeWhile_imp hmem
    simp at hne
  · intro h
    rw [quotedValue_append h, String.ofList_toList]

end

/-- **Which written values are read back.** Take any attribute of a tree and write it in an open tag,
before other attributes of the tree and the end of the tag. The quotes around its value stand nowhere
in the value unless it stood without quotes and holds both kinds of them. Its name is read back, and
so is its value, or that it has none, with this one exception. -/
theorem write_read_iff (options : Options) (source : String)
    (ha : a ∈ attributesAll (parse options source).root.children) :
    (∀ v ∈ a.value, v.writtenQuote ∉ v.text.toList ↔ v.Quotable) ∧
      ∀ after ⊆ attributesAll (parse options source).root.children,
        ∀ ending ≠ TagEnd.missing, ∀ rest position,
          let behind := attributesText after ++ (ending.word ++ rest)
          ∃ found next problems,
            attribute? ⟨a.write.toList ++ behind, position⟩ = some (found, next, problems) ∧
              found.name = a.name ∧
              (found.value.map (·.text) = a.value.map (·.text) ↔ ∀ v ∈ a.value, v.Quotable) ∧
              ((∀ v ∈ a.value, v.Quotable) →
                ∃ stop, skipBlanks next = skipBlanks ⟨behind, stop⟩) := by
  obtain ⟨hnamed, hread⟩ := parse_attribute_read ha
  refine ⟨fun v hv => (hread v hv).writtenQuote_not_mem_iff, ?_⟩
  intro after hafter ending hending rest position behind
  have hothers : ∀ b ∈ after, b.Named := fun b hb => (parse_attribute_read (hafter hb)).1
  cases hvalue : a.value with
  | none =>
    refine ⟨_, _, _, attribute?_write_none hnamed hvalue (attributesText_head hending)
      (attributesText_not_equals hothers hending) position, rfl, ?_,
      fun _ => ⟨position.after a.name.toList, ?_⟩⟩
    · exact iff_of_true rfl nofun
    · exact skipBlanks_of_head (skipBlanks_head _)
  | some v =>
    have hv := hread v hvalue
    obtain ⟨nameSpan, start, hfound⟩ :=
      @attribute?_write_some behind a v hnamed hvalue hv.writtenQuote_quotes position
    have hquotable : (∀ w ∈ some v, w.Quotable) ↔ v.writtenQuote ∉ v.text.toList := by
      rw [hv.writtenQuote_not_mem_iff]
      exact ⟨fun h => h v rfl, fun h w hw => Option.some.inj hw ▸ h⟩
    refine ⟨_, _, _, hfound, rfl, ?_, fun h => ⟨(start.after v.text.toList).next v.writtenQuote, ?_⟩⟩
    · rw [hquotable, Option.map_some, Option.map_some, Option.some.injEq, quotedValue_text_iff]
    · exact congrArg (fun r => skipBlanks r.2.1) (quotedValue_append (hquotable.1 h))

/-- A value with one kind of quotes, before an attribute without a value. -/
theorem write_read_iff_checkbox :
    let source := "<input value=it's checked>"
    let value : Attribute := ⟨"value", ⟨⟨1, 8, 7⟩, ⟨1, 13, 12⟩⟩,
      some ⟨"it's", none, ⟨⟨1, 14, 13⟩, ⟨1, 18, 17⟩⟩⟩⟩
    let checked : Attribute := ⟨"checked", ⟨⟨1, 19, 18⟩, ⟨1, 26, 25⟩⟩, none⟩
    attributesAll (parse {} source).root.children = [value, checked] ∧
      ∃ found next problems,
        attribute? ⟨"value=\"it's\" checked/>".toList, .first⟩ = some (found, next, problems) ∧
          found.name = "value" ∧ found.value.map (·.text) = some "it's" := by
  intro source value checked
  have hattributes : attributesAll (parse {} source).root.children = [value, checked] := by
    decide +kernel
  refine ⟨hattributes, ?_⟩
  have hwritten : value.write.toList ++ (attributesText [checked] ++ (TagEnd.selfClosed.word ++ [])) =
      "value=\"it's\" checked/>".toList := by
    decide
  obtain ⟨-, hread⟩ := @write_read_iff value {} source (by rw [hattributes]; decide)
  obtain ⟨found, next, problems, hfound, hname, hvalue, -⟩ :=
    hread [checked] (by rw [hattributes]; decide) .selfClosed (by decide) [] .first
  exact ⟨found, next, problems, hwritten ▸ hfound, hname, hvalue.2 (by decide)⟩

/-- A value that stood without quotes and holds both kinds of them is written in quotes that it
contains, and it is read back as what stands before the first of these. -/
theorem bareValue_not_read_back :
    let source := "<a b=x\"y'z></a>"
    ∃ a v, attributesAll (parse {} source).root.children = [a] ∧ a.value = some v ∧
      v.text = "x\"y'z" ∧ v.writtenQuote = '\'' ∧ v.writtenQuote ∈ v.text.toList ∧
      (attribute? ⟨(a.write ++ ">").toList, .first⟩).map (fun r => r.1.value.map (·.text)) =
        some (some "x\"y") := by
  intro source
  refine ⟨⟨"b", ⟨⟨1, 4, 3⟩, ⟨1, 5, 4⟩⟩, some ⟨"x\"y'z", none, ⟨⟨1, 6, 5⟩, ⟨1, 11, 10⟩⟩⟩⟩, _, ?_, rfl,
    rfl, ?_⟩
  · decide +kernel
  · decide +kernel

end WidgetLint.Markup
