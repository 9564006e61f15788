import WidgetLint.Proofs.Markup.RoundTrip

/-!
# Writing an xml tree and reading it again

In xml a void name is a name like any other, but the writer does not know how the tree was read: it
leaves out the close tag of an element without children whose name is void, and such an element is
read back as one that is never closed (`hollow_not_read_back`). **These elements are all that is
lost** (`parse_write_xml`): an xml source without problems none of whose elements are hollow is
written as a source with the same tree.
-/

namespace WidgetLint.Markup

/-- **A written xml tree is read back if all its close tags are written.** An xml source that is read
without problems, none of whose unquoted attribute values contains both kinds of quotes and none of
whose elements is closed, childless and of a void name, is written as a source that is read without
problems and has the same tree, up to places and quotes. -/
theorem parse_write_xml (source : String) (hclean : (parse { html := false } source).problems = [])
    (hquotable : ∀ a ∈ attributesAll (parse { html := false } source).root.children,
      ∀ v ∈ a.value, v.Quotable)
    (hhollow : hollowAll (parse { html := false } source).root.children = []) :
    (parse { html := false } (parse { html := false } source).root.write).problems = [] ∧
      (parse { html := false } (parse { html := false } source).root.write).root.bare =
        (parse { html := false } source).root.bare :=
  parse_write_of_written hclean hquotable (.inr hhollow)

/-- Void names with children, with a slash and never closed, a script with elements in it, and a
bare value. -/
theorem parse_write_xml_voidNames :
    let source := "<br>x</br><hr/><Script src=a\"b><p/></Script ><img>"
    let written := "<br>x</br><hr/><Script src='a\"b'><p/></Script><img>"
    (parse { html := false } source).root.write = written ∧
      (parse { html := false } written).problems = [] ∧
      (parse { html := false } written).root.bare =
        (parse { html := false } source).root.bare := by
  intro source written
  have hwritten : (parse { html := false } source).root.write = written := by decide +kernel
  refine ⟨hwritten, ?_⟩
  rw [← hwritten]
  exact parse_write_xml source (by decide +kernel) (by decide +kernel) (by decide +kernel)

/-- An element of a void name that is closed right away is read back as one that is never closed. -/
theorem hollow_not_read_back :
    let source := "<br></br>"
    (parse { html := false } source).problems = [] ∧
      (∀ a ∈ attributesAll (parse { html := false } source).root.children,
        ∀ v ∈ a.value, v.Quotable) ∧
      (parse { html := false } source).root.write = "<br>" ∧
      (parse { html := false } (parse { html := false } source).root.write).root.bare ≠
        (parse { html := false } source).root.bare := by
  intro source
  have hwritten : (parse { html := false } source).root.write = "<br>" := by decide +kernel
  refine ⟨by decide +kernel, by decide +kernel, hwritten, ?_⟩
  rw [hwritten]
  intro hbare
  have hunclosed := congrArg (fun e => e.elements.map (·.tag.unclosed)) hbare
  revert hunclosed
  decide +kernel

end WidgetLint.Markup
