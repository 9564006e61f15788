import WidgetLint.Markup.Piece

/-!
# Which reader finds a piece

A piece is found by one of six readers, told apart by the characters at the cursor (`PieceAt`). What
is true of everything that these readers find is true of every piece.
-/

namespace WidgetLint.Markup

open Text

variable {html : Bool} {c next : Cursor} {piece : Piece} {found : Piece × Cursor}

/-- The reader that found a piece, and the characters at which it was chosen. -/
inductive PieceAt (html : Bool) (c : Cursor) (found : Piece × Cursor) : Prop
  | closeTag : c.startsWith ['<', '/'] = true → closeTag? c = some found → PieceAt html c found
  | comment : c.startsWith ['<', '!', '-', '-'] = true →
      delimited .comment 4 ['-', '-', '>'] .unterminatedComment c = found → PieceAt html c found
  | cdata : c.startsWith ['<', '!', '[', 'C', 'D', 'A', 'T', 'A', '['] = true →
      delimited .cdata 9 [']', ']', '>'] .unterminatedCData c = found → PieceAt html c found
  | declaration : c.startsWith ['<', '!'] = true → ¬c.startsWith ['<', '!', '-', '-'] = true →
      ¬c.startsWith ['<', '!', '[', 'C', 'D', 'A', 'T', 'A', '['] = true →
      delimited .declaration 2 ['>'] .unterminatedDeclaration c = found → PieceAt html c found
  | openTag : c.startsWith ['<'] = true → openTag? html c = some found → PieceAt html c found
  | reference : c.startsWith ['&'] = true → reference? c = some found → PieceAt html c found

theorem piece?_at (h : piece? html c = some found) : PieceAt html c found := by
  unfold piece? at h
  split at h
  · rename_i hopening
    exact .closeTag hopening h
  split at h
  · rename_i hopening
    exact .comment hopening (Option.some.inj h)
  rename_i hcomment
  split at h
  · rename_i hopening
    exact .cdata hopening (Option.some.inj h)
  rename_i hcdata
  split at h
  · rename_i hopening
    exact .declaration hopening hcomment hcdata (Option.some.inj h)
  split at h
  · rename_i hopening
    exact .openTag hopening h
  split at h
  · rename_i hopening
    exact .reference hopening h
  · cases h

/-- A reference that is read is a leaf, numeric if a number sign follows the ampersand. -/
theorem reference?_cases (h : reference? c = some (piece, next)) :
    ∃ content, piece = ⟨.whole (.leaf content (c.spanTo next)), c.spanTo next, []⟩ ∧
      (c.startsWith ['&', '#'] = true ∧ charRef? c = some (content, next) ∨
        entityRef? c = some (content, next)) := by
  simp only [reference?, Option.map_eq_some_iff] at h
  obtain ⟨⟨content, stop⟩, hcontent, hpiece⟩ := h
  cases hpiece
  refine ⟨content, rfl, ?_⟩
  split at hcontent
  · rename_i hnumeric
    exact .inl ⟨hnumeric, hcontent⟩
  · exact .inr hcontent

end WidgetLint.Markup
