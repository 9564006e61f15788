import WidgetLint.Text.Position

/-!
# Cursors

A cursor is what is left of a text together with the position where the rest begins. Moving a
cursor keeps the two in step.
-/

namespace WidgetLint.Text

/-- The rest of a text and the position where it begins. -/
structure Cursor where
  rest : List Char
  position : Position
deriving Repr

namespace Cursor

def ofString (text : String) : Cursor :=
  ⟨text.toList, .first⟩

/-- The cursor after `n` more characters, or at the end of the text. -/
def drop (c : Cursor) (n : Nat) : Cursor :=
  ⟨c.rest.drop n, c.position.after (c.rest.take n)⟩

/-- The longest run of characters that satisfy `p`. -/
def run (c : Cursor) (p : Char → Bool) : List Char :=
  c.rest.takeWhile p

/-- The cursor after the longest run of characters that satisfy `p`. -/
def skip (c : Cursor) (p : Char → Bool) : Cursor :=
  ⟨c.rest.dropWhile p, c.position.after (c.run p)⟩

/-- Whether the rest of the text begins with `word`. -/
def startsWith (c : Cursor) (word : List Char) : Bool :=
  word.isPrefixOf c.rest

/-- The stretch of text from one cursor to a later one. -/
def spanTo (c d : Cursor) : Span :=
  ⟨c.position, d.position⟩

end Cursor

end WidgetLint.Text
