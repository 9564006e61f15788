/-!
# Positions in a text

A position counts lines and columns from one and bytes from zero. A region of a text has positions
of its own, counted from its first character; `translate` turns them into positions of the
enclosing text.
-/

namespace WidgetLint.Text

/-- A place in a text: line and column count characters from one, the offset counts bytes. -/
structure Position where
  line : Nat
  column : Nat
  offset : Nat
deriving DecidableEq, Repr, Inhabited

/-- A stretch of a text, from its first place up to the place after it. -/
structure Span where
  start : Position
  stop : Position
deriving DecidableEq, Repr, Inhabited

namespace Position

/-- The place of the first character of any text. -/
def first : Position := ⟨1, 1, 0⟩

/-- The place after a character; only a newline starts a line. -/
def next (p : Position) (c : Char) : Position :=
  if c = '\n' then ⟨p.line + 1, 1, p.offset + c.utf8Size⟩
  else ⟨p.line, p.column + 1, p.offset + c.utf8Size⟩

/-- The place after a run of characters. -/
def after (p : Position) (cs : List Char) : Position :=
  cs.foldl next p

/-- A place of a region as a place of the enclosing text, where the region starts at `origin`.
Only the first line of the region is moved sideways. -/
def translate (p origin : Position) : Position :=
  if p.line = 1 then ⟨origin.line, p.column + origin.column - 1, p.offset + origin.offset⟩
  else ⟨p.line + origin.line - 1, p.column, p.offset + origin.offset⟩

def render (p : Position) : String :=
  toString p.line ++ ":" ++ toString p.column

@[simp] theorem after_nil (p : Position) : p.after [] = p := rfl

@[simp] theorem after_cons (p : Position) (c : Char) (cs : List Char) :
    p.after (c :: cs) = (p.next c).after cs := rfl

theorem after_append (p : Position) (cs ds : List Char) :
    p.after (cs ++ ds) = (p.after cs).after ds := by
  simp [after, List.foldl_append]

end Position

/-- The span of what has no place. -/
def nowhere : Span := ⟨.first, .first⟩

/-- The number of bytes of a stretch of text. -/
def Span.length (s : Span) : Nat :=
  s.stop.offset - s.start.offset

/-- A stretch of a region as a stretch of the enclosing text. -/
def Span.translate (s : Span) (origin : Position) : Span :=
  ⟨s.start.translate origin, s.stop.translate origin⟩

end WidgetLint.Text
