import WidgetLint.Text.CodeRange
import WidgetLint.Text.Cursor

/-!
# Names and blanks of markup

Names follow the rules of XML, without the planes above the basic one. The blanks between the
parts of a tag are a fixed list of characters.
-/

namespace WidgetLint.Markup

open Text

/-- The characters that separate the parts of a tag. -/
def blanks : List Char :=
  [' ', '\u00a0', '\n', '\r', '\t', '\u000c', '\u000b', '\u200b', '\u180e', '\u2000', '\u2001',
   '\u2002', '\u2003', '\u2004', '\u2005', '\u2006', '\u2007', '\u2008', '\u2009', '\u200a',
   '\u202f', '\u205f', '\u3000']

def isBlank (c : Char) : Bool :=
  blanks.contains c

/-- The characters that may begin a name. -/
def nameStartRanges : List CodeRange :=
  [(0x3a, 0x3a), (0x41, 0x5a), (0x5f, 0x5f), (0x61, 0x7a), (0xc0, 0xd6), (0xd8, 0xf6),
   (0xf8, 0x2ff), (0x370, 0x37d), (0x37f, 0x1fff), (0x200c, 0x200d), (0x2070, 0x218f),
   (0x2c00, 0x2fef), (0x3001, 0xd7ff), (0xf900, 0xfdcf), (0xfdf0, 0xfffd)]

/-- The further characters that may continue a name. -/
def nameRestRanges : List CodeRange :=
  [(0x2d, 0x2e), (0x30, 0x39), (0xb7, 0xb7), (0x300, 0x36f), (0x203f, 0x2040)]

def isNameStart (c : Char) : Bool :=
  inRanges nameStartRanges c

def isNameChar (c : Char) : Bool :=
  isNameStart c || inRanges nameRestRanges c

/-- The longest name at a cursor, with the cursor after it. -/
def name? (c : Cursor) : Option (String × Cursor) :=
  match c.rest with
  | first :: _ =>
    if isNameStart first then some (String.ofList (c.run isNameChar), c.skip isNameChar) else none
  | [] => none

/-- The cursor after any blanks. -/
def skipBlanks (c : Cursor) : Cursor :=
  c.skip isBlank

end WidgetLint.Markup
