/-!
# Server blocks

A server block `<% ... %>` on one line is blanked out before a page is read. It becomes a comment
of the same length without characters that mean something in markup, so that every position of the
page stays what it was.
-/

namespace WidgetLint.Markup

/-- Whether a block that was just opened is closed on the same line. -/
def blockCloses : List Char → Bool
  | [] => false
  | '\n' :: _ => false
  | '%' :: '>' :: _ => true
  | _ :: rest => blockCloses rest

/-- The character that stands for `c` inside a blanked block. -/
def blankChar (c : Char) : Char :=
  if c == '<' || c == '&' || c == '>' || c == '\'' || c == '"' then ' ' else c

/-- The text with its server blocks blanked out; `inside` says that it starts in a block. -/
def blankFrom : (inside : Bool) → List Char → List Char
  | _, [] => []
  | false, '<' :: '%' :: rest =>
    if blockCloses rest then '/' :: '*' :: blankFrom true rest
    else '<' :: '%' :: blankFrom false rest
  | false, c :: rest => c :: blankFrom false rest
  | true, '%' :: '>' :: rest => '*' :: '/' :: blankFrom false rest
  | true, c :: rest => blankChar c :: blankFrom true rest

/-- The text with its server blocks blanked out. -/
def blankServerBlocks (text : String) : String :=
  String.ofList (blankFrom false text.toList)

end WidgetLint.Markup
