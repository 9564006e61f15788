import WidgetLint.Markup.Node

/-!
# Markup as text

A tree is written as it was read: text, comments and raw bodies stay as they were, and an
attribute keeps its quotes unless its value contains them.
-/

namespace WidgetLint.Markup

/-- The quote character written around an attribute value. -/
def AttributeValue.writtenQuote (v : AttributeValue) : Char :=
  let fallback := if v.text.toList.contains '"' then '\'' else '"'
  match v.quote with
  | some q => if v.text.toList.contains q then fallback else q
  | none => fallback

def Attribute.write (a : Attribute) : String :=
  match a.value with
  | some v =>
    let quote := String.singleton v.writtenQuote
    a.name ++ "=" ++ quote ++ v.text ++ quote
  | none => a.name

def Leaf.write : Leaf → String
  | text value => value
  | comment value => "<!--" ++ value ++ "-->"
  | cdata value => "<![CDATA[" ++ value ++ "]]>"
  | declaration value => "<!" ++ value ++ ">"
  | charRef raw _ => "&#" ++ raw ++ ";"
  | entityRef name => "&" ++ name ++ ";"
  | script body => body
  | style body => body

/-- The open tag of an element without its closing angle bracket. -/
def Tag.writeOpening (t : Tag) : String :=
  "<" ++ t.name ++ String.join (t.attributes.map fun a => " " ++ a.write)

/-- An element as text, given its children as text. -/
def Tag.write (t : Tag) (childless : Bool) (inner : String) : String :=
  if t.selfClosing then t.writeOpening ++ "/>"
  else if isVoid t.name && childless then t.writeOpening ++ ">"
  else t.writeOpening ++ ">" ++ inner ++ (if t.unclosed then "" else "</" ++ t.name ++ ">")

mutual

def Node.write : Node → String
  | .element tag children => tag.write children.isEmpty (writeAll children)
  | .leaf content _ => content.write

def writeAll : List Node → String
  | [] => ""
  | node :: rest => node.write ++ writeAll rest

end

/-- An element as text; of the whole document only the contents are written. -/
def Element.write (e : Element) : String :=
  if e.tag.name = rootName then writeAll e.children else e.toNode.write

end WidgetLint.Markup
