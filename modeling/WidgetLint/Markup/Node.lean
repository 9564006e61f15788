import WidgetLint.Text.Position
import WidgetLint.Text.AsciiCase

/-!
# Markup trees

A document is a tree of elements whose leaves are text, comments, references and the raw bodies of
scripts and styles. Every node knows the stretch of source text it was read from.
-/

namespace WidgetLint.Markup

open Text

/-- The value of an attribute: its text, the quotes around it, and where the text stands. -/
structure AttributeValue where
  text : String
  quote : Option Char
  span : Span
deriving DecidableEq, Repr

/-- An attribute, with or without a value. -/
structure Attribute where
  name : String
  nameSpan : Span
  value : Option AttributeValue
deriving DecidableEq, Repr

/-- What an element says about itself, apart from its children. -/
structure Tag where
  name : String
  attributes : List Attribute
  /-- Written with a slash before the closing angle bracket. -/
  selfClosing : Bool
  /-- No matching close tag was found. -/
  unclosed : Bool
  span : Span
deriving DecidableEq, Repr

/-- A node without children. -/
inductive Leaf where
  | text (value : String)
  | comment (value : String)
  | cdata (value : String)
  /-- A document type or another declaration, without its delimiters. -/
  | declaration (value : String)
  /-- A numeric character reference: what stands between its delimiters, and the code point. -/
  | charRef (raw : String) (code : Nat)
  | entityRef (name : String)
  /-- The body of a script element. -/
  | script (body : String)
  /-- The body of a style element. -/
  | style (body : String)
deriving DecidableEq, Repr

inductive Node where
  | element (tag : Tag) (children : List Node)
  | leaf (content : Leaf) (span : Span)

/-- An element: its tag and its children. -/
structure Element where
  tag : Tag
  children : List Node

/-- The name of the element that holds the whole document; no tag can spell it. -/
def rootName : String := "#document"

/-- An open tag without attributes that is not yet closed. -/
def Tag.named (name : String) (span : Span) : Tag :=
  ⟨name, [], false, false, span⟩

def Element.toNode (e : Element) : Node :=
  .element e.tag e.children

def Node.element? : Node → Option Element
  | element tag children => some ⟨tag, children⟩
  | leaf .. => none

def Node.span : Node → Span
  | element tag _ => tag.span
  | leaf _ span => span

namespace Element

/-- The first attribute with exactly this name. -/
def attribute? (e : Element) (name : String) : Option Attribute :=
  e.tag.attributes.find? (·.name == name)

def elements (e : Element) : List Element :=
  e.children.filterMap Node.element?

/-- The raw body of a script or style element, with its place. -/
def rawBody? (e : Element) : Option (String × Span) :=
  e.children.findSome? fun
    | .leaf (.script body) span => some (body, span)
    | .leaf (.style body) span => some (body, span)
    | _ => none

/-- The element reached by following a path of indices among child elements. -/
def descend? (e : Element) : List Nat → Option Element
  | [] => some e
  | i :: path => (e.elements[i]?).bind (·.descend? path)

end Element

/-- The elements that never have content. -/
def voidElements : List String :=
  ["area", "base", "br", "col", "command", "embed", "hr", "img", "input", "keygen", "link",
   "meta", "param", "source", "track", "wbr"]

def isVoid (name : String) : Bool :=
  voidElements.any (sameIgnoringCase name)

def isScript (name : String) : Bool :=
  sameIgnoringCase name "script"

def isStyle (name : String) : Bool :=
  sameIgnoringCase name "style"

end WidgetLint.Markup
