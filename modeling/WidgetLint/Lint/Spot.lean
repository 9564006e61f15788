import WidgetLint.Lint.Settings
import WidgetLint.Markup.Document
import WidgetLint.Text.Slice

/-!
# Places of interest in a page

An element whose role attribute names a component is configured by its other attributes. The body
of a script element is a script, or a template that is markup again; other script elements are
elements like any other.
-/

namespace WidgetLint.Lint

open Text Markup

/-- How the body of a script element is read. -/
inductive Embedded where
  | script
  | template
deriving DecidableEq, Repr

/-- How the body of a script element is read, if it is. A script with a type that is loaded from
elsewhere is not. -/
def embedded? (script : Element) : Option Embedded :=
  match script.attribute? "type" with
  | none => some .script
  | some a =>
    let type := foldAscii ((a.value.elim "" (·.text)).toList)
    if occursIn "javascript".toList type && (script.attribute? "src").isNone then some .script
    else if occursIn "template".toList type then some .template
    else none

/-- A place of a page where a component or an embedded text is found. -/
inductive Spot where
  | role (element : Element) (role : Attribute)
  | embedded (kind : Embedded) (body : String) (span : Span)

/-- What an element's own tag says: its body is an embedded text, or it may have a role and
elements inside. -/
inductive Reading where
  | embedded (spots : List Spot)
  | plain (spots : List Spot)

/-- The reading of an element by its tag. -/
def readElement (s : Settings) (e : Element) : Reading :=
  match if isScript e.tag.name then embedded? e else none with
  | some kind => .embedded (e.rawBody?.map fun (body, span) => .embedded kind body span).toList
  | none => .plain ((e.attribute? s.roleAttribute).map (.role e ·)).toList

mutual

/-- The places of interest in a node, in document order. Elements that `skips` says to pass over
have none. -/
def spotsIn (s : Settings) (skips : String → Bool) : Node → List Spot
  | .leaf .. => []
  | .element tag children =>
    if skips tag.name then []
    else match readElement s ⟨tag, children⟩ with
      | .embedded spots => spots
      | .plain spots => spots ++ spotsInAll s skips children

def spotsInAll (s : Settings) (skips : String → Bool) : List Node → List Spot
  | [] => []
  | node :: rest => spotsIn s skips node ++ spotsInAll s skips rest

end

def readPage (s : Settings) (text : String) : Document :=
  Markup.parse { html := true, asp := s.asp } text

/-- How deep templates may nest in templates. -/
def maxTemplateDepth : Nat := 4

end WidgetLint.Lint
