import WidgetLint.Markup.Piece
import WidgetLint.Markup.ServerBlock

/-!
# Documents

Pieces are put together into a tree with a stack of open elements. A close tag always closes the
innermost open element; if the names differ, the element counts as unclosed. Elements opened when
the stack is full become childless, and their close tags are passed over.
-/

namespace WidgetLint.Markup

open Text

/-- How a source is to be read. -/
structure Options where
  /-- Void elements have no body, script and style bodies are raw text, and the case of tag names
  does not matter. -/
  html : Bool := true
  /-- Server blocks are blanked out first. -/
  asp : Bool := false
deriving DecidableEq, Repr

/-- A tree and what was wrong with its source. -/
structure Document where
  root : Element
  problems : List Problem

/-- The elements that are open while a tree is built, and what was wrong so far. -/
structure Builder where
  /-- The innermost open element. -/
  top : Element
  /-- The open elements around it, innermost first; the last one is the root. -/
  around : List Element
  /-- The number of elements opened beyond the depth limit and not yet closed. -/
  flattened : Nat
  problems : List Problem

namespace Builder

def empty : Builder :=
  ⟨⟨Tag.named rootName ⟨.first, .first⟩, []⟩, [], 0, []⟩

/-- The number of open elements, the root included. -/
def depth (b : Builder) : Nat :=
  b.around.length + 1

def push (b : Builder) (node : Node) : Builder :=
  { b with top := { b.top with children := b.top.children ++ [node] } }

def report (b : Builder) (fault : Fault) (position : Position) : Builder :=
  { b with problems := b.problems ++ [⟨fault, position⟩] }

def enter (b : Builder) (tag : Tag) : Builder :=
  if b.depth = maxDepth then
    let b := if b.flattened = 0 then b.report .nestedTooDeep tag.span.start else b
    { b.push (.element tag []) with flattened := b.flattened + 1 }
  else { b with top := ⟨tag, []⟩, around := b.top :: b.around }

/-- The builder after the innermost element has become a child of the one around it. -/
def leave (b : Builder) (unclosed : Bool) (stop : Position) : Builder :=
  match b.around with
  | [] => b
  | parent :: around =>
    let tag := { b.top.tag with
      unclosed := b.top.tag.unclosed || unclosed, span := ⟨b.top.tag.span.start, stop⟩ }
    { b with top := parent, around := around }.push (.element tag b.top.children)

/-- Whether the names of an open and a close tag belong together. -/
def namesMatch (html : Bool) (openName closeName : String) : Bool :=
  if html then sameIgnoringCase openName closeName else openName == closeName

def close (html : Bool) (b : Builder) (name : String) (span : Span) : Builder :=
  if 0 < b.flattened then { b with flattened := b.flattened - 1 }
  else if b.around.isEmpty then b.report (.unexpectedClose name span.start) span.start
  else
    let tag := b.top.tag
    if namesMatch html tag.name name then b.leave false span.stop
    else
      (b.report (.misplacedClose name span.start tag.name tag.span.start) span.start).leave true
        span.stop

def step (html : Bool) (b : Builder) (piece : Piece) : Builder :=
  let b := { b with problems := b.problems ++ piece.problems }
  match piece.kind with
  | .opening tag => b.enter tag
  | .closing name => b.close html name piece.span
  | .whole node => b.push node

/-- The root after every element around the top has been closed at the end of the source. -/
def closeAll (stop : Position) (top : Element) : List Element → Element
  | [] => { top with tag := { top.tag with span := ⟨top.tag.span.start, stop⟩ } }
  | parent :: around =>
    let tag := { top.tag with unclosed := true, span := ⟨top.tag.span.start, stop⟩ }
    closeAll stop { parent with children := parent.children ++ [.element tag top.children] } around

/-- The document when the source ends at `stop`. -/
def finish (b : Builder) (stop : Position) : Document :=
  ⟨closeAll stop b.top b.around, b.problems⟩

end Builder

/-- The text of which the tree is read. -/
def Options.prepare (options : Options) (source : String) : String :=
  if options.asp then blankServerBlocks source else source

/-- The document that a source spells. Reading never fails. -/
def parse (options : Options) (source : String) : Document :=
  let text := options.prepare source
  let built := (pieces options.html text).foldl (Builder.step options.html) .empty
  built.finish (Position.first.after text.toList)

end WidgetLint.Markup
