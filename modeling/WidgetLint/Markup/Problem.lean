import WidgetLint.Text.Position

/-!
# Problems in markup

What can be wrong with a document. Reading goes on after every problem.
-/

namespace WidgetLint.Markup

open Text

/-- The greatest number of elements that are open at once, the root included. -/
def maxDepth : Nat := 256

/-- What is wrong at a place of a document. -/
inductive Fault where
  | unterminatedTag (name : String)
  | nestedTooDeep
  | misplacedClose (name : String) (place : Position) (openName : String) (openPlace : Position)
  | unexpectedClose (name : String) (place : Position)
  | strayInClose (char : Char)
  | missingClose (name : String)
  | angleInValue
  | unterminatedValue
  | unterminatedComment
  | unterminatedCData
  | unterminatedDeclaration
deriving DecidableEq, Repr

def Fault.message : Fault → String
  | unterminatedTag name => "Unterminated open tag <" ++ name ++ ">"
  | nestedTooDeep => "Elements nested deeper than " ++ toString (maxDepth - 1) ++ " levels"
  | misplacedClose name place openName openPlace =>
    "Misplaced close tag </" ++ name ++ ">[" ++ place.render ++ "] (should be </" ++ openName ++
      "> for <" ++ openName ++ ">[" ++ openPlace.render ++ "])"
  | unexpectedClose name place =>
    "Unexpected close tag </" ++ name ++ ">[" ++ place.render ++ "] with no open element"
  | strayInClose char => "Unexpected character in close tag: " ++ String.singleton char
  | missingClose name => "Missing close tag for <" ++ name ++ ">"
  | angleInValue => "Misplaced < character in string"
  | unterminatedValue => "Unterminated attribute value"
  | unterminatedComment => "Unterminated comment"
  | unterminatedCData => "Unterminated CDATA section"
  | unterminatedDeclaration => "Unterminated declaration"

/-- A fault and its place. -/
structure Problem where
  fault : Fault
  position : Position
deriving DecidableEq, Repr

def Problem.message (p : Problem) : String :=
  p.fault.message

/-- A problem as one line of text. -/
def Problem.render (p : Problem) : String :=
  p.message ++ " at " ++ p.position.render

end WidgetLint.Markup
