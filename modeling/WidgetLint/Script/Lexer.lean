import WidgetLint.Text.Cursor
import WidgetLint.Script.Lexeme

/-!
# Cutting scripts into tokens

A lexer is the state between two tokens. Reading a token that is not there leaves the lexer where
the fault was found, so that one can go on from there.
-/

namespace WidgetLint.Script

open Text

/-- The state between two tokens. -/
structure Lexer where
  cursor : Cursor
  /-- A line ended since the last token. -/
  newlineBefore : Bool
  /-- Nothing but gaps since the last end of a line. -/
  lineStart : Bool
  /-- A slash would begin a regular expression. -/
  regexAllowed : Bool
  /-- The number of templates that were left open by faults. -/
  templateDepth : Nat
deriving Repr

namespace Lexer

/-- The lexer before a text that starts at `origin`. -/
def start (text : String) (origin : Position) : Lexer :=
  ⟨⟨text.toList, origin⟩, false, true, true, 0⟩

/-- The lexer after a gap of the given kind. -/
def afterGap (l : Lexer) (gap : Gap) (size : Nat) : Lexer :=
  { l with
    cursor := l.cursor.drop size, newlineBefore := gap.newline, lineStart := gap.lineStart }

/-- The error at a place counted in characters from the cursor. -/
def errorAt (l : Lexer) (cause : Cause) (place : Nat) : ScriptError :=
  ⟨cause, (l.cursor.drop place).position⟩

/-- Reads the token at a cursor that stands before no gap. -/
def readToken (l : Lexer) : Except ScriptError Token × Lexer :=
  match scanToken l.regexAllowed l.templateDepth l.cursor.rest with
  | (.ok body size, depth) =>
    let next := l.cursor.drop size
    let lexeme := String.ofList (l.cursor.rest.take size)
    (.ok ⟨body, lexeme, l.cursor.spanTo next, l.newlineBefore⟩,
      ⟨next, false, false, regexAllowedAfter body lexeme, depth⟩)
  | (.fail cause place size, depth) =>
    (.error (l.errorAt cause place),
      { l with cursor := l.cursor.drop size, templateDepth := depth })

def next (l : Lexer) : Except ScriptError Token × Lexer :=
  let gap := gapFrom .blank l.newlineBefore l.lineStart 0 l.cursor.rest
  match gap.outcome with
  | .ok _ size => (l.afterGap gap size).readToken
  | .fail cause place size => (.error (l.errorAt cause place), l.afterGap gap size)

/-- The findings of the next `n` steps; a fault does not stop them. -/
def steps : Nat → Lexer → List (Except ScriptError Token)
  | 0, _ => []
  | n + 1, l =>
    let (found, l) := l.next
    found :: steps n l

/-- All tokens from here on, in at most `fuel` steps. -/
def tokensFrom : (fuel : Nat) → Lexer → Except ScriptError Tokens
  | 0, l => .error (l.errorAt .unexpectedEnd 0)
  | fuel + 1, l =>
    match l.next with
    | (.error e, _) => .error e
    | (.ok token, l) =>
      if token.body = .eof then .ok ⟨[], token⟩
      else match tokensFrom fuel l with
        | .ok tokens => .ok { tokens with items := token :: tokens.items }
        | .error e => .error e

end Lexer

/-- The tokens of a text that starts at `origin`. Every token but the last takes a character, so
there are no more tokens than characters and one. -/
def tokenize (text : String) (origin : Position) : Except ScriptError Tokens :=
  (Lexer.start text origin).tokensFrom (text.length + 1)

end WidgetLint.Script
