import WidgetLint.Number.Binary64
import WidgetLint.Text.Position
import WidgetLint.Script.Symbol

/-!
# Tokens of scripts

A token carries the value of its spelling, the spelling itself and its place. Keywords are words;
only the three literal words have kinds of their own. A template literal is one token.
-/

namespace WidgetLint.Script

open Text Number

/-- What a token is and the value it carries. -/
inductive TokenBody where
  | number (value : Binary64)
  | string (value : String)
  /-- A template literal, as the raw text between its backticks. -/
  | template (raw : String)
  | regex (pattern flags : String)
  | boolean (value : Bool)
  | null
  | word (name : String)
  | symbol (symbol : Symbol)
  | eof
deriving DecidableEq, Repr

/-- The member's name that a token may stand for: any word, the literal ones included. -/
def TokenBody.memberName? : TokenBody → Option String
  | word name => some name
  | boolean value => some (if value then "true" else "false")
  | null => some "null"
  | _ => none

structure Token where
  body : TokenBody
  lexeme : String
  span : Span
  /-- A line ends between this token and the one before it. -/
  newlineBefore : Bool
deriving DecidableEq, Repr

/-- All tokens of a text; the last one stands for its end. -/
structure Tokens where
  items : List Token
  last : Token
deriving DecidableEq, Repr

namespace Token

def word? (t : Token) : Option String :=
  match t.body with
  | .word name => some name
  | _ => none

def isWord (t : Token) (name : String) : Bool :=
  t.body == .word name

def isSymbol (t : Token) (s : Symbol) : Bool :=
  t.body == .symbol s

/-- Whether a token is a word of any kind but the literal ones. -/
def isAnyWord (t : Token) : Bool :=
  t.word?.isSome

end Token

end WidgetLint.Script
