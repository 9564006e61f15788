import WidgetLint.Text.Position

/-!
# Faults in scripts

Why a script or an expression cannot be read, and where.
-/

namespace WidgetLint.Script

open Text

/-- Why a text is no script. -/
inductive Cause where
  | unterminatedComment
  | noRadixDigits (radix : Nat)
  | noExponentDigits
  | wordAfterNumber
  | unterminatedString
  | badEscape
  | badWordEscape
  | unterminatedTemplate
  | templateTooDeep
  | unterminatedRegex
  | unexpectedChar (char : Char)
  | unexpectedEnd
  | unexpectedKeyword (word : String)
  | unexpectedToken (lexeme : String)
  | newlineAfterThrow
  | missingHandler
  | badTarget
  | nestedTooDeep
deriving DecidableEq, Repr

def Cause.message : Cause → String
  | unterminatedComment => "Unterminated comment"
  | noRadixDigits radix => "Expected number in radix " ++ toString radix
  | noExponentDigits => "Invalid number"
  | wordAfterNumber => "Identifier directly after number"
  | unterminatedString => "Unterminated string constant"
  | badEscape => "Bad character escape sequence"
  | badWordEscape => "Invalid Unicode escape sequence"
  | unterminatedTemplate => "Unterminated template"
  | templateTooDeep => "Template nested too deeply"
  | unterminatedRegex => "Unterminated regular expression"
  | unexpectedChar char => "Unexpected character '" ++ String.singleton char ++ "'"
  | unexpectedEnd => "Unexpected end of input"
  | unexpectedKeyword word => "Unexpected keyword '" ++ word ++ "'"
  | unexpectedToken lexeme => "Unexpected token '" ++ lexeme ++ "'"
  | newlineAfterThrow => "Illegal newline after throw"
  | missingHandler => "Missing catch or finally clause"
  | badTarget => "Assigning to rvalue"
  | nestedTooDeep => "Expression nested too deeply"

/-- A cause and its place. -/
structure ScriptError where
  cause : Cause
  position : Position
deriving DecidableEq, Repr

def ScriptError.message (e : ScriptError) : String :=
  e.cause.message

/-- An error as one line of text. -/
def ScriptError.render (e : ScriptError) : String :=
  e.message ++ " (" ++ e.position.render ++ ")"

end WidgetLint.Script
