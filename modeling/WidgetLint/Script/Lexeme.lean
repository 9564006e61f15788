import WidgetLint.Number.Decimal
import WidgetLint.Text.Blank
import WidgetLint.Text.Digit
import WidgetLint.Text.Numeric
import WidgetLint.Script.ScriptError
import WidgetLint.Script.Token

/-!
# Spellings of tokens

Each function here looks at the beginning of a text and says how many characters belong to a token
or to the gap before one. Places are counted in characters from that beginning, so nothing here
depends on where the text stands.
-/

namespace WidgetLint.Script

open Text Number

/-- What was found at the beginning of a text: a value and the number of characters it takes, or
a cause, the number of characters before its place, and the number of characters passed over. -/
inductive Scanned (α : Type) where
  | ok (value : α) (size : Nat)
  | fail (cause : Cause) (place size : Nat)
deriving Repr

def Scanned.map {α β : Type} (f : α → β) : Scanned α → Scanned β
  | ok value size => .ok (f value) size
  | fail cause place size => .fail cause place size

/-- Whether a character may begin a word. -/
def isWordStart (c : Char) : Bool :=
  isAlphabetic c || c == '_' || c == '$'

/-- Whether a character may continue a word. -/
def isWordPart (c : Char) : Bool :=
  isAlphanumeric c || c == '_' || c == '$' || c == '\u200c' || c == '\u200d'

/-! ## Gaps -/

/-- What a gap between tokens is made of at some place. -/
inductive GapMode where
  | blank
  | lineComment
  /-- A comment that began after so many characters. -/
  | blockComment (start : Nat)
deriving DecidableEq, Repr

/-- What is known at the end of a gap. -/
structure Gap where
  /-- A line ended in the gap or before it. -/
  newline : Bool
  /-- Nothing but gaps since the last end of a line. -/
  lineStart : Bool
  outcome : Scanned Unit
deriving Repr

/-- Whether a comment up to the end of the line begins here. -/
def opensLineComment (lineStart : Bool) (cs : List Char) : Bool :=
  ['/', '/'].isPrefixOf cs || ['<', '!', '-', '-'].isPrefixOf cs ||
    lineStart && ['-', '-', '>'].isPrefixOf cs

/-- The rest of a gap of which `n` characters are passed. -/
def gapFrom : GapMode → (newline lineStart : Bool) → (n : Nat) → List Char → Gap
  | .blockComment start, newline, lineStart, n, [] =>
    ⟨newline, lineStart, .fail .unterminatedComment start n⟩
  | _, newline, lineStart, n, [] => ⟨newline, lineStart, .ok () n⟩
  | .blockComment _, newline, lineStart, n, '*' :: '/' :: rest =>
    gapFrom .blank newline lineStart (n + 2) rest
  | .blockComment start, newline, lineStart, n, c :: rest =>
    gapFrom (.blockComment start) (newline || isLineEnd c) (lineStart || isLineEnd c) (n + 1) rest
  | .lineComment, newline, lineStart, n, c :: rest =>
    if isLineEnd c then gapFrom .blank true true (n + 1) rest
    else gapFrom .lineComment newline lineStart (n + 1) rest
  | .blank, newline, lineStart, n, '/' :: '*' :: rest =>
    gapFrom (.blockComment n) newline lineStart (n + 2) rest
  | .blank, newline, lineStart, n, c :: rest =>
    if isLineEnd c then gapFrom .blank true true (n + 1) rest
    else if isWhiteSpace c then gapFrom .blank newline lineStart (n + 1) rest
    else if opensLineComment lineStart (c :: rest) then
      gapFrom .lineComment newline lineStart (n + 1) rest
    else ⟨newline, lineStart, .ok () n⟩

/-! ## Numbers -/

/-- The base that a numeral announces. -/
def announcedRadix? : List Char → Option Nat
  | '0' :: 'x' :: _ => some 16
  | '0' :: 'X' :: _ => some 16
  | '0' :: 'o' :: _ => some 8
  | '0' :: 'O' :: _ => some 8
  | '0' :: 'b' :: _ => some 2
  | '0' :: 'B' :: _ => some 2
  | _ => none

/-- The exponent of a decimal numeral: its size, which is zero if there is none, and its value,
which is missing if it has no digits. -/
def exponentPart : List Char → Nat × Option Int
  | [] => (0, some 0)
  | e :: rest =>
    if e == 'e' || e == 'E' then
      let (signSize, negative) := match rest with
        | '+' :: _ => (1, false)
        | '-' :: _ => (1, true)
        | _ => (0, false)
      let digits := (rest.drop signSize).takeWhile Char.isDigit
      let value : Int := numeralValue 10 digits
      (1 + signSize + digits.length,
        if digits.isEmpty then none else some (if negative then -value else value))
    else (0, some 0)

/-- The digits after a point and the size of both, if a point comes next. -/
def fractionPart : List Char → List Char × Nat
  | '.' :: rest =>
    let digits := rest.takeWhile Char.isDigit
    (digits, digits.length + 1)
  | _ => ([], 0)

/-- A whole numeral with a leading zero and no digit above seven is octal. -/
def isLegacyOctal (whole : List Char) : Bool :=
  1 < whole.length && whole.head? == some '0' && whole.all (isDigitIn 8)

/-- A numeral without an announced base. -/
def scanDecimal (cs : List Char) : Scanned Binary64 :=
  let whole := cs.takeWhile Char.isDigit
  let (fraction, fractionSize) := fractionPart (cs.drop whole.length)
  let size := whole.length + fractionSize
  match exponentPart (cs.drop size) with
  | (exponentSize, none) => .fail .noExponentDigits 0 (size + exponentSize)
  | (exponentSize, some exponent) =>
    let value :=
      if fractionSize = 0 && exponentSize = 0 && isLegacyOctal whole then
        Binary64.ofRadixDigits 8 (digitValues 8 whole)
      else
        (Decimal.mk (numeralValue 10 (whole ++ fraction)) (exponent - fraction.length)).toBinary64
    .ok value (size + exponentSize)

/-- A numeral that announces its base; underscores between its digits are passed over. -/
def scanRadix (radix : Nat) (cs : List Char) : Scanned Binary64 :=
  let digits := (cs.drop 2).takeWhile fun c => isDigitIn radix c || c == '_'
  if digits.isEmpty then .fail (.noRadixDigits radix) 0 2
  else .ok (.ofRadixDigits radix (digitValues radix digits)) (digits.length + 2)

/-- A numeral; no word may follow it directly. -/
def scanNumber (cs : List Char) : Scanned Binary64 :=
  let scanned := match announcedRadix? cs with
    | some radix => scanRadix radix cs
    | none => scanDecimal cs
  match scanned with
  | .ok value size =>
    if (cs[size]?).any isWordStart then .fail .wordAfterNumber size size else .ok value size
  | .fail cause place size => .fail cause place size

/-! ## Strings -/

/-- An escape that gives the code of its character in exactly `n` hexadecimal digits, which come
after its letter. -/
def scanHexEscape (n : Nat) (cs : List Char) : Scanned (Option Char) :=
  let digits := (cs.take n).takeWhile (isDigitIn 16)
  if digits.length < n then .fail .badEscape 0 (digits.length + 1)
  else match hexChar? digits with
    | some c => .ok (some c) (n + 1)
    | none => .fail .badEscape 0 (n + 1)

/-- An escape that gives the code of its character between braces, after the opening one. -/
def scanBracedEscape (cs : List Char) : Scanned (Option Char) :=
  let digits := cs.takeWhile (isDigitIn 16)
  if cs[digits.length]? = some '\x7d' then
    match hexChar? digits with
    | some c => .ok (some c) (digits.length + 3)
    | none => .fail .badEscape 0 (digits.length + 3)
  else .fail .badEscape 0 (digits.length + 2)

/-- An escape after its backslash: the character it stands for, or none if it joins two lines. -/
def scanEscape : List Char → Scanned (Option Char)
  | [] => .fail .unterminatedString 0 0
  | 'n' :: _ => .ok (some '\n') 1
  | 't' :: _ => .ok (some '\t') 1
  | 'r' :: _ => .ok (some '\r') 1
  | 'b' :: _ => .ok (some '\x08') 1
  | 'f' :: _ => .ok (some '\x0c') 1
  | 'v' :: _ => .ok (some '\x0b') 1
  | '0' :: rest => .ok (some (if rest.head?.any Char.isDigit then '0' else '\x00')) 1
  | 'x' :: rest => scanHexEscape 2 rest
  | 'u' :: '\x7b' :: rest => scanBracedEscape rest
  | 'u' :: rest => scanHexEscape 4 rest
  | '\r' :: '\n' :: _ => .ok none 2
  | '\r' :: _ => .ok none 1
  | '\n' :: _ => .ok none 1
  | c :: _ => .ok (some c) 1

/-- The rest of a string of which `n` characters are passed; the next `skip` characters belong to
an escape that is already decoded. -/
def scanString (quote : Char) : (n skip : Nat) → List Char → Scanned (List Char)
  | n, _, [] => .fail .unterminatedString 0 n
  | n, skip + 1, _ :: rest => scanString quote (n + 1) skip rest
  | n, 0, c :: rest =>
    if c = '\n' then .fail .unterminatedString 0 n
    else if c = quote then .ok [] (n + 1)
    else if c = '\\' then
      if rest.isEmpty then .fail .unterminatedString 0 (n + 1)
      else match scanEscape rest with
        | .ok decoded size => (scanString quote (n + 1) size rest).map (decoded.toList ++ ·)
        | .fail cause place size => .fail cause (n + 1 + place) (n + 1 + size)
    else (scanString quote (n + 1) 0 rest).map (c :: ·)

/-! ## Templates -/

/-- The deepest nesting of templates inside the code of templates. -/
def maxTemplateDepth : Nat := 64

/-- Which part of a template literal a character belongs to. -/
inductive TemplateMode where
  | text
  /-- Code between `$` braces, with the number of braces that are open. -/
  | code (braces : Nat)
  /-- A string in code. -/
  | quoted (quote : Char) (braces : Nat)
deriving DecidableEq, Repr

/-- What is found in a template literal behind a part of it that is copied. -/
def copying (part : List Char) (found : Scanned (List Char) × Nat) : Scanned (List Char) × Nat :=
  (found.1.map (part ++ ·), found.2)

/-- The rest of a template literal of which `n` characters are passed. `depth` counts the templates
around the current one, and `outer` holds the open braces of the code around it. The depth that
was reached is returned as well. -/
def templateFrom : (depth n : Nat) → TemplateMode → (outer : List Nat) → List Char →
    Scanned (List Char) × Nat
  | depth, n, _, _, [] => (.fail .unterminatedTemplate 0 n, depth)
  | depth, n, .text, outer, '$' :: '\x7b' :: rest =>
    copying ['$', '\x7b'] (templateFrom depth (n + 2) (.code 1) outer rest)
  | depth, n, .text, outer, '\\' :: c :: rest =>
    copying ['\\', c] (templateFrom depth (n + 2) .text outer rest)
  | depth, n, .text, outer, c :: rest =>
    if c = '\x60' then
      match outer with
      | [] => (.ok [] (n + 1), depth)
      | braces :: outer => copying [c] (templateFrom (depth - 1) (n + 1) (.code braces) outer rest)
    else copying [c] (templateFrom depth (n + 1) .text outer rest)
  | depth, n, .code braces, outer, c :: rest =>
    if c = '\x60' then
      if depth = maxTemplateDepth then (.fail .templateTooDeep n n, depth)
      else copying [c] (templateFrom (depth + 1) (n + 1) .text (braces :: outer) rest)
    else if c = '"' || c = '\'' then
      copying [c] (templateFrom depth (n + 1) (.quoted c braces) outer rest)
    else if c = '\x7b' then
      copying [c] (templateFrom depth (n + 1) (.code (braces + 1)) outer rest)
    else if c = '\x7d' then
      copying [c] (templateFrom depth (n + 1)
        (if braces = 1 then .text else .code (braces - 1)) outer rest)
    else copying [c] (templateFrom depth (n + 1) (.code braces) outer rest)
  | depth, n, .quoted quote braces, outer, '\\' :: c :: rest =>
    copying ['\\', c] (templateFrom depth (n + 2) (.quoted quote braces) outer rest)
  | depth, n, .quoted quote braces, outer, c :: rest =>
    copying [c] (templateFrom depth (n + 1)
      (if c = quote || c = '\n' then .code braces else .quoted quote braces) outer rest)

/-! ## Regular expressions -/

/-- The rest of the pattern of a regular expression of which `n` characters are passed; a slash in a
character class does not end it. -/
def regexFrom : (inClass : Bool) → (n : Nat) → List Char → Scanned (List Char)
  | _, n, [] => .fail .unterminatedRegex 0 n
  | _, n, ['\\'] => .fail .unterminatedRegex 0 (n + 1)
  | inClass, n, '\\' :: c :: rest =>
    if c = '\n' then .fail .unterminatedRegex 0 (n + 1)
    else (regexFrom inClass (n + 2) rest).map ('\\' :: c :: ·)
  | inClass, n, c :: rest =>
    if c = '\n' then .fail .unterminatedRegex 0 n
    else if c = '/' && !inClass then .ok [] (n + 1)
    else (regexFrom (if c = '[' then true else if c = ']' then false else inClass) (n + 1) rest).map
      (c :: ·)

/-- A regular expression: its pattern and its flags. -/
def scanRegex (cs : List Char) : Scanned TokenBody :=
  match regexFrom false 1 (cs.drop 1) with
  | .ok pattern size =>
    let flags := (cs.drop size).takeWhile isWordPart
    .ok (.regex (String.ofList pattern) (String.ofList flags)) (size + flags.length)
  | .fail cause place size => .fail cause place size

/-! ## Words -/

/-- The rest of a word of which `n` characters are passed. An escape has to stand for a character
that could be written at its place; the next `skip` characters belong to one. -/
def scanWord : (n skip : Nat) → List Char → Scanned (List Char)
  | n, _, [] => .ok [] n
  | n, skip + 1, _ :: rest => scanWord (n + 1) skip rest
  | n, 0, c :: rest =>
    if c = '\\' && rest.head? == some 'u' then
      match scanEscape rest with
      | .ok decoded size =>
        if decoded.any (if n = 0 then isWordStart else isWordPart) then
          (scanWord (n + 1) size rest).map (decoded.toList ++ ·)
        else .fail .badWordEscape n (n + 1 + size)
      | .fail cause place size => .fail cause (n + 1 + place) (n + 1 + size)
    else if isWordPart c then (scanWord (n + 1) 0 rest).map (c :: ·)
    else .ok [] n

/-- The token of a word, given its spelling and the characters it stands for. A word written with
an escape is never a literal word. -/
def wordBody (lexeme : String) (name : List Char) : TokenBody :=
  if lexeme = "true" then .boolean true
  else if lexeme = "false" then .boolean false
  else if lexeme = "null" then .null
  else .word (String.ofList name)

/-! ## Tokens -/

/-- A template literal, with the depth of templates around it when the scan ended. -/
def scanTemplate (depth : Nat) (cs : List Char) : Scanned TokenBody × Nat :=
  let found := templateFrom depth 1 .text [] (cs.drop 1)
  (found.1.map fun raw => .template (String.ofList raw), found.2)

/-- The token at the beginning of a text that starts with no gap. A slash begins a regular
expression only where `regexAllowed` says so. -/
def scanToken (regexAllowed : Bool) (depth : Nat) (cs : List Char) : Scanned TokenBody × Nat :=
  match cs with
  | [] => (.ok .eof 0, depth)
  | c :: rest =>
    if c.isDigit || c == '.' && rest.head?.any Char.isDigit then
      ((scanNumber cs).map .number, depth)
    else if c == '"' || c == '\'' then
      ((scanString c 1 0 rest).map fun value => .string (String.ofList value), depth)
    else if c == '\x60' then scanTemplate depth cs
    else if c == '/' && regexAllowed then (scanRegex cs, depth)
    else if isWordStart c || c == '\\' && rest.head? == some 'u' then
      match scanWord 0 0 cs with
      | .ok name size => (.ok (wordBody (String.ofList (cs.take size)) name) size, depth)
      | .fail cause place size => (.fail cause place size, depth)
    else match Symbol.read? cs with
      | some s => (.ok (.symbol s) s.text.length, depth)
      | none => (.fail (.unexpectedChar c) 0 0, depth)

/-- The words after which a slash begins a regular expression. -/
def regexAfterWords : List String :=
  ["return", "typeof", "instanceof", "in", "of", "new", "delete", "void", "throw", "case", "do",
   "else", "yield", "await"]

/-- The punctuators after which a slash divides. -/
def operandEnds : List Symbol :=
  [.rparen, .rbracket, .rbrace, .plusPlus, .minusMinus]

/-- Whether a slash after a token begins a regular expression. -/
def regexAllowedAfter (body : TokenBody) (lexeme : String) : Bool :=
  match body with
  | .word _ => regexAfterWords.contains lexeme
  | .symbol s => !operandEnds.contains s
  | .eof => true
  | _ => false

end WidgetLint.Script
