import WidgetLint.Number.Decimal
import WidgetLint.Text.Digit

/-!
# JSON texts

A strict reader of JSON: no comments, no trailing commas, no leading zeros, no raw control
characters in strings, no lone surrogate escapes, and nothing after the value. Arrays and objects
nest at most 127 deep, and a number has to fit a finite double.
-/

namespace WidgetLint

open Number Text

/-- A JSON value. An object keeps its members in source order, repeated names included. -/
inductive Json where
  | null
  | bool (value : Bool)
  | number (value : Binary64)
  | string (value : String)
  | array (items : List Json)
  | object (members : List (String × Json))
deriving Inhabited

namespace Json

/-- What a reader makes of a text: a value and the text after it, or nothing. -/
abbrev Reader (α : Type) := List Char → Option (α × List Char)

/-- Whether a character may stand between two parts of a JSON text. -/
def isBlank (c : Char) : Bool :=
  c == ' ' || c == '\t' || c == '\n' || c == '\r'

/-- The text without the blanks before it. -/
def skipBlank (cs : List Char) : List Char :=
  cs.dropWhile isBlank

/-- Four hexadecimal digits as a number. -/
def readUnit : Reader Nat
  | a :: b :: c :: d :: rest => do
    let a ← digit? 16 a
    let b ← digit? 16 b
    let c ← digit? 16 c
    let d ← digit? 16 d
    return (((a * 16 + b) * 16 + c) * 16 + d, rest)
  | _ => none

/-- The character of a `\u` escape, whose backslash and letter are already read. A character
outside the basic plane is written as two escapes. -/
def readUnicodeEscape : Reader Char := fun cs => do
  let (high, rest) ← readUnit cs
  if 0xd800 ≤ high ∧ high < 0xdc00 then
    match rest with
    | '\\' :: 'u' :: rest =>
      let (low, rest) ← readUnit rest
      if 0xdc00 ≤ low ∧ low < 0xe000 then
        return (Char.ofNat (0x10000 + (high - 0xd800) * 0x400 + (low - 0xdc00)), rest)
      else none
    | _ => none
  else if 0xdc00 ≤ high ∧ high < 0xe000 then none
  else return (Char.ofNat high, rest)

/-- The character of an escape whose backslash is already read. -/
def readEscape : Reader Char
  | '"' :: rest => some ('"', rest)
  | '\\' :: rest => some ('\\', rest)
  | '/' :: rest => some ('/', rest)
  | 'b' :: rest => some ('\x08', rest)
  | 'f' :: rest => some ('\x0c', rest)
  | 'n' :: rest => some ('\n', rest)
  | 'r' :: rest => some ('\r', rest)
  | 't' :: rest => some ('\t', rest)
  | 'u' :: rest => readUnicodeEscape rest
  | _ => none

/-- The characters of a string up to its closing quote, at most `fuel` of them. -/
def readChars : Nat → Reader (List Char)
  | 0, _ => none
  | fuel + 1, cs =>
    match cs with
    | [] => none
    | '"' :: rest => some ([], rest)
    | '\\' :: rest => do
      let (c, rest) ← readEscape rest
      let (value, rest) ← readChars fuel rest
      return (c :: value, rest)
    | c :: rest =>
      if c.toNat < 0x20 then none
      else do
        let (value, rest) ← readChars fuel rest
        return (c :: value, rest)

/-- A string whose opening quote is already read. -/
def readString : Reader String := fun cs => do
  let (value, rest) ← readChars (cs.length + 1) cs
  return (String.ofList value, rest)

/-- At least one digit. -/
def readDigits : Reader (List Char) := fun cs =>
  match cs.span Char.isDigit with
  | ([], _) => none
  | (digits, rest) => some (digits, rest)

/-- The digits before the point: a lone zero, or digits that start with another one. -/
def readWhole : Reader (List Char) := fun cs => do
  let (digits, rest) ← readDigits cs
  if digits.head? = some '0' ∧ 1 < digits.length then none else return (digits, rest)

/-- The digits after a point, if there is one. -/
def readFraction : Reader (List Char)
  | '.' :: rest => readDigits rest
  | rest => some ([], rest)

/-- The power of ten after an `e`, if there is one. -/
def readExponent : Reader Int := fun cs =>
  let signed (negative : Bool) (cs : List Char) : Option (Int × List Char) := do
    let (digits, rest) ← readDigits cs
    let size : Int := numeralValue 10 digits
    return (if negative then -size else size, rest)
  match cs with
  | [] => some (0, [])
  | e :: rest =>
    if e == 'e' || e == 'E' then
      match rest with
      | '+' :: rest => signed false rest
      | '-' :: rest => signed true rest
      | _ => signed false rest
    else some (0, cs)

/-- A number without its sign; one too large for a finite double is refused. -/
def readMagnitude : Reader Binary64 := fun cs => do
  let (whole, rest) ← readWhole cs
  let (fraction, rest) ← readFraction rest
  let (exponent, rest) ← readExponent rest
  let decimal : Decimal := ⟨numeralValue 10 (whole ++ fraction), exponent - fraction.length⟩
  match decimal.toBinary64 with
  | .infinite _ => none
  | value => return (value, rest)

/-- Items separated by commas, up to and with the closing character; at least one. -/
def readItems {α : Type} (item : Reader α) (close : Char) : Nat → Reader (List α)
  | 0, _ => none
  | fuel + 1, cs => do
    let (first, rest) ← item (skipBlank cs)
    match skipBlank rest with
    | c :: rest =>
      if c = ',' then
        let (others, rest) ← readItems item close fuel rest
        return (first :: others, rest)
      else if c = close then return ([first], rest)
      else none
    | [] => none

/-- What follows an opening bracket: items and the closing one, or the closing one at once. -/
def readBracketed {α : Type} (item : Reader α) (close : Char) : Reader (List α) := fun cs =>
  match skipBlank cs with
  | [] => none
  | c :: rest => if c = close then some ([], rest) else readItems item close cs.length cs

/-- A name, a colon and a value. -/
def readMember (value : Reader Json) : Reader (String × Json)
  | '"' :: rest => do
    let (name, rest) ← readString rest
    match skipBlank rest with
    | ':' :: rest =>
      let (value, rest) ← value (skipBlank rest)
      return ((name, value), rest)
    | _ => none
  | _ => none

/-- A value in which arrays and objects nest at most `depth` deep. -/
def readValue : Nat → Reader Json
  | _, 'n' :: 'u' :: 'l' :: 'l' :: rest => some (.null, rest)
  | _, 't' :: 'r' :: 'u' :: 'e' :: rest => some (.bool true, rest)
  | _, 'f' :: 'a' :: 'l' :: 's' :: 'e' :: rest => some (.bool false, rest)
  | _, '"' :: rest => do
    let (value, rest) ← readString rest
    return (.string value, rest)
  | depth + 1, '[' :: rest => do
    let (items, rest) ← readBracketed (readValue depth) ']' rest
    return (.array items, rest)
  | depth + 1, '\x7b' :: rest => do
    let (members, rest) ← readBracketed (readMember (readValue depth)) '\x7d' rest
    return (.object members, rest)
  | _, '-' :: rest => do
    let (value, rest) ← readMagnitude rest
    return (.number value.negate, rest)
  | _, cs => do
    let (value, rest) ← readMagnitude cs
    return (.number value, rest)

/-- The deepest nesting of arrays and objects in a JSON text. -/
def maxDepth : Nat := 127

/-- The value of a whole JSON text. -/
def parse? (text : String) : Option Json := do
  let (value, rest) ← readValue maxDepth (skipBlank text.toList)
  if skipBlank rest = [] then return value else none

/-- The members with each name once, in the place of its first and with the value of its last
occurrence. -/
def distinct {α : Type} : List (String × α) → List (String × α)
  | [] => []
  | (name, value) :: rest =>
    let last := (rest.reverse.find? (·.1 == name)).elim value (·.2)
    (name, last) :: (distinct rest).filter (·.1 != name)

end Json

end WidgetLint
