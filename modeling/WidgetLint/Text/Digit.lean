/-!
# Digits and numerals

Digits in a base up to sixteen, and the number that a run of them spells.
-/

namespace WidgetLint.Text

/-- The value of a digit in a base up to sixteen. -/
def digit? (radix : Nat) (c : Char) : Option Nat :=
  let value :=
    if c.isDigit then some (c.toNat - '0'.toNat)
    else if 'a' ≤ c ∧ c ≤ 'f' then some (c.toNat - 'a'.toNat + 10)
    else if 'A' ≤ c ∧ c ≤ 'F' then some (c.toNat - 'A'.toNat + 10)
    else none
  value.filter (· < radix)

def isDigitIn (radix : Nat) (c : Char) : Bool :=
  (digit? radix c).isSome

/-- The values of the digits among the characters. -/
def digitValues (radix : Nat) (cs : List Char) : List Nat :=
  cs.filterMap (digit? radix)

/-- The number that digits spell in a base. -/
def numeralValue (radix : Nat) (cs : List Char) : Nat :=
  (digitValues radix cs).foldl (fun n d => n * radix + d) 0

/-- The character with the code that hexadecimal digits spell, if there is one. -/
def hexChar? (digits : List Char) : Option Char :=
  let code := numeralValue 16 digits
  if !digits.isEmpty && (code < 0xd800 || 0xdfff < code && code < 0x110000) then
    some (Char.ofNat code)
  else none

end WidgetLint.Text
