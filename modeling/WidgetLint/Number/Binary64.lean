/-!
# Double-precision numbers

A finite double is a whole number of units of 2^-1074, so its value is an exact fraction and no
machine arithmetic is needed to reason about it. A fraction of units is rounded to the nearest
double, and a value half way between two doubles goes to the one with the even last place.
-/

namespace WidgetLint.Number

def twoTo (n : Nat) : Nat := Nat.pow 2 n

/-- A double-precision number; a finite one is a sign and a count of units of 2^-1074. -/
inductive Binary64 where
  | finite (negative : Bool) (units : Nat)
  | infinite (negative : Bool)
  | nan
deriving DecidableEq, Repr, Inhabited

/-- The number of units that make one. -/
def unitsPerOne : Nat := twoTo 1074

/-- The least number of units that is too large for a finite double. -/
def unitsLimit : Nat := twoTo 2098

/-- The quotient rounded to the nearest whole number, a half to the even neighbour. -/
def roundDiv (num den : Nat) : Nat :=
  let quotient := num / den
  let rest := num % den
  if 2 * rest < den then quotient
  else if den < 2 * rest then quotient + 1
  else if quotient % 2 = 0 then quotient
  else quotient + 1

/-- The number of low binary places of `n` beyond the 53 that a double keeps. -/
def surplusPlaces (n : Nat) : Nat :=
  n.log2 + 1 - 53

/-- The fraction `num / den` rounded to a whole number of 53 significant binary places. -/
def roundPlaces (num den : Nat) : Nat :=
  let scale := twoTo (surplusPlaces (num / den))
  roundDiv num (den * scale) * scale

namespace Binary64

def zero : Binary64 := .finite false 0

/-- The double nearest to `num / den` units. -/
def ofUnits (num den : Nat) : Binary64 :=
  let units := roundPlaces num den
  if units < unitsLimit then .finite false units else .infinite false

def ofNat (n : Nat) : Binary64 :=
  ofUnits (n * unitsPerOne) 1

def negate : Binary64 → Binary64
  | finite negative units => .finite (!negative) units
  | infinite negative => .infinite (!negative)
  | nan => .nan

/-- The number read digit by digit in a small base that is a power of two. The sum so far is
rounded after every digit, so a long numeral need not give the double nearest to its value. -/
def ofRadixDigits (radix : Nat) (digits : List Nat) : Binary64 :=
  ofNat (digits.foldl (fun sum digit => roundPlaces (sum * radix + digit) 1) 0)

/-- The 64 bits of the interchange format, as a natural number. -/
def toBits : Binary64 → Nat
  | finite negative units =>
    let magnitude :=
      if units < twoTo 52 then units
      else
        let shift := units.log2 - 52
        (shift + 1) * twoTo 52 + (units / twoTo shift - twoTo 52)
    (if negative then twoTo 63 else 0) + magnitude
  | infinite negative => (if negative then twoTo 63 else 0) + 2047 * twoTo 52
  | nan => 2047 * twoTo 52 + twoTo 51

/-- The number with the given 64 bits of the interchange format. -/
def ofBits (bits : Nat) : Binary64 :=
  let negative := bits / twoTo 63 % 2 == 1
  let exponent := bits / twoTo 52 % twoTo 11
  let fraction := bits % twoTo 52
  if exponent = 2047 then
    if fraction = 0 then .infinite negative else .nan
  else if exponent = 0 then .finite negative fraction
  else .finite negative ((twoTo 52 + fraction) * twoTo (exponent - 1))

end Binary64

end WidgetLint.Number
