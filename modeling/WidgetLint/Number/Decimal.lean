import WidgetLint.Number.Binary64

/-!
# Decimal numerals

A decimal is a coefficient and a power of ten. Reading one gives the double nearest to its exact
value; the shortest decimal of a double is the one with the fewest digits that reads back as it.
-/

namespace WidgetLint.Number

def tenTo (n : Nat) : Nat := Nat.pow 10 n

/-- The value `coefficient * 10 ^ exponent`. -/
structure Decimal where
  coefficient : Nat
  exponent : Int
deriving DecidableEq, Repr

/-- The number of decimal digits of a natural number. -/
def decimalLength (n : Nat) : Nat :=
  (Nat.toDigits 10 n).length

namespace Decimal

/-- The double nearest to a decimal. A decimal far outside the range of doubles is settled by its
order of magnitude, so that no huge power of ten is computed. -/
def toBinary64 (d : Decimal) : Binary64 :=
  let order := (decimalLength d.coefficient : Int) + d.exponent
  if d.coefficient = 0 then .zero
  else if 310 < order then .infinite false
  else if order < -330 then .zero
  else if 0 ≤ d.exponent then
    .ofUnits (d.coefficient * tenTo d.exponent.toNat * unitsPerOne) 1
  else
    .ofUnits (d.coefficient * unitsPerOne) (tenTo (-d.exponent).toNat)

/-- A decimal in plain positional form, never with an exponent. -/
def render (d : Decimal) : String :=
  let digits := Nat.toDigits 10 d.coefficient
  let point := (digits.length : Int) + d.exponent
  if 0 ≤ d.exponent then
    String.ofList (digits ++ List.replicate d.exponent.toNat '0')
  else if 0 < point then
    String.ofList (digits.take point.toNat ++ '.' :: digits.drop point.toNat)
  else
    String.ofList ('0' :: '.' :: (List.replicate (-point).toNat '0' ++ digits))

end Decimal

/-! ## The shortest decimal of a double -/

/-- The number of digits before the point of `units` units; zero or less counts the zeros after
the point. The factor makes every double at least one. -/
def decimalOrder (units : Nat) : Int :=
  (decimalLength (units * tenTo 400 / unitsPerOne) : Int) - 400

/-- Whether a decimal reads back as the positive double of `units` units. -/
def Decimal.readsAs (d : Decimal) (units : Nat) : Bool :=
  d.toBinary64 == .finite false units

/-- The one of two decimals that reads back as the positive double of `units` units; of two that do
so, the one that is closer. -/
def readingOf (units : Nat) (below above : Decimal) (belowCloser : Bool) : Option Decimal :=
  match below.readsAs units, above.readsAs units with
  | true, true => some (if belowCloser then below else above)
  | true, false => some below
  | false, true => some above
  | false, false => none

/-- The decimals on either side of `units` units with `places` digits, of which the one that reads
back and is nearer is taken, the upper one at equal distance. -/
def nearestReading (units places : Nat) : Option Decimal :=
  let exponent := decimalOrder units - places
  let num := if exponent < 0 then units * tenTo (-exponent).toNat else units
  let den := if exponent < 0 then unitsPerOne else unitsPerOne * tenTo exponent.toNat
  let below : Decimal := ⟨num / den, exponent⟩
  let above : Decimal :=
    if num / den + 1 = tenTo places then ⟨1, exponent + places⟩ else ⟨num / den + 1, exponent⟩
  readingOf units below above (2 * (num % den) < den)

/-- The shortest decimal that reads back as the positive double of `units` units. Seventeen digits
always suffice. -/
def shortest (units : Nat) : Decimal :=
  ((List.range 17).findSome? fun n => nearestReading units (n + 1)).getD ⟨units / unitsPerOne, 0⟩

/-- A number as script source writes it: whole numbers below 10^15 as integers, other numbers by
their shortest decimal. Negative zero is written without its sign. -/
def Binary64.render : Binary64 → String
  | nan => "NaN"
  | infinite negative => if negative then "-Infinity" else "Infinity"
  | finite negative units =>
    let whole := units / unitsPerOne
    let sign := if negative && units != 0 then "-" else ""
    if units % unitsPerOne = 0 && whole < tenTo 15 then sign ++ toString whole
    else sign ++ (shortest units).render

end WidgetLint.Number
