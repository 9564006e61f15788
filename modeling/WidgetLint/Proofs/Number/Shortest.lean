import WidgetLint.Number.Decimal
import WidgetLint.Proofs.Number.Rounding

/-!
# Seventeen digits suffice

The decimals of seventeen digits around a positive double are so close to it that the nearer one
reads back as the double (`nearestReading_seventeen`), so the shortest decimal always reads back
(`shortest_readsAs`).
-/

namespace WidgetLint.Number

variable {n units : Nat}

/-! ## Decimal lengths -/

theorem decimalLength_pos (n : Nat) : 0 < decimalLength n :=
  Nat.length_toDigits_pos

theorem decimalLength_le {k : Nat} (hk : 0 < k) : decimalLength n ≤ k ↔ n < 10 ^ k :=
  Nat.length_toDigits_le_iff (by decide) hk

theorem lt_tenTo_decimalLength (n : Nat) : n < 10 ^ decimalLength n :=
  (decimalLength_le (decimalLength_pos n)).1 (Nat.le_refl _)

/-- A number has more than `k` digits if it is at least `10 ^ k`. -/
theorem lt_decimalLength {k : Nat} (h : 10 ^ k ≤ n) : k < decimalLength n := by
  by_contra hle
  have hlt : n < 10 ^ k :=
    Nat.lt_of_lt_of_le (lt_tenTo_decimalLength n)
      (Nat.pow_le_pow_right (by decide) (Nat.not_lt.1 hle))
  omega

theorem tenTo_le_of_decimalLength {k : Nat} (hn : 0 < n) (h : decimalLength n = k + 1) :
    10 ^ k ≤ n := by
  by_contra hlt
  rcases Nat.eq_zero_or_pos k with rfl | hk
  · omega
  · have := (decimalLength_le hk).2 (Nat.not_le.1 hlt)
    omega

theorem decimalLength_eq {k : Nat} (hlow : 10 ^ k ≤ n) (hhigh : n < 10 ^ (k + 1)) :
    decimalLength n = k + 1 := by
  have hle := (decimalLength_le (Nat.succ_pos k)).2 hhigh
  have hlt := lt_decimalLength hlow
  omega

theorem decimalLength_mul_tenTo (hn : 0 < n) (j : Nat) :
    decimalLength (n * 10 ^ j) = decimalLength n + j := by
  obtain ⟨k, hk⟩ := Nat.exists_eq_add_of_le' (decimalLength_pos n)
  have hlow := tenTo_le_of_decimalLength hn hk
  have hhigh := lt_tenTo_decimalLength n
  rw [hk] at hhigh
  rw [hk, show k + 1 + j = k + j + 1 by omega]
  refine decimalLength_eq ?_ ?_
  · rw [Nat.pow_add]
    exact Nat.mul_le_mul_right _ hlow
  · rw [show k + j + 1 = k + 1 + j by omega, Nat.pow_add]
    exact Nat.mul_lt_mul_of_pos_right hhigh (Nat.pow_pos (by decide))

/-! ## Reading decimals -/

theorem tenTo_pos (n : Nat) : 0 < tenTo n :=
  Nat.pow_pos (by decide)

theorem tenTo_add (m n : Nat) : tenTo (m + n) = tenTo m * tenTo n :=
  Nat.pow_add 10 m n

theorem ofUnits_mul_right {t : Nat} (ht : 0 < t) (num den : Nat) :
    Binary64.ofUnits (num * t) (den * t) = .ofUnits num den := by
  unfold Binary64.ofUnits
  rw [roundPlaces_mul_right ht]

namespace Decimal

/-- The number of units of a decimal, as a fraction. -/
def fraction (d : Decimal) : Nat × Nat :=
  if 0 ≤ d.exponent then (d.coefficient * tenTo d.exponent.toNat * unitsPerOne, 1)
  else (d.coefficient * unitsPerOne, tenTo (-d.exponent).toNat)

/-- The number of digits before the point of a decimal. -/
def order (d : Decimal) : Int :=
  (decimalLength d.coefficient : Int) + d.exponent

theorem toBinary64_eq (d : Decimal) : d.toBinary64 =
    if d.coefficient = 0 then .zero
    else if 310 < d.order then .infinite false
    else if d.order < -330 then .zero
    else .ofUnits d.fraction.1 d.fraction.2 := by
  unfold toBinary64 order fraction
  dsimp only
  split_ifs <;> rfl

theorem order_shift {c : Nat} (hc : c ≠ 0) (j : Nat) (e : Int) :
    order ⟨c * tenTo j, e⟩ = order ⟨c, e + j⟩ := by
  have hlength := decimalLength_mul_tenTo (Nat.pos_of_ne_zero hc) j
  have hlength : decimalLength (c * tenTo j) = decimalLength c + j := hlength
  simp only [order, hlength, Nat.cast_add]
  ring

/-- The fractions of a decimal and of the decimal with zeros appended have a common multiple. -/
theorem fraction_shift (c j : Nat) (e : Int) :
    ∃ t, 0 < t ∧
      ((fraction ⟨c * tenTo j, e⟩ = ((fraction ⟨c, e + j⟩).1 * t, (fraction ⟨c, e + j⟩).2 * t))) := by
  unfold fraction
  dsimp only
  by_cases he : 0 ≤ e
  · -- both are whole numbers of units
    refine ⟨1, Nat.one_pos, ?_⟩
    have hsum : (e + j).toNat = j + e.toNat := by omega
    rw [if_pos he, if_pos (by omega), hsum, tenTo_add]
    simp [Nat.mul_assoc]
  · by_cases hej : 0 ≤ e + j
    · refine ⟨tenTo (-e).toNat, tenTo_pos _, ?_⟩
      have hsum : j = (e + j).toNat + (-e).toNat := by omega
      have hten : tenTo j = tenTo (e + j).toNat * tenTo (-e).toNat := by
        rw [← tenTo_add, ← hsum]
      rw [if_neg he, if_pos hej, hten]
      simp only [Prod.mk.injEq, Nat.one_mul, and_true]
      ring
    · refine ⟨tenTo j, tenTo_pos _, ?_⟩
      have hsum : (-e).toNat = (-(e + j)).toNat + j := by omega
      rw [if_neg he, if_neg hej, hsum, tenTo_add]
      simp only [Prod.mk.injEq, and_true]
      ring

theorem toBinary64_shift (c j : Nat) (e : Int) :
    toBinary64 ⟨c * tenTo j, e⟩ = toBinary64 ⟨c, e + j⟩ := by
  rcases Nat.eq_zero_or_pos c with rfl | hc
  · simp [toBinary64]
  · have hne : c * tenTo j ≠ 0 := Nat.mul_ne_zero (by omega) (Nat.pos_iff_ne_zero.1 (tenTo_pos j))
    obtain ⟨t, ht, hfraction⟩ := fraction_shift c j e
    rw [toBinary64_eq, toBinary64_eq, order_shift (by omega), hfraction, ofUnits_mul_right ht]
    simp only [hne, Nat.pos_iff_ne_zero.1 hc]

end Decimal

/-! ## The decimals around a double -/

theorem twoTo_pos (n : Nat) : 0 < twoTo n :=
  Nat.two_pow_pos n

theorem unitsPerOne_pos : 0 < unitsPerOne :=
  twoTo_pos 1074

/-- A double as a fraction of units of `10 ^ exponent`. -/
def scaled (units : Nat) (exponent : Int) : Nat × Nat :=
  (if exponent < 0 then units * tenTo (-exponent).toNat else units,
    if exponent < 0 then unitsPerOne else unitsPerOne * tenTo exponent.toNat)

theorem scaled_den_pos (units : Nat) (exponent : Int) : 0 < (scaled units exponent).2 := by
  unfold scaled
  dsimp only
  split_ifs
  · exact unitsPerOne_pos
  · exact Nat.mul_pos unitsPerOne_pos (tenTo_pos _)

theorem decimalOrder_spec (hpos : 0 < units) (hlimit : units < unitsLimit) :
    ∃ length : Nat, decimalOrder units = (length : Int) + 1 - 400 ∧ 76 ≤ length ∧ length < 709 ∧
      tenTo length * unitsPerOne ≤ units * tenTo 400 ∧
      units * tenTo 400 < tenTo (length + 1) * unitsPerOne := by
  obtain ⟨n, hn⟩ : ∃ n, n = units * tenTo 400 / unitsPerOne := ⟨_, rfl⟩
  have hlow : 10 ^ 76 ≤ n := by
    rw [hn, Nat.le_div_iff_mul_le unitsPerOne_pos]
    have hone : 10 ^ 76 * unitsPerOne ≤ tenTo 400 := by decide +kernel
    exact Nat.le_trans hone (Nat.le_mul_of_pos_left _ hpos)
  have hhigh : n < 10 ^ 709 := by
    rw [hn, Nat.div_lt_iff_lt_mul unitsPerOne_pos]
    have hmax : unitsLimit * tenTo 400 ≤ 10 ^ 709 * unitsPerOne := by decide +kernel
    exact Nat.lt_of_lt_of_le (Nat.mul_lt_mul_of_pos_right hlimit (tenTo_pos 400)) hmax
  have hnpos : 0 < n := Nat.lt_of_lt_of_le (by decide) hlow
  obtain ⟨length, hlength⟩ := Nat.exists_eq_add_of_le' (decimalLength_pos n)
  have hge := lt_decimalLength hlow
  have hle := (decimalLength_le (by decide)).2 hhigh
  have hfirst := tenTo_le_of_decimalLength hnpos hlength
  have hlast := lt_tenTo_decimalLength n
  rw [hlength] at hlast
  refine ⟨length, ?_, by omega, by omega, ?_, ?_⟩
  · rw [decimalOrder, ← hn, hlength]
    rfl
  · rw [hn, Nat.le_div_iff_mul_le unitsPerOne_pos] at hfirst
    exact hfirst
  · rw [hn, Nat.div_lt_iff_lt_mul unitsPerOne_pos] at hlast
    exact hlast

/-- Scaled to seventeen digits, a double lies between `10 ^ 16` and `10 ^ 17`. -/
theorem scaled_bounds {length : Nat}
    (hlow : tenTo length * unitsPerOne ≤ units * tenTo 400)
    (hhigh : units * tenTo 400 < tenTo (length + 1) * unitsPerOne) :
    tenTo 16 * (scaled units ((length : Int) + 1 - 400 - 17)).2 ≤
        (scaled units ((length : Int) + 1 - 400 - 17)).1 ∧
      (scaled units ((length : Int) + 1 - 400 - 17)).1 <
        tenTo 17 * (scaled units ((length : Int) + 1 - 400 - 17)).2 := by
  unfold scaled
  dsimp only
  by_cases hexponent : (length : Int) + 1 - 400 - 17 < 0
  · obtain ⟨up, hup⟩ : ∃ up, (-((length : Int) + 1 - 400 - 17)).toNat = up := ⟨_, rfl⟩
    rw [if_pos hexponent, if_pos hexponent, hup]
    have hlengthUp : length + up = 416 := by omega
    constructor
    · refine Nat.le_of_mul_le_mul_right ?_ (tenTo_pos length)
      calc tenTo 16 * unitsPerOne * tenTo length = tenTo length * unitsPerOne * tenTo 16 := by ring
        _ ≤ units * tenTo 400 * tenTo 16 := Nat.mul_le_mul_right _ hlow
        _ = units * tenTo up * tenTo length := by
          rw [Nat.mul_assoc, Nat.mul_assoc, ← tenTo_add, ← tenTo_add, Nat.add_comm up, hlengthUp]
    · refine Nat.lt_of_mul_lt_mul_right (a := tenTo (length + 1)) ?_
      calc units * tenTo up * tenTo (length + 1) = units * tenTo 400 * tenTo 17 := by
            rw [Nat.mul_assoc, Nat.mul_assoc, ← tenTo_add, ← tenTo_add,
              show up + (length + 1) = 400 + 17 by omega]
        _ < tenTo (length + 1) * unitsPerOne * tenTo 17 :=
          Nat.mul_lt_mul_of_pos_right hhigh (tenTo_pos 17)
        _ = tenTo 17 * unitsPerOne * tenTo (length + 1) := by ring
  · obtain ⟨down, hdown⟩ : ∃ down, ((length : Int) + 1 - 400 - 17).toNat = down := ⟨_, rfl⟩
    rw [if_neg hexponent, if_neg hexponent, hdown]
    have hlengthDown : length = 416 + down := by omega
    constructor
    · refine Nat.le_of_mul_le_mul_right ?_ (tenTo_pos 400)
      calc tenTo 16 * (unitsPerOne * tenTo down) * tenTo 400 = tenTo length * unitsPerOne := by
            rw [hlengthDown, show 416 + down = 16 + 400 + down by omega, tenTo_add, tenTo_add]
            ring
        _ ≤ units * tenTo 400 := hlow
    · refine Nat.lt_of_mul_lt_mul_right (a := tenTo 400) ?_
      calc units * tenTo 400 < tenTo (length + 1) * unitsPerOne := hhigh
        _ = tenTo 17 * (unitsPerOne * tenTo down) * tenTo 400 := by
            rw [hlengthDown, show 416 + down + 1 = 17 + 400 + down by omega, tenTo_add, tenTo_add]
            ring

theorem ofUnits_of_near {num den : Nat} (hdouble : IsDouble units) (hlimit : units < unitsLimit)
    (hlow : 2 ^ 54 * (units * den) < 2 ^ 54 * num + units * den)
    (hhigh : 2 ^ 54 * num < 2 ^ 54 * (units * den) + units * den) :
    Binary64.ofUnits num den = .finite false units := by
  unfold Binary64.ofUnits
  dsimp only
  rw [roundPlaces_of_near hdouble hlow hhigh, if_pos hlimit]

theorem Decimal.fraction_scaled (units c : Nat) (exponent : Int) :
    (Decimal.fraction ⟨c, exponent⟩).1 = c * (scaled units exponent).2 ∧
      units * (Decimal.fraction ⟨c, exponent⟩).2 = (scaled units exponent).1 := by
  unfold Decimal.fraction scaled
  dsimp only
  by_cases h : 0 ≤ exponent
  · rw [if_pos h, if_neg (by omega), if_neg (by omega)]
    exact ⟨by ring, Nat.mul_one units⟩
  · rw [if_neg h, if_pos (by omega), if_pos (by omega)]
    exact ⟨rfl, rfl⟩

/-- A decimal of seventeen digits reads as a double if it is off by half a unit of its last digit
at most. -/
theorem Decimal.readsAs_of_near {c length : Nat} (hdouble : IsDouble units)
    (hlimit : units < unitsLimit) (hlength : 76 ≤ length) (hlength' : length < 709)
    (hc : tenTo 16 ≤ c) (hc' : c ≤ tenTo 17) {num den : Nat}
    (hscaled : scaled units ((length : Int) + 1 - 400 - 17) = (num, den))
    (hnum : tenTo 16 * den ≤ num) (hlow : 2 * num ≤ 2 * (c * den) + den)
    (hhigh : 2 * (c * den) ≤ 2 * num + den) :
    Decimal.toBinary64 ⟨c, (length : Int) + 1 - 400 - 17⟩ = .finite false units := by
  have hden : 0 < den := by
    have := scaled_den_pos units ((length : Int) + 1 - 400 - 17)
    rwa [hscaled] at this
  have hpos : c ≠ 0 := by
    rintro rfl
    exact absurd hc (by decide)
  have hdigits : 16 < decimalLength c := lt_decimalLength hc
  have hdigits' : decimalLength c ≤ 18 :=
    (decimalLength_le (by decide)).2 (Nat.lt_of_le_of_lt hc' (by decide))
  obtain ⟨hfirst, hsecond⟩ :=
    Decimal.fraction_scaled units c ((length : Int) + 1 - 400 - 17)
  rw [hscaled] at hfirst hsecond
  dsimp only at hfirst hsecond
  rw [Decimal.toBinary64_eq, if_neg hpos, if_neg (by simp only [order]; omega),
    if_neg (by simp only [order]; omega)]
  -- half a unit of the last digit is less than 2^-54 of the double
  have hhalf : 2 ^ 53 * den < num :=
    Nat.lt_of_lt_of_le (Nat.mul_lt_mul_of_pos_right (by decide) hden) hnum
  refine ofUnits_of_near hdouble hlimit ?_ ?_
  · rw [hfirst, hsecond]
    omega
  · rw [hfirst, hsecond]
    omega

/-- The decimal just below a double with the given number of digits. -/
def decimalBelow (units places : Nat) : Decimal :=
  let (num, den) := scaled units (decimalOrder units - places)
  ⟨num / den, decimalOrder units - places⟩

def decimalAbove (units places : Nat) : Decimal :=
  let (num, den) := scaled units (decimalOrder units - places)
  if num / den + 1 = tenTo places then ⟨1, decimalOrder units - places + places⟩
  else ⟨num / den + 1, decimalOrder units - places⟩

theorem nearestReading_eq (units places : Nat) : ∃ closer, nearestReading units places =
    readingOf units (decimalBelow units places) (decimalAbove units places) closer :=
  ⟨_, rfl⟩

theorem readingOf_readsAs {below above d : Decimal} {closer : Bool}
    (h : readingOf units below above closer = some d) : d.readsAs units = true := by
  unfold readingOf at h
  split at h
  · rename_i hbelow habove
    cases h
    split
    · exact hbelow
    · exact habove
  · rename_i hbelow _
    cases h
    exact hbelow
  · rename_i _ habove
    cases h
    exact habove
  · cases h

theorem readingOf_isSome {below above : Decimal} {closer : Bool}
    (h : below.readsAs units = true ∨ above.readsAs units = true) :
    (readingOf units below above closer).isSome := by
  unfold readingOf
  split
  · rfl
  · rfl
  · rfl
  · rename_i hbelow habove
    rw [hbelow, habove] at h
    rcases h with h | h <;> cases h

theorem nearestReading_seventeen (hdouble : IsDouble units) (hpos : 0 < units)
    (hlimit : units < unitsLimit) : (nearestReading units 17).isSome := by
  obtain ⟨length, horder, hlength, hlength', hlow, hhigh⟩ := decimalOrder_spec hpos hlimit
  obtain ⟨hbelow, habove⟩ := scaled_bounds hlow hhigh
  obtain ⟨⟨num, den⟩, hscaled⟩ :
      ∃ s, scaled units ((length : Int) + 1 - 400 - 17) = s := ⟨_, rfl⟩
  have hden := scaled_den_pos units ((length : Int) + 1 - 400 - 17)
  rw [hscaled] at hbelow habove hden
  dsimp only at hbelow habove hden
  have hsplit := Nat.div_add_mod num den
  have hmod := Nat.mod_lt num hden
  have hfloor : tenTo 16 ≤ num / den := (Nat.le_div_iff_mul_le hden).2 hbelow
  have hfloor' : num / den < tenTo 17 := (Nat.div_lt_iff_lt_mul hden).2 habove
  have hread : ∀ c, tenTo 16 ≤ c → c ≤ tenTo 17 → 2 * num ≤ 2 * (c * den) + den →
      2 * (c * den) ≤ 2 * num + den →
      Decimal.toBinary64 ⟨c, (length : Int) + 1 - 400 - 17⟩ = .finite false units :=
    fun c hc hc' => Decimal.readsAs_of_near hdouble hlimit hlength hlength' hc hc' hscaled hbelow
  obtain ⟨closer, hreading⟩ := nearestReading_eq units 17
  rw [hreading]
  refine readingOf_isSome ?_
  unfold decimalBelow decimalAbove
  rw [horder, show ((17 : Nat) : Int) = 17 from rfl, hscaled]
  dsimp only
  by_cases hhalf : 2 * (num % den) ≤ den
  · left
    rw [Decimal.readsAs, hread _ hfloor (Nat.le_of_lt hfloor') (by rw [Nat.mul_comm _ den]; omega)
      (by rw [Nat.mul_comm _ den]; omega), beq_self_eq_true]
  · right
    have hnext := hread (num / den + 1) (by omega) (by omega)
      (by rw [Nat.add_mul, Nat.mul_comm _ den]; omega)
      (by rw [Nat.add_mul, Nat.mul_comm _ den]; omega)
    rw [Decimal.readsAs, beq_iff_eq]
    split_ifs with hfull
    · have hshift := Decimal.toBinary64_shift 1 17 ((length : Int) + 1 - 400 - 17)
      rw [Nat.one_mul, ← hfull, hnext] at hshift
      exact hshift.symm
    · exact hnext

theorem readsAs_of_findSome? {d : Decimal} {places : List Nat}
    (h : places.findSome? (fun n => nearestReading units (n + 1)) = some d) :
    d.toBinary64 = .finite false units := by
  obtain ⟨n, -, hreading⟩ := List.exists_of_findSome?_eq_some h
  obtain ⟨closer, heq⟩ := nearestReading_eq units (n + 1)
  rw [heq] at hreading
  exact beq_iff_eq.1 (readingOf_readsAs hreading)

theorem shortest_readsAs (hdouble : IsDouble units) (hpos : 0 < units)
    (hlimit : units < unitsLimit) : (shortest units).toBinary64 = .finite false units := by
  have hsome := nearestReading_seventeen hdouble hpos hlimit
  obtain ⟨d, hd⟩ : ∃ d,
      (List.range 17).findSome? (fun n => nearestReading units (n + 1)) = some d := by
    rw [← Option.isSome_iff_exists, List.findSome?_isSome_iff]
    exact ⟨16, by simp, hsome⟩
  rw [shortest, hd]
  exact readsAs_of_findSome? hd

end WidgetLint.Number
