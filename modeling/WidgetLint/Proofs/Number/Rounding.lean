import Mathlib.Tactic.Linarith
import Mathlib.Tactic.Ring
import WidgetLint.Number.Binary64

/-!
# Rounding to doubles

Rounding a fraction of units always gives a double (`roundPlaces_isDouble`), and a fraction whose
distance from a double is less than 2^-54 of it is rounded to that double (`roundPlaces_of_near`).
-/

namespace WidgetLint.Number

/-- Whether a number of units is a whole number of at most 53 binary places, up to a power of two
that is as small as possible. -/
def IsDouble (units : Nat) : Prop :=
  ∃ m k, units = m * 2 ^ k ∧ m < 2 ^ 53 ∧ (k = 0 ∨ 2 ^ 52 ≤ m)

variable {num den q units : Nat}

/-! ## Rounded quotients -/

theorem roundDiv_cases (num den : Nat) :
    roundDiv num den = num / den ∨ roundDiv num den = num / den + 1 := by
  unfold roundDiv
  dsimp only
  split_ifs
  · exact .inl rfl
  · exact .inr rfl
  · exact .inl rfl
  · exact .inr rfl

theorem roundDiv_of_near (hlow : 2 * q * den < 2 * num + den)
    (hhigh : 2 * num < (2 * q + 1) * den) : roundDiv num den = q := by
  have hden : 0 < den := by
    rcases Nat.eq_zero_or_pos den with rfl | h
    · omega
    · exact h
  have hsplit := Nat.div_add_mod num den
  have hrest := Nat.mod_lt num hden
  unfold roundDiv
  dsimp only
  generalize num / den = quotient at *
  generalize num % den = rest at *
  subst hsplit
  have hbelow : 2 * q < 2 * quotient + 3 := by
    by_contra h
    have := Nat.mul_le_mul_right den (Nat.not_lt.1 h)
    nlinarith
  have habove : 2 * quotient < 2 * q + 1 := by
    by_contra h
    have := Nat.mul_le_mul_right den (Nat.not_lt.1 h)
    nlinarith
  rcases (by omega : q = quotient ∨ q = quotient + 1) with rfl | rfl
  · rw [if_pos (by nlinarith)]
  · rw [if_neg (by nlinarith), if_pos (by nlinarith)]

theorem roundDiv_mul_right {t : Nat} (ht : 0 < t) (num den : Nat) :
    roundDiv (num * t) (den * t) = roundDiv num den := by
  have hrest : num * t % (den * t) = num % den * t := Nat.mul_mod_mul_right t num den
  have hcancel (a b : Nat) : 2 * (a * t) < b * t ↔ 2 * a < b := by
    rw [← Nat.mul_assoc, Nat.mul_lt_mul_right ht]
  have hcancel' (a b : Nat) : b * t < 2 * (a * t) ↔ b < 2 * a := by
    rw [← Nat.mul_assoc, Nat.mul_lt_mul_right ht]
  simp only [roundDiv, Nat.mul_div_mul_right _ _ ht, hrest, hcancel, hcancel']

theorem roundPlaces_mul_right {t : Nat} (ht : 0 < t) (num den : Nat) :
    roundPlaces (num * t) (den * t) = roundPlaces num den := by
  unfold roundPlaces
  dsimp only
  rw [Nat.mul_div_mul_right _ _ ht, Nat.mul_right_comm, roundDiv_mul_right ht]

/-! ## Binary places -/

theorem surplusPlaces_of_lt {n : Nat} (h : n < 2 ^ 53) : surplusPlaces n = 0 := by
  have hlog : n.log2 < 53 := by
    rcases Nat.eq_zero_or_pos n with rfl | hpos
    · decide
    · exact (Nat.log2_lt (Nat.pos_iff_ne_zero.1 hpos)).2 h
  unfold surplusPlaces
  omega

theorem surplusPlaces_of_bounds {n k : Nat} (hlow : 2 ^ (52 + k) ≤ n) (hhigh : n < 2 ^ (53 + k)) :
    surplusPlaces n = k := by
  have hpos : 0 < n := Nat.lt_of_lt_of_le (Nat.two_pow_pos _) hlow
  have hne := Nat.pos_iff_ne_zero.1 hpos
  have hge : 52 + k ≤ n.log2 := (Nat.le_log2 hne).2 hlow
  have hlt : n.log2 < 53 + k := (Nat.log2_lt hne).2 hhigh
  unfold surplusPlaces
  omega

theorem roundPlaces_isDouble (num den : Nat) : IsDouble (roundPlaces num den) := by
  unfold roundPlaces
  dsimp only
  have hfloor (k : Nat) : num / (den * twoTo k) = num / den / 2 ^ k :=
    (Nat.div_div_eq_div_mul num den (2 ^ k)).symm
  generalize hn : num / den = n at hfloor
  rcases Nat.lt_or_ge n (2 ^ 53) with hsmall | hlarge
  · rw [surplusPlaces_of_lt hsmall]
    have hcases := roundDiv_cases num (den * twoTo 0)
    rw [hfloor 0, Nat.pow_zero, Nat.div_one] at hcases
    generalize roundDiv num (den * twoTo 0) = r at hcases
    rcases Nat.lt_or_ge r (2 ^ 53) with hr | hr
    · exact ⟨r, 0, rfl, hr, .inl rfl⟩
    · have hr : r = 2 ^ 53 := by omega
      exact ⟨2 ^ 52, 1, by rw [hr]; rfl, by decide, .inr (Nat.le_refl _)⟩
  · -- the number of surplus places is such that 53 places remain before the point
    have hne : n ≠ 0 := by
      rintro rfl
      exact absurd hlarge (by decide)
    obtain ⟨k, hk⟩ : ∃ k, n.log2 = 52 + k :=
      Nat.exists_eq_add_of_le (Nat.le_of_succ_le ((Nat.le_log2 hne).2 hlarge))
    have hlow : 2 ^ (52 + k) ≤ n := hk ▸ Nat.log2_self_le hne
    have hhigh : n < 2 ^ (53 + k) := by
      have := Nat.lt_log2_self (n := n)
      rwa [hk, show 52 + k + 1 = 53 + k by omega] at this
    rw [surplusPlaces_of_bounds hlow hhigh]
    have hge : 2 ^ 52 ≤ n / 2 ^ k := by
      rw [Nat.le_div_iff_mul_le (Nat.two_pow_pos k), ← Nat.pow_add]
      exact hlow
    have hlt : n / 2 ^ k < 2 ^ 53 := by
      rw [Nat.div_lt_iff_lt_mul (Nat.two_pow_pos k), ← Nat.pow_add]
      exact hhigh
    have hcases := roundDiv_cases num (den * twoTo k)
    rw [hfloor k] at hcases
    generalize roundDiv num (den * twoTo k) = r at hcases
    rcases Nat.lt_or_ge r (2 ^ 53) with hr | hr
    · exact ⟨r, k, rfl, hr, .inr (by omega)⟩
    · have hr : r = 2 ^ 52 * 2 := by omega
      refine ⟨2 ^ 52, k + 1, ?_, by decide, .inr (Nat.le_refl _)⟩
      have htwo : twoTo k = 2 ^ k := rfl
      rw [hr, htwo, Nat.mul_assoc, pow_succ' 2 k]

/-- A fraction is rounded with `k` surplus places if it lies in the range that has them. -/
theorem roundPlaces_eq {k m : Nat} (hden : 0 < den) (hlow : k = 0 ∨ 2 ^ (52 + k) * den ≤ num)
    (hhigh : num < 2 ^ (53 + k) * den) (hround : roundDiv num (den * 2 ^ k) = m) :
    roundPlaces num den = m * 2 ^ k := by
  have hhigh : num / den < 2 ^ (53 + k) := (Nat.div_lt_iff_lt_mul hden).2 hhigh
  have hplaces : surplusPlaces (num / den) = k := by
    rcases hlow with rfl | hlow
    · exact surplusPlaces_of_lt hhigh
    · exact surplusPlaces_of_bounds ((Nat.le_div_iff_mul_le hden).2 hlow) hhigh
  unfold roundPlaces
  dsimp only
  rw [hplaces]
  exact congrArg (· * 2 ^ k) hround

theorem roundPlaces_of_near (hdouble : IsDouble units)
    (hlow : 2 ^ 54 * (units * den) < 2 ^ 54 * num + units * den)
    (hhigh : 2 ^ 54 * num < 2 ^ 54 * (units * den) + units * den) :
    roundPlaces num den = units := by
  obtain ⟨m, k, rfl, hm, hk⟩ := hdouble
  have hden : 0 < den := by
    rcases Nat.eq_zero_or_pos den with rfl | h
    · simp at hlow
      omega
    · exact h
  -- one place of the double, in the scale of the fraction
  obtain ⟨place, hplace⟩ : ∃ place, place = 2 ^ k * den := ⟨_, rfl⟩
  have hunits : m * 2 ^ k * den = m * place := by rw [hplace, Nat.mul_assoc]
  have hplacePos : 0 < place := hplace ▸ Nat.mul_pos (Nat.two_pow_pos k) hden
  rw [hunits] at hlow hhigh
  have hmplace : m * place < 2 ^ 53 * place := Nat.mul_lt_mul_of_pos_right hm hplacePos
  have hbelow : 2 * m * place < 2 * num + place := by nlinarith
  have habove : 2 * num < (2 * m + 1) * place := by nlinarith
  have hnum : num < 2 ^ (53 + k) * den := by
    rw [Nat.pow_add, Nat.mul_assoc, ← hplace]
    have hm' : (2 * m + 1) * place < 2 * 2 ^ 53 * place :=
      Nat.mul_lt_mul_of_pos_right (by omega) hplacePos
    nlinarith
  by_cases hrange : k = 0 ∨ 2 ^ (52 + k) * den ≤ num
  · refine roundPlaces_eq hden hrange hnum (roundDiv_of_near ?_ ?_)
    · rwa [Nat.mul_comm den, ← hplace]
    · rwa [Nat.mul_comm den, ← hplace]
  · -- the fraction lies just below the power of two that the double is
    obtain ⟨hk0, hnum'⟩ := not_or.1 hrange
    obtain ⟨j, rfl⟩ := Nat.exists_eq_succ_of_ne_zero hk0
    have hm52 := hk.resolve_left hk0
    obtain ⟨half, hhalf⟩ : ∃ half, half = 2 ^ j * den := ⟨_, rfl⟩
    have hplaceHalf : place = 2 * half := by
      rw [hplace, hhalf, Nat.pow_succ]
      ring
    have hhalfPos : 0 < half := by omega
    have hnum' : num < 2 ^ 52 * place := by
      have := Nat.not_le.1 hnum'
      rwa [Nat.pow_add, Nat.mul_assoc, ← hplace] at this
    have hm : m = 2 ^ 52 := by
      by_contra hne
      have hm : (2 ^ 52 + 1) * place ≤ m * place := Nat.mul_le_mul_right place (by omega)
      nlinarith
    subst hm
    subst hplaceHalf
    have hround : roundDiv num (den * 2 ^ j) = 2 ^ 53 := by
      rw [Nat.mul_comm den, ← hhalf]
      refine roundDiv_of_near ?_ ?_
      · omega
      · omega
    have hdone := roundPlaces_eq (k := j) hden (.inr ?_) ?_ hround
    · rw [hdone, Nat.succ_eq_add_one, pow_succ' 2 j]
      ring
    · rw [Nat.pow_add, Nat.mul_assoc, ← hhalf]
      omega
    · rw [Nat.pow_add, Nat.mul_assoc, ← hhalf]
      omega

end WidgetLint.Number
