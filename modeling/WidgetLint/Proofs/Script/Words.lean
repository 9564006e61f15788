import Mathlib.Tactic.Tauto
import WidgetLint.Script.Printer

/-!
# Characters of words

The tables of code points leave out some stretches (`bareStretches`), ASCII among them, so the class
of an ASCII character is read off its letters and digits (`isWordStart_ascii`, `isWordPart_ascii`).
White space lies in these stretches, and neither it nor a digit begins a word.
-/

namespace WidgetLint.Text

/-- A character between two code points is in none of the ranges that lie below or above both. -/
theorem inRanges_of_apart {table : List CodeRange} {low high : Nat} {c : Char}
    (hapart : ∀ r ∈ table, r.2 < low ∨ high < r.1) (hlow : low ≤ c.toNat) (hhigh : c.toNat ≤ high) :
    inRanges table c = false := by
  refine List.any_eq_false.2 fun r hr => ?_
  have hrange := hapart r hr
  simp only [Bool.and_eq_true, decide_eq_true_eq, not_and]
  omega

/-- Stretches of code points that the tables leave out. All white space is in them. -/
def bareStretches : List CodeRange :=
  [(0, 0xa0), (0x1680, 0x1680), (0x2000, 0x206f), (0x3000, 0x3000)]

theorem inRanges_of_bareStretch {stretch : CodeRange} (hmem : stretch ∈ bareStretches) {c : Char}
    (hlow : stretch.1 ≤ c.toNat) (hhigh : c.toNat ≤ stretch.2) :
    inRanges alphabeticRanges c = false ∧ inRanges numericRanges c = false := by
  have hapart : ∀ s ∈ bareStretches, ∀ r ∈ alphabeticRanges ++ numericRanges,
      r.2 < s.1 ∨ s.2 < r.1 := by
    decide +kernel
  constructor
  · exact inRanges_of_apart (fun r hr => hapart _ hmem r (List.mem_append_left _ hr)) hlow hhigh
  · exact inRanges_of_apart (fun r hr => hapart _ hmem r (List.mem_append_right _ hr)) hlow hhigh

theorem isAlphanumeric_of_bareStretch {stretch : CodeRange} (hmem : stretch ∈ bareStretches)
    {c : Char} (hlow : stretch.1 ≤ c.toNat) (hhigh : c.toNat ≤ stretch.2) :
    isAlphanumeric c = c.isAlphanum := by
  obtain ⟨hletter, hnumber⟩ := inRanges_of_bareStretch hmem hlow hhigh
  rw [isAlphanumeric, isAlphabetic, isNumeric, hletter, hnumber, Bool.or_false, Bool.or_false,
    Char.isAlphanum]

theorem isAlphabetic_ascii {c : Char} (h : c.toNat < 128) : isAlphabetic c = c.isAlpha := by
  have hmem : (0, 0xa0) ∈ bareStretches := by decide
  rw [isAlphabetic, (inRanges_of_bareStretch hmem (Nat.zero_le _) (by omega)).1, Bool.or_false]

end WidgetLint.Text

namespace WidgetLint.Script

open Text

/-! ## ASCII -/

theorem isWordStart_ascii {c : Char} (h : c.toNat < 128) :
    isWordStart c = (c.isAlpha || c == '_' || c == '$') := by
  rw [isWordStart, isAlphabetic_ascii h]

theorem isWordPart_ascii {c : Char} (h : c.toNat < 128) :
    isWordPart c = (c.isAlphanum || c == '_' || c == '$') := by
  have hnonjoiner : (c == '\u200c') = false := by
    rw [beq_eq_false_iff_ne]
    rintro rfl
    exact absurd h (by decide)
  have hjoiner : (c == '\u200d') = false := by
    rw [beq_eq_false_iff_ne]
    rintro rfl
    exact absurd h (by decide)
  have hmem : (0, 0xa0) ∈ bareStretches := by decide
  rw [isWordPart, isAlphanumeric_of_bareStretch hmem (Nat.zero_le _) (by omega), hnonjoiner,
    hjoiner, Bool.or_false, Bool.or_false]

theorem isWordStart_of_isDigit {c : Char} (h : c.isDigit = true) : isWordStart c = false := by
  have hrange : 48 ≤ c.toNat ∧ c.toNat ≤ 57 := Char.isDigit_iff_toNat.1 h
  have hall : ∀ n : Fin 58, 48 ≤ n.val →
      ((Char.ofNat n.val).isAlpha || Char.ofNat n.val == '_' || Char.ofNat n.val == '$') = false := by
    decide
  rw [isWordStart_ascii (by omega)]
  simpa using hall ⟨c.toNat, by omega⟩ hrange.1

/-! ## Classes of characters -/

theorem isWordPart_of_isWordStart {c : Char} (h : isWordStart c = true) : isWordPart c = true := by
  simp only [isWordStart, isWordPart, isAlphanumeric, Bool.or_eq_true] at h ⊢
  tauto

theorem isWordPart_of_isWhiteSpace {c : Char} (h : isWhiteSpace c = true) :
    isWordPart c = false := by
  simp only [isWhiteSpace, Bool.or_eq_true, Bool.and_eq_true, decide_eq_true_eq, beq_iff_eq] at h
  have hstretch : ∃ stretch ∈ bareStretches, stretch.1 ≤ c.toNat ∧ c.toNat ≤ stretch.2 := by
    simp only [bareStretches, List.mem_cons, List.not_mem_nil, or_false, exists_eq_or_imp,
      exists_eq_left]
    omega
  obtain ⟨stretch, hmem, hlow, hhigh⟩ := hstretch
  have halphanum : c.isAlphanum = false := by
    have hval : c.val.toNat = c.toNat := rfl
    unfold Char.isAlphanum Char.isAlpha Char.isUpper Char.isLower Char.isDigit
    simp only [UInt32.le_iff_toNat_le, ge_iff_le, Bool.or_eq_false_iff, Bool.and_eq_false_iff,
      decide_eq_false_iff_not]
    simp
    omega
  -- the other characters that may continue a word are no white space
  have hne (d : Char) (hd : isWhiteSpace d = false) : (c == d) = false := by
    rw [beq_eq_false_iff_ne]
    rintro rfl
    simp [isWhiteSpace] at hd
    omega
  rw [isWordPart, isAlphanumeric_of_bareStretch hmem hlow hhigh, halphanum, hne '_' rfl,
    hne '$' rfl, hne '\u200c' rfl, hne '\u200d' rfl]
  rfl

theorem ne_of_isWordStart {c d : Char} (hc : isWordStart c = true) (hd : isWordStart d = false) :
    c ≠ d := by
  rintro rfl
  exact Bool.false_ne_true (hd.symm.trans hc)

theorem isWordText_eq_cons {name : String} (h : isWordText name = true) :
    ∃ c cs, name.toList = c :: cs ∧ isWordStart c = true ∧ ∀ d ∈ c :: cs, isWordPart d = true := by
  unfold isWordText at h
  split at h
  · cases h
  · rename_i c cs hname
    rw [Bool.and_eq_true, List.all_eq_true] at h
    exact ⟨c, cs, hname, h.1,
      List.forall_mem_cons.2 ⟨isWordPart_of_isWordStart h.1, h.2⟩⟩

end WidgetLint.Script
