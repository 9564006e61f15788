import WidgetLint.Proofs.Number.Shortest
import WidgetLint.Proofs.Script.Words

/-!
# Reading printed numerals

A double that is not negative is written by its digits alone or by its shortest decimal in
positional form. Either is read as the same double (`scanNumber_double`), if no character follows
that could belong to a numeral.
-/

namespace WidgetLint.Script

open Text Number

variable {rest : List Char}

/-! ## Digits -/

theorem digit?_of_isDigit {c : Char} (h : c.isDigit = true) : digit? 10 c = some (c.toNat - 48) := by
  have hrange : 48 ≤ c.toNat ∧ c.toNat ≤ 57 := Char.isDigit_iff_toNat.1 h
  have hsmall : c.toNat - 48 < 10 := by omega
  simp [digit?, h, Option.filter, hsmall]

theorem numeralValue_eq {cs : List Char} (h : ∀ c ∈ cs, c.isDigit = true) :
    numeralValue 10 cs = Nat.ofDigitChars 10 cs 0 := by
  have hvalues : digitValues 10 cs = cs.map fun c => c.toNat - 48 := by
    induction cs with
    | nil => rfl
    | cons c cs ih =>
      obtain ⟨hc, hcs⟩ := List.forall_mem_cons.1 h
      have hrest : cs.filterMap (digit? 10) = _ := ih hcs
      rw [digitValues, List.filterMap_cons_some (digit?_of_isDigit hc), hrest, List.map_cons]
  rw [numeralValue, hvalues, List.foldl_map, Nat.ofDigitChars]
  simp only [Nat.mul_comm]
  rfl

theorem numeralValue_toDigits (n : Nat) : numeralValue 10 (Nat.toDigits 10 n) = n := by
  rw [numeralValue_eq fun c hc => Nat.isDigit_of_mem_toDigits (by decide) (by decide) hc,
    Nat.ofDigitChars_toDigits (by decide) (by decide)]

theorem numeralValue_append (cs ds : List Char) :
    numeralValue 10 (cs ++ ds) =
      (digitValues 10 ds).foldl (fun n d => n * 10 + d) (numeralValue 10 cs) := by
  simp [numeralValue, digitValues]

theorem digitValues_zeros (k : Nat) : digitValues 10 (List.replicate k '0') = List.replicate k 0 := by
  induction k with
  | zero => rfl
  | succ k ih =>
    rw [List.replicate_succ, List.replicate_succ, ← ih]
    rfl

theorem foldl_zeros (k n : Nat) :
    (List.replicate k 0).foldl (fun n d => n * 10 + d) n = n * tenTo k := by
  induction k generalizing n with
  | zero => simp [tenTo]
  | succ k ih =>
    rw [List.replicate_succ, List.foldl_cons, ih, Nat.add_zero, Nat.mul_assoc, Nat.add_comm k 1, tenTo_add]
    rfl

theorem numeralValue_append_zeros (cs : List Char) (k : Nat) :
    numeralValue 10 (cs ++ List.replicate k '0') = numeralValue 10 cs * tenTo k := by
  rw [numeralValue_append, digitValues_zeros, foldl_zeros]

theorem numeralValue_zeros_append (cs : List Char) (k : Nat) :
    numeralValue 10 (List.replicate k '0' ++ cs) = numeralValue 10 cs := by
  have hzeros : numeralValue 10 (List.replicate k '0') = 0 := by
    rw [numeralValue, digitValues_zeros, foldl_zeros, Nat.zero_mul]
  rw [numeralValue_append, hzeros]
  rfl

theorem head_toDigits {n : Nat} (hn : n ≠ 0) : (Nat.toDigits 10 n).head? ≠ some '0' := by
  induction n using Nat.strongRecOn with
  | ind n ih =>
    by_cases hsmall : n < 10
    · have hall : ∀ n : Nat, n < 10 → n ≠ 0 → [n.digitChar].head? ≠ some '0' := by decide
      rw [Nat.toDigits_of_lt_base hsmall]
      exact hall n hsmall hn
    · have hfront := ih (n / 10) (by omega) (by omega)
      rw [Nat.toDigits_of_base_le (by decide) (by omega), List.head?_append]
      cases hdigits : Nat.toDigits 10 (n / 10) with
      | nil => exact absurd hdigits Nat.toDigits_ne_nil
      | cons c cs =>
        rw [hdigits] at hfront
        exact hfront

/-! ## Decimal numerals -/

/-- Whether a numeral ends before the characters. -/
def EndsNumeral (rest : List Char) : Prop :=
  ∀ c ∈ rest.head?, c.isDigit = false ∧ c ≠ '.' ∧ isWordStart c = false

theorem exponentPart_none (h : EndsNumeral rest) : exponentPart rest = (0, some 0) := by
  cases rest with
  | nil => rfl
  | cons c rest =>
    have hstart := (h c rfl).2.2
    have hsmall : c ≠ 'e' := by
      rintro rfl
      exact absurd hstart (by simp [isWordStart_ascii])
    have hlarge : c ≠ 'E' := by
      rintro rfl
      exact absurd hstart (by simp [isWordStart_ascii])
    simp [exponentPart, hsmall, hlarge]

theorem takeWhile_digits {digits : List Char} (h : ∀ c ∈ digits, c.isDigit = true)
    (hend : ∀ c ∈ rest.head?, c.isDigit = false) :
    (digits ++ rest).takeWhile Char.isDigit = digits := by
  rw [List.takeWhile_append_of_pos h]
  cases rest with
  | nil => simp
  | cons c rest => rw [List.takeWhile_cons_of_neg (by simp [hend c rfl]), List.append_nil]

theorem scanDecimal_whole {whole : List Char} (hwhole : ∀ c ∈ whole, c.isDigit = true)
    (hoctal : isLegacyOctal whole = false) (hend : EndsNumeral rest) :
    scanDecimal (whole ++ rest) = .ok (Decimal.toBinary64 ⟨numeralValue 10 whole, 0⟩) whole.length := by
  have hnone : fractionPart rest = ([], 0) := by
    cases rest with
    | nil => rfl
    | cons c rest =>
      have hpoint := (hend c rfl).2.1
      unfold fractionPart
      split
      · rename_i heq
        cases heq
        exact absurd rfl hpoint
      · rfl
  rw [scanDecimal, takeWhile_digits hwhole fun c hc => (hend c hc).1]
  simp [hnone, exponentPart_none hend, hoctal]

theorem scanDecimal_point {whole fraction : List Char} (hwhole : ∀ c ∈ whole, c.isDigit = true)
    (hfraction : ∀ c ∈ fraction, c.isDigit = true) (hend : EndsNumeral rest) :
    scanDecimal (whole ++ '.' :: fraction ++ rest) =
      .ok (Decimal.toBinary64 ⟨numeralValue 10 (whole ++ fraction), -fraction.length⟩)
        (whole.length + (fraction.length + 1)) := by
  have hpart : fractionPart ('.' :: (fraction ++ rest)) = (fraction, fraction.length + 1) := by
    rw [fractionPart, takeWhile_digits hfraction fun c hc => (hend c hc).1]
  have hdigits : (whole ++ '.' :: (fraction ++ rest)).takeWhile Char.isDigit = whole :=
    takeWhile_digits hwhole (by rintro c ⟨⟩; decide)
  have hdrop : (whole ++ '.' :: (fraction ++ rest)).drop (whole.length + (fraction.length + 1)) =
      rest := by
    rw [← List.drop_drop]
    simp
  rw [List.append_assoc, List.cons_append, scanDecimal, hdigits]
  simp [hpart, hdrop, exponentPart_none hend]

theorem announcedRadix?_none {cs : List Char} (h : ∀ c ∈ cs.tail.head?, isWordStart c = false) :
    announcedRadix? cs = none := by
  unfold announcedRadix?
  split <;> first | rfl | exact absurd (h _ rfl) (by simp [isWordStart_ascii])

theorem scanNumber_of_scanDecimal {numeral : List Char} {value : Binary64} (hne : numeral ≠ [])
    (hnumeral : ∀ c ∈ numeral, isWordStart c = false) (hend : EndsNumeral rest)
    (h : scanDecimal (numeral ++ rest) = .ok value numeral.length) :
    scanNumber (numeral ++ rest) = .ok value numeral.length := by
  have hsecond : ∀ c ∈ (numeral ++ rest).tail.head?, isWordStart c = false := by
    match numeral, hne with
    | [_], _ => exact fun c hc => (hend c hc).2.2
    | _ :: d :: _, _ =>
      rintro c ⟨⟩
      exact hnumeral _ (by simp)
  have hnext : ((numeral ++ rest)[numeral.length]?).any isWordStart = false := by
    rw [List.getElem?_append_right (Nat.le_refl _), Nat.sub_self]
    cases rest with
    | nil => rfl
    | cons c rest => exact (hend c rfl).2.2
  rw [scanNumber, announcedRadix?_none hsecond]
  simp only [h, hnext, Bool.false_eq_true, if_false]

theorem isDigit_of_mem_toDigits {n : Nat} : ∀ c ∈ Nat.toDigits 10 n, c.isDigit = true :=
  fun _ hc => Nat.isDigit_of_mem_toDigits (by decide) (by decide) hc

theorem isDigit_of_mem_zeros {k : Nat} : ∀ c ∈ List.replicate k '0', c.isDigit = true := by
  intro c hc
  rw [List.eq_of_mem_replicate hc]
  decide

theorem isLegacyOctal_of_head {whole : List Char} (h : whole.head? ≠ some '0') :
    isLegacyOctal whole = false := by
  simp [isLegacyOctal, h]

theorem scanNumber_whole {whole : List Char} (hne : whole ≠ [])
    (hwhole : ∀ c ∈ whole, c.isDigit = true) (hoctal : isLegacyOctal whole = false)
    (hend : EndsNumeral rest) :
    scanNumber (whole ++ rest) =
      .ok (Decimal.toBinary64 ⟨numeralValue 10 whole, 0⟩) whole.length :=
  scanNumber_of_scanDecimal hne (fun c hc => isWordStart_of_isDigit (hwhole c hc)) hend
    (scanDecimal_whole hwhole hoctal hend)

theorem scanNumber_point {whole fraction : List Char} (hwhole : ∀ c ∈ whole, c.isDigit = true)
    (hfraction : ∀ c ∈ fraction, c.isDigit = true) (hend : EndsNumeral rest) :
    scanNumber (whole ++ '.' :: fraction ++ rest) =
      .ok (Decimal.toBinary64 ⟨numeralValue 10 (whole ++ fraction), -fraction.length⟩)
        (whole ++ '.' :: fraction).length := by
  refine scanNumber_of_scanDecimal (by simp) ?_ hend ?_
  · simp only [List.mem_append, List.mem_cons]
    rintro c (hc | rfl | hc)
    · exact isWordStart_of_isDigit (hwhole c hc)
    · simp [isWordStart_ascii]
    · exact isWordStart_of_isDigit (hfraction c hc)
  · rw [scanDecimal_point hwhole hfraction hend]
    simp

theorem scanNumber_toDigits (n : Nat) (hend : EndsNumeral rest) :
    scanNumber (Nat.toDigits 10 n ++ rest) =
      .ok (Decimal.toBinary64 ⟨n, 0⟩) (Nat.toDigits 10 n).length := by
  have hoctal : isLegacyOctal (Nat.toDigits 10 n) = false := by
    by_cases hn : n = 0
    · subst hn
      decide
    · exact isLegacyOctal_of_head (head_toDigits hn)
  rw [scanNumber_whole Nat.toDigits_ne_nil isDigit_of_mem_toDigits hoctal hend,
    numeralValue_toDigits]

theorem scanNumber_render {d : Decimal} (hd : d.coefficient ≠ 0) (hend : EndsNumeral rest) :
    scanNumber (d.render.toList ++ rest) = .ok d.toBinary64 d.render.toList.length := by
  obtain ⟨c, e⟩ := d
  unfold Decimal.render
  dsimp only at hd ⊢
  split_ifs with hwhole hpoint
  · have hdigits : ∀ x ∈ Nat.toDigits 10 c ++ List.replicate e.toNat '0', x.isDigit = true :=
      List.forall_mem_append.2 ⟨isDigit_of_mem_toDigits, isDigit_of_mem_zeros⟩
    have hhead : (Nat.toDigits 10 c ++ List.replicate e.toNat '0').head? ≠ some '0' := by
      have hfirst := head_toDigits hd
      rw [List.head?_append]
      cases hc : Nat.toDigits 10 c with
      | nil => exact absurd hc Nat.toDigits_ne_nil
      | cons x xs =>
        rw [hc] at hfirst
        exact hfirst
    have hshift := Decimal.toBinary64_shift c e.toNat 0
    rw [zero_add, Int.toNat_of_nonneg hwhole] at hshift
    rw [String.toList_ofList, scanNumber_whole (by simp [Nat.toDigits_ne_nil]) hdigits
      (isLegacyOctal_of_head hhead) hend, numeralValue_append_zeros, numeralValue_toDigits, hshift]
  · have htake : ∀ x ∈ (Nat.toDigits 10 c).take ((Nat.toDigits 10 c).length + e).toNat,
        x.isDigit = true := fun x hx => isDigit_of_mem_toDigits x (List.mem_of_mem_take hx)
    have hdrop : ∀ x ∈ (Nat.toDigits 10 c).drop ((Nat.toDigits 10 c).length + e).toNat,
        x.isDigit = true := fun x hx => isDigit_of_mem_toDigits x (List.mem_of_mem_drop hx)
    have hexponent : -(((Nat.toDigits 10 c).drop ((Nat.toDigits 10 c).length + e).toNat).length : Int)
        = e := by
      rw [List.length_drop]
      omega
    rw [String.toList_ofList, scanNumber_point htake hdrop hend, List.take_append_drop,
      numeralValue_toDigits, hexponent]
  · have hzero : ∀ x ∈ ['0'], x.isDigit = true := List.forall_mem_singleton.2 rfl
    have hdigits : ∀ x ∈ List.replicate (-((Nat.toDigits 10 c).length + e)).toNat '0' ++
        Nat.toDigits 10 c, x.isDigit = true :=
      List.forall_mem_append.2 ⟨isDigit_of_mem_zeros, isDigit_of_mem_toDigits⟩
    have hvalue : numeralValue 10 (['0'] ++
        (List.replicate (-((Nat.toDigits 10 c).length + e)).toNat '0' ++ Nat.toDigits 10 c)) = c := by
      have hzeros := numeralValue_zeros_append (Nat.toDigits 10 c)
        ((-((Nat.toDigits 10 c).length + e)).toNat + 1)
      rw [List.replicate_succ, List.cons_append, numeralValue_toDigits] at hzeros
      exact hzeros
    have hexponent : -((List.replicate (-((Nat.toDigits 10 c).length + e)).toNat '0' ++
        Nat.toDigits 10 c).length : Int) = e := by
      rw [List.length_append, List.length_replicate]
      omega
    have hread := scanNumber_point hzero hdigits hend
    rw [hvalue, hexponent] at hread
    rw [String.toList_ofList]
    exact hread

/-! ## Doubles -/

theorem isDouble_whole {n : Nat} (h : n < 2 ^ 53) : IsDouble (n * unitsPerOne) := by
  rcases Nat.eq_zero_or_pos n with rfl | hpos
  · exact ⟨0, 0, by simp, by decide, .inl rfl⟩
  · have hlog : n.log2 < 53 := (Nat.log2_lt hpos.ne').2 h
    have hlow := Nat.log2_self_le hpos.ne'
    have hhigh : n < 2 ^ (n.log2 + 1) := Nat.lt_log2_self
    have hsplit : 2 ^ (52 - n.log2) * 2 ^ n.log2 = 2 ^ 52 := by
      rw [← Nat.pow_add]
      congr 1
      omega
    refine ⟨n * 2 ^ (52 - n.log2), 1074 - (52 - n.log2), ?_, ?_, .inr ?_⟩
    · have hplaces : 1074 = (52 - n.log2) + (1074 - (52 - n.log2)) := by omega
      have hunits : unitsPerOne = 2 ^ (52 - n.log2) * 2 ^ (1074 - (52 - n.log2)) :=
        (congrArg twoTo hplaces).trans (Nat.pow_add 2 _ _)
      rw [hunits, Nat.mul_assoc]
    · calc n * 2 ^ (52 - n.log2) < 2 ^ (n.log2 + 1) * 2 ^ (52 - n.log2) :=
            Nat.mul_lt_mul_of_pos_right hhigh (Nat.two_pow_pos _)
        _ = 2 ^ 53 := by
          rw [← Nat.pow_add]
          congr 1
          omega
    · calc 2 ^ 52 = 2 ^ n.log2 * 2 ^ (52 - n.log2) := by rw [← hsplit, Nat.mul_comm]
        _ ≤ n * 2 ^ (52 - n.log2) := Nat.mul_le_mul_right _ hlow

theorem mul_twoTo_lt {n j : Nat} (h : n < 2 ^ j) (k : Nat) : n * twoTo k < twoTo (j + k) :=
  calc n * twoTo k < 2 ^ j * twoTo k := Nat.mul_lt_mul_of_pos_right h (twoTo_pos k)
    _ = twoTo (j + k) := (Nat.pow_add 2 j k).symm

theorem twoTo_le {j k : Nat} (h : j ≤ k) : twoTo j ≤ twoTo k :=
  Nat.pow_le_pow_right (by decide) h

theorem whole_lt_unitsLimit {n : Nat} (h : n < 2 ^ 53) : n * unitsPerOne < unitsLimit :=
  Nat.lt_of_lt_of_le (mul_twoTo_lt h 1074) (twoTo_le (by decide))

theorem ofNat_whole {n : Nat} (h : n < 2 ^ 53) :
    Binary64.ofNat n = .finite false (n * unitsPerOne) := by
  rcases Nat.eq_zero_or_pos n with rfl | hpos
  · rw [Binary64.ofNat, Nat.zero_mul]
    decide +kernel
  · have hunits := Nat.mul_pos hpos unitsPerOne_pos
    refine ofUnits_of_near (isDouble_whole h) (whole_lt_unitsLimit h) ?_ ?_ <;> omega

theorem toBinary64_whole {n : Nat} (hn : n < tenTo 15) (hdouble : IsDouble (n * unitsPerOne))
    (hlimit : n * unitsPerOne < unitsLimit) :
    Decimal.toBinary64 ⟨n, 0⟩ = .finite false (n * unitsPerOne) := by
  rcases Nat.eq_zero_or_pos n with rfl | hpos
  · simp [Decimal.toBinary64, Binary64.zero]
  · have hlength : decimalLength n ≤ 15 := (decimalLength_le (by decide)).2 hn
    have hround : Binary64.ofUnits (n * unitsPerOne) 1 = .finite false (n * unitsPerOne) := by
      have hunits := Nat.mul_pos hpos unitsPerOne_pos
      refine ofUnits_of_near hdouble hlimit ?_ ?_ <;> omega
    have hlow : ¬310 < (decimalLength n : Int) := by omega
    have hhigh : ¬(decimalLength n : Int) < -330 := by omega
    simp [Decimal.toBinary64, hpos.ne', hlow, hhigh, tenTo, hround]

theorem Binary64.toList_render (units : Nat) : (Binary64.finite false units).render.toList =
    if units % unitsPerOne = 0 ∧ units / unitsPerOne < tenTo 15 then
      Nat.toDigits 10 (units / unitsPerOne)
    else (shortest units).render.toList := by
  have hdigits (n : Nat) : (toString n).toList = Nat.toDigits 10 n := by
    simp [Nat.repr_eq_ofList_toDigits]
  by_cases hwhole : units % unitsPerOne = 0 ∧ units / unitsPerOne < tenTo 15
  · rw [if_pos hwhole, ← hdigits]
    simp [Binary64.render, hwhole.1, hwhole.2]
  · rw [if_neg hwhole]
    simp [Binary64.render, hwhole]

theorem scanNumber_double {units : Nat} (hdouble : IsDouble units) (hlimit : units < unitsLimit)
    (hend : EndsNumeral rest) :
    scanNumber ((Binary64.finite false units).render.toList ++ rest) =
      .ok (.finite false units) (Binary64.finite false units).render.toList.length := by
  rw [Binary64.toList_render]
  split_ifs with hwhole
  · have hunits := Nat.div_mul_cancel (Nat.dvd_of_mod_eq_zero hwhole.1)
    have hvalue := toBinary64_whole hwhole.2 (hunits.symm ▸ hdouble) (hunits.symm ▸ hlimit)
    rw [scanNumber_toDigits _ hend, hvalue, hunits]
  · have hpos : 0 < units := by
      rcases Nat.eq_zero_or_pos units with rfl | hpos
      · exact absurd ⟨Nat.zero_mod _, by rw [Nat.zero_div]; exact tenTo_pos 15⟩ hwhole
      · exact hpos
    have hvalue := shortest_readsAs hdouble hpos hlimit
    have hcoefficient : (shortest units).coefficient ≠ 0 := by
      intro hzero
      rw [Decimal.toBinary64, if_pos hzero] at hvalue
      injection hvalue with _ hunits
      omega
    rw [scanNumber_render hcoefficient hend, hvalue]

theorem toDigits_eq_cons (n : Nat) : ∃ c cs, Nat.toDigits 10 n = c :: cs ∧ c.isDigit = true := by
  cases h : Nat.toDigits 10 n with
  | nil => exact absurd h Nat.toDigits_ne_nil
  | cons c cs => exact ⟨c, cs, rfl, isDigit_of_mem_toDigits c (by rw [h]; simp)⟩

theorem Decimal.render_eq_cons (d : Decimal) :
    ∃ c cs, d.render.toList = c :: cs ∧ c.isDigit = true := by
  obtain ⟨c, cs, hdigits, hc⟩ := toDigits_eq_cons d.coefficient
  unfold Decimal.render
  dsimp only
  split_ifs with hwhole hpoint
  · rw [String.toList_ofList, hdigits]
    exact ⟨c, _, rfl, hc⟩
  · obtain ⟨k, hk⟩ : ∃ k, ((Nat.toDigits 10 d.coefficient).length + d.exponent).toNat = k + 1 :=
      ⟨((Nat.toDigits 10 d.coefficient).length + d.exponent).toNat - 1, by omega⟩
    rw [String.toList_ofList, hk, hdigits, List.take_succ_cons]
    exact ⟨c, _, rfl, hc⟩
  · rw [String.toList_ofList]
    exact ⟨'0', _, rfl, by decide⟩

theorem Binary64.render_eq_cons (units : Nat) :
    ∃ c cs, (Binary64.finite false units).render.toList = c :: cs ∧ c.isDigit = true := by
  rw [Binary64.toList_render]
  split_ifs
  · exact toDigits_eq_cons _
  · exact Decimal.render_eq_cons _

end WidgetLint.Script
