import WidgetLint.Proofs.Inset.Lines

/-!
# Tokens read from their slices

A token that was found at the beginning of a text is found there too if the text ends behind it
(`scanToken_slice`), so the slice of a text that a token takes says what the token is. A slice is the
spelling of one token only, wherever it stands (`Spells.unique`).
-/

namespace WidgetLint.Script

open Text Number

variable {as bs : List Char}

/-! ## Looking ahead -/

theorem takeWhile_slice (bs : List Char) {p : Char → Bool}
    (h : ((as ++ bs).takeWhile p).length ≤ as.length) :
    as.takeWhile p = (as ++ bs).takeWhile p := by
  rw [List.takeWhile_append] at h ⊢
  split
  · rename_i hall
    rw [if_pos hall, List.length_append] at h
    have hnil : bs.takeWhile p = [] := List.eq_nil_of_length_eq_zero (by omega)
    have hself : as.takeWhile p = as := (List.takeWhile_prefix p).eq_of_length hall
    rw [hnil, hself, List.append_nil]
  · rfl

/-! ## Numbers -/

theorem fractionPart_slice (h : (fractionPart (as ++ bs)).2 ≤ as.length) :
    fractionPart as = fractionPart (as ++ bs) := by
  cases as with
  | nil =>
    cases bs with
    | nil => rfl
    | cons c bs =>
      by_cases hc : c = '.'
      · subst hc
        simp [fractionPart] at h
      · simp [fractionPart, hc]
  | cons c as =>
    by_cases hc : c = '.'
    · subst hc
      simp only [List.cons_append, fractionPart, List.length_cons, Nat.add_le_add_iff_right] at h ⊢
      rw [takeWhile_slice bs h]
    · simp [fractionPart, hc]

theorem signPart_slice (h : (signPart (as ++ bs)).1 ≤ as.length) :
    signPart as = signPart (as ++ bs) := by
  cases as with
  | nil =>
    rw [List.nil_append] at h ⊢
    unfold signPart at h ⊢
    split at h
    · cases h
    · cases h
    · simp_all
  | cons c as =>
    unfold signPart
    split <;> simp_all

theorem exponentPart_slice (h : (exponentPart (as ++ bs)).1 ≤ as.length) :
    exponentPart as = exponentPart (as ++ bs) := by
  obtain _ | ⟨e, as⟩ := as
  · obtain _ | ⟨e, bs⟩ := bs
    · rfl
    · by_cases he : (e == 'e' || e == 'E') = true
      · rw [List.nil_append, exponentPart_cons he] at h
        simp only [List.length_nil] at h
        omega
      · simp [exponentPart, he]
  · by_cases he : (e == 'e' || e == 'E') = true
    · rw [List.cons_append, exponentPart_cons he (as ++ bs)] at h ⊢
      simp only [List.length_cons] at h
      have hsign : signPart as = signPart (as ++ bs) := signPart_slice (by omega)
      rw [List.drop_append_of_le_length (by omega)] at h ⊢
      rw [exponentPart_cons he, hsign,
        takeWhile_slice bs (by rw [List.length_drop]; omega)]
    · simp [exponentPart, he]

theorem scanDecimal_slice {value : Binary64} (h : scanDecimal (as ++ bs) = .ok value as.length) :
    scanDecimal as = .ok value as.length := by
  unfold scanDecimal at h ⊢
  dsimp only at h ⊢
  split at h
  · cases h
  · rename_i exponentSize exponent hexponent
    injection h with hvalue hsize
    have hwhole : as.takeWhile Char.isDigit = (as ++ bs).takeWhile Char.isDigit :=
      takeWhile_slice bs (by omega)
    rw [← hwhole] at hvalue hsize hexponent
    generalize as.takeWhile Char.isDigit = whole at hvalue hsize hexponent ⊢
    have hdrop : (as ++ bs).drop whole.length = as.drop whole.length ++ bs :=
      List.drop_append_of_le_length (by omega)
    rw [hdrop] at hvalue hsize hexponent
    have hfraction : fractionPart (as.drop whole.length) =
        fractionPart (as.drop whole.length ++ bs) :=
      fractionPart_slice (by rw [List.length_drop]; omega)
    rw [← hfraction] at hvalue hsize hexponent
    rw [List.drop_append_of_le_length (by omega)] at hexponent
    have hpart : exponentPart (as.drop (whole.length + (fractionPart (as.drop whole.length)).2)) =
        (exponentSize, some exponent) := by
      rw [← hexponent]
      exact exponentPart_slice (by rw [hexponent, List.length_drop]; omega)
    rw [hpart]
    dsimp only
    rw [hvalue, hsize]

theorem announcedRadix?_append (bs : List Char) (h : 2 ≤ as.length) :
    announcedRadix? (as ++ bs) = announcedRadix? as := by
  obtain _ | ⟨c, _ | ⟨d, as⟩⟩ := as
  · simp at h
  · simp at h
  · by_cases hc : c = '0'
    · subst hc
      unfold announcedRadix?
      simp only [List.cons_append]
      split <;> simp_all
    · simp [announcedRadix?, hc]

theorem announcedRadix?_of_length_lt (h : as.length < 2) : announcedRadix? as = none := by
  obtain _ | ⟨c, _ | ⟨d, as⟩⟩ := as
  · rfl
  · simp [announcedRadix?]
  · simp only [List.length_cons] at h
    omega

theorem scanRadix_slice {radix : Nat} {value : Binary64}
    (h : scanRadix radix (as ++ bs) = .ok value as.length) :
    2 ≤ as.length ∧ scanRadix radix as = .ok value as.length := by
  unfold scanRadix at h ⊢
  dsimp only at h ⊢
  split at h
  · cases h
  · rename_i hdigits
    injection h with hvalue hsize
    have hlength : 2 ≤ as.length := by omega
    rw [List.drop_append_of_le_length hlength] at hdigits hvalue hsize
    refine ⟨hlength, ?_⟩
    rw [takeWhile_slice bs (by rw [List.length_drop]; omega), if_neg hdigits, hvalue, hsize]

theorem scanNumber_eq_ok_iff {value : Binary64} {size : Nat} : scanNumber as = .ok value size ↔
    (match announcedRadix? as with
      | some radix => scanRadix radix as
      | none => scanDecimal as) = .ok value size ∧ (as[size]?).any isWordStart = false := by
  unfold scanNumber
  dsimp only
  constructor
  · intro h
    split at h
    · split at h
      · cases h
      · cases h
        exact ⟨‹_›, by simp_all⟩
    · cases h
  · rintro ⟨hfound, hend⟩
    cases hradix : announcedRadix? as <;>
      rw [hradix] at hfound <;> simp only at hfound ⊢ <;> rw [hfound] <;> simp only [hend] <;> rfl

theorem scanNumber_slice {value : Binary64} (h : scanNumber (as ++ bs) = .ok value as.length) :
    scanNumber as = .ok value as.length := by
  rw [scanNumber_eq_ok_iff] at h ⊢
  obtain ⟨hfound, -⟩ := h
  refine ⟨?_, by simp⟩
  cases hradix : announcedRadix? (as ++ bs) with
  | some radix =>
    rw [hradix] at hfound
    obtain ⟨hlength, hslice⟩ := scanRadix_slice hfound
    rw [← announcedRadix?_append bs hlength, hradix]
    exact hslice
  | none =>
    rw [hradix] at hfound
    have hnone : announcedRadix? as = none := by
      by_cases hlength : 2 ≤ as.length
      · rw [← announcedRadix?_append bs hlength, hradix]
      · exact announcedRadix?_of_length_lt (by omega)
    rw [hnone]
    exact scanDecimal_slice hfound

theorem one_lt_size_of_scanNumber {d : Char} {value : Binary64} {size : Nat}
    (hd : d.isDigit = true) (h : scanNumber ('.' :: d :: as) = .ok value size) : 1 < size := by
  have hdecimal : scanDecimal ('.' :: d :: as) = .ok value size := (scanNumber_eq_ok_iff.1 h).1
  have hwhole : ('.' :: d :: as).takeWhile Char.isDigit = [] := rfl
  unfold scanDecimal at hdecimal
  simp only [hwhole, List.length_nil, List.drop_zero, fractionPart, List.takeWhile_cons, hd, if_true,
    List.length_cons] at hdecimal
  split at hdecimal
  · cases hdecimal
  · injection hdecimal with _ hsize
    omega

/-! ## Escapes and strings -/

section
variable {d : Option Char} {n k size : Nat}

theorem scanHexEscape_slice (h : scanHexEscape k (as ++ bs) = .ok d n) (hn : n ≤ as.length + 1) :
    scanHexEscape k as = .ok d n := by
  have hsize : n = k + 1 := by
    unfold scanHexEscape at h
    dsimp only at h
    split at h
    · cases h
    split at h
    · cases h
      rfl
    · cases h
  unfold scanHexEscape at h ⊢
  rwa [List.take_append_of_le_length (by omega)] at h

theorem scanBracedEscape_slice (h : scanBracedEscape (as ++ bs) = .ok d n)
    (hn : n ≤ as.length + 2) : scanBracedEscape as = .ok d n := by
  have hsize : n = ((as ++ bs).takeWhile (isDigitIn 16)).length + 3 := by
    unfold scanBracedEscape at h
    dsimp only at h
    split at h
    · split at h
      · cases h
        rfl
      · cases h
    · cases h
  unfold scanBracedEscape at h ⊢
  rw [takeWhile_slice bs (by omega)]
  dsimp only at h ⊢
  rwa [List.getElem?_append_left (by omega)] at h

theorem size_pos_of_scanEscape (h : scanEscape as = .ok d n) : 0 < n := by
  unfold scanEscape scanHexEscape scanBracedEscape at h
  dsimp only at h
  repeat' split at h
  all_goals first | cases h; done | (cases h; omega)

theorem one_lt_size_of_scanEscape (h : scanEscape ('u' :: as) = .ok d n) : 1 < n := by
  by_cases hbrace : ∃ tail, as = '\x7b' :: tail
  · obtain ⟨tail, rfl⟩ := hbrace
    rw [scanEscape] at h
    unfold scanBracedEscape at h
    dsimp only at h
    repeat' split at h
    all_goals first | cases h; done | (cases h; omega)
  · rw [scanEscape.eq_11 _ fun tail htail => hbrace ⟨tail, htail⟩] at h
    unfold scanHexEscape at h
    dsimp only at h
    repeat' split at h
    all_goals first | cases h; done | (cases h; omega)

/-- An escape is the same if the text ends behind it, unless it looks at what comes next. -/
theorem scanEscape_slice (h : scanEscape (as ++ bs) = .ok d n)
    (hnext : n < as.length ∨ as.head? = some 'u' ∧ n ≤ as.length) : scanEscape as = .ok d n := by
  fun_cases scanEscape as with
  | case1 => simp at hnext
  | case2 => simpa [scanEscape] using h
  | case3 => simpa [scanEscape] using h
  | case4 => simpa [scanEscape] using h
  | case5 => simpa [scanEscape] using h
  | case6 => simpa [scanEscape] using h
  | case7 => simpa [scanEscape] using h
  | case8 rest =>
    obtain _ | ⟨c, rest⟩ := rest
    · have := size_pos_of_scanEscape h
      simp at hnext
      omega
    · exact h
  | case9 rest =>
    have hsize : n ≤ rest.length + 1 := by
      rw [List.length_cons] at hnext
      omega
    exact scanHexEscape_slice h hsize
  | case10 rest =>
    have hsize : n ≤ rest.length + 2 := by
      simp only [List.length_cons] at hnext
      omega
    exact scanBracedEscape_slice h hsize
  | case11 rest hbrace =>
    have hsize : n ≤ rest.length + 1 := by
      rw [List.length_cons] at hnext
      omega
    obtain _ | ⟨c, rest⟩ := rest
    · have := one_lt_size_of_scanEscape h
      simp only [List.length_nil] at hsize
      omega
    · rw [List.cons_append, List.cons_append, scanEscape, ← List.cons_append] at h
      · exact scanHexEscape_slice h hsize
      · rintro tail htail
        injection htail with hc
        exact hbrace rest (by rw [hc])
  | case12 rest => simpa [scanEscape] using h
  | case13 rest hline =>
    obtain _ | ⟨c, rest⟩ := rest
    · have := size_pos_of_scanEscape h
      simp at hnext
      omega
    · rw [← h, List.cons_append, List.cons_append, scanEscape]
      rintro tail htail
      injection htail with hc
      exact hline rest (by rw [hc])
  | case14 rest => simpa [scanEscape] using h
  | case15 c rest =>
    rw [← h]
    simp_all [scanEscape]

end

theorem skip_lt_size_of_scanString {quote : Char} {n skip size : Nat} {value : List Char}
    (h : scanString quote n skip as = .ok value size) : n + skip < size := by
  fun_induction scanString quote n skip as generalizing value size with
  | case1 => cases h
  | case2 n skip c rest ih =>
    have := ih h
    omega
  | case3 => cases h
  | case4 =>
    cases h
    omega
  | case5 => cases h
  | case6 n rest hrest decoded size' hescape hline hquote ih =>
    obtain ⟨others, hothers, -⟩ := Scanned.eq_ok_of_map h
    have := ih hothers
    omega
  | case7 => cases h
  | case8 n c rest hline hquote hback ih =>
    obtain ⟨others, hothers, -⟩ := Scanned.eq_ok_of_map h
    have := ih hothers
    omega

theorem scanString_slice {quote : Char} {n skip : Nat} {value : List Char}
    (h : scanString quote n skip (as ++ bs) = .ok value (n + as.length)) :
    scanString quote n skip as = .ok value (n + as.length) := by
  induction as generalizing n skip value with
  | nil =>
    have := skip_lt_size_of_scanString h
    simp only [List.length_nil] at this
    omega
  | cons c as ih =>
    have hsize : n + (c :: as).length = n + 1 + as.length := by
      rw [List.length_cons]
      omega
    rw [List.cons_append, hsize] at h
    rw [hsize]
    cases skip with
    | succ skip =>
      rw [scanString] at h ⊢
      exact ih h
    | zero =>
      rw [scanString] at h ⊢
      by_cases hline : c = '\n'
      · rw [if_pos hline] at h
        cases h
      rw [if_neg hline] at h ⊢
      by_cases hquote : c = quote
      · rw [if_pos hquote] at h ⊢
        exact h
      rw [if_neg hquote] at h ⊢
      by_cases hback : c = '\\'
      · rw [if_pos hback] at h ⊢
        split at h
        · cases h
        split at h
        · rename_i hmore decoded size hescape
          obtain ⟨others, hothers, rfl⟩ := Scanned.eq_ok_of_map h
          have hskip := skip_lt_size_of_scanString hothers
          have hne : ¬as.isEmpty = true := by
            intro hnil
            rw [List.isEmpty_iff.1 hnil, List.length_nil] at hskip
            omega
          rw [if_neg hne, scanEscape_slice hescape (.inl (by omega))]
          dsimp only
          rw [ih hothers]
          rfl
        · cases h
      · rw [if_neg hback] at h ⊢
        obtain ⟨others, hothers, rfl⟩ := Scanned.eq_ok_of_map h
        rw [ih hothers]
        rfl

/-! ## Words -/

/-- What a word begins with: an escape, another part of a word, or nothing. -/
theorem scanWord_cases {n size : Nat} {c : Char} {name : List Char}
    (h : scanWord n 0 (c :: as) = .ok name size) :
    ((decide (c = '\\') && as.head? == some 'u') = true ∧ ∃ decoded k others,
      scanEscape as = .ok decoded k ∧
        decoded.any (if n = 0 then isWordStart else isWordPart) = true ∧
        scanWord (n + 1) k as = .ok others size ∧ name = decoded.toList ++ others) ∨
    (¬(decide (c = '\\') && as.head? == some 'u') = true ∧ isWordPart c = true ∧
      ∃ others, scanWord (n + 1) 0 as = .ok others size ∧ name = c :: others) ∨
    (¬(decide (c = '\\') && as.head? == some 'u') = true ∧ ¬isWordPart c = true ∧
      name = [] ∧ size = n) := by
  rw [scanWord] at h
  by_cases hescape : (decide (c = '\\') && as.head? == some 'u') = true
  · rw [if_pos hescape] at h
    cases hdecoded : scanEscape as with
    | fail =>
      rw [hdecoded] at h
      cases h
    | ok decoded k =>
      rw [hdecoded] at h
      dsimp only at h
      by_cases hvalid : decoded.any (if n = 0 then isWordStart else isWordPart) = true
      · rw [if_pos hvalid] at h
        obtain ⟨others, hothers, rfl⟩ := Scanned.eq_ok_of_map h
        exact .inl ⟨hescape, decoded, k, others, rfl, hvalid, hothers, rfl⟩
      · rw [if_neg hvalid] at h
        cases h
  · rw [if_neg hescape] at h
    by_cases hpart : isWordPart c = true
    · rw [if_pos hpart] at h
      obtain ⟨others, hothers, rfl⟩ := Scanned.eq_ok_of_map h
      exact .inr (.inl ⟨hescape, hpart, others, hothers, rfl⟩)
    · rw [if_neg hpart] at h
      cases h
      exact .inr (.inr ⟨hescape, hpart, rfl, rfl⟩)

theorem skip_le_size_of_scanWord {n skip size : Nat} {name : List Char}
    (h : scanWord n skip as = .ok name size) (hskip : skip ≤ as.length) : n + skip ≤ size := by
  fun_induction scanWord n skip as generalizing name size with
  | case1 =>
    cases h
    simpa using hskip
  | case2 n skip c rest ih =>
    have := ih h (by simpa using hskip)
    omega
  | case3 n c rest hescape decoded size' hdecoded hvalid ih =>
    obtain ⟨others, hothers, -⟩ := Scanned.eq_ok_of_map h
    have hwithin := scanEscape_within rest
    rw [hdecoded] at hwithin
    have := ih hothers hwithin
    omega
  | case4 => cases h
  | case5 => cases h
  | case6 n c rest hescape hpart ih =>
    obtain ⟨others, hothers, -⟩ := Scanned.eq_ok_of_map h
    have := ih hothers (Nat.zero_le _)
    omega
  | case7 =>
    cases h
    omega

theorem scanWord_slice {n skip : Nat} {name : List Char} (hskip : skip ≤ as.length)
    (h : scanWord n skip (as ++ bs) = .ok name (n + as.length)) :
    scanWord n skip as = .ok name (n + as.length) := by
  induction as generalizing n skip name with
  | nil =>
    obtain rfl := Nat.le_zero.1 hskip
    rw [List.nil_append, List.length_nil, Nat.add_zero] at h
    cases bs with
    | nil => exact h
    | cons c bs =>
      -- a word that ends here has no character more
      rcases scanWord_cases h with ⟨-, decoded, k, others, hdecoded, -, hothers, -⟩ |
        ⟨-, -, others, hothers, -⟩ | ⟨-, -, rfl, -⟩
      · have hwithin := scanEscape_within bs
        rw [hdecoded] at hwithin
        have := skip_le_size_of_scanWord hothers hwithin
        omega
      · have := skip_le_size_of_scanWord hothers (Nat.zero_le _)
        omega
      · rfl
  | cons c as ih =>
    have hsize : n + (c :: as).length = n + 1 + as.length := by
      rw [List.length_cons]
      omega
    rw [List.cons_append, hsize] at h
    rw [hsize]
    cases skip with
    | succ skip =>
      rw [scanWord] at h ⊢
      exact ih (Nat.le_of_succ_le_succ hskip) h
    | zero =>
      rcases scanWord_cases h with ⟨hescape, decoded, k, others, hdecoded, hvalid, hothers, rfl⟩ |
        ⟨hescape, hpart, others, hothers, rfl⟩ | ⟨-, -, -, hend⟩
      · have hwithin := scanEscape_within (as ++ bs)
        rw [hdecoded] at hwithin
        have hlength := skip_le_size_of_scanWord hothers hwithin
        have hpos := size_pos_of_scanEscape hdecoded
        obtain _ | ⟨d, as⟩ := as
        · simp only [List.length_nil] at hlength
          omega
        have hu : d = 'u' := by simpa using (Bool.and_eq_true_iff.1 hescape).2
        have hself : (decide (c = '\\') && (d :: as).head? == some 'u') = true := hescape
        rw [scanWord, if_pos hself, scanEscape_slice hdecoded (.inr ⟨by rw [hu]; rfl, by omega⟩)]
        dsimp only
        rw [if_pos hvalid, ih (by omega) hothers]
        rfl
      · have hself : ¬(decide (c = '\\') && as.head? == some 'u') = true := by
          cases as with
          | nil => simp
          | cons => exact hescape
        rw [scanWord, if_neg hself, if_pos hpart, ih (Nat.zero_le _) hothers]
        rfl
      · omega

/-! ## Templates and regular expressions -/

theorem scanTemplate_slice {c : Char} {depth last : Nat} {body : TokenBody}
    (h : scanTemplate depth (c :: as ++ bs) = (.ok body (c :: as).length, last)) :
    scanTemplate depth (c :: as) = (.ok body (c :: as).length, last) := by
  obtain ⟨raw, rfl, hends⟩ := scanTemplate_ends h
  obtain ⟨behind, hbehind : as ++ bs = raw ++ '\x60' :: behind⟩ := hends.slice
  have hself : as = raw ++ ['\x60'] := by
    have hsplit : as ++ bs = (raw ++ ['\x60']) ++ behind := by simp [hbehind]
    have hlength : as.length + 1 = 1 + raw.length + 1 := hends.size_eq
    refine (List.append_inj hsplit ?_).1
    rw [List.length_append, List.length_singleton]
    omega
  have hscan := hends.scan c []
  rwa [← hself] at hscan

theorem scanRegex_slice {c : Char} {body : TokenBody}
    (h : scanRegex (c :: as ++ bs) = .ok body (c :: as).length) :
    scanRegex (c :: as) = .ok body (c :: as).length := by
  obtain ⟨pattern, behind, rfl, hbehind, hlength, hends⟩ := scanRegex_ends h
  rw [List.length_cons] at hlength
  replace hbehind : as ++ bs = pattern ++ '/' :: behind := hbehind
  -- the slash that ends the pattern belongs to the slice
  have hsplit : as ++ bs = (pattern ++ ['/']) ++ behind := by simp [hbehind]
  obtain ⟨tail, rfl⟩ : pattern ++ ['/'] <+: as := by
    refine List.prefix_of_prefix_length_le ⟨behind, hsplit.symm⟩ (List.prefix_append as bs) ?_
    rw [List.length_append, List.length_singleton]
    omega
  rw [List.append_assoc, List.append_cancel_left_eq] at hsplit
  subst hsplit
  simp only [List.length_append, List.length_singleton] at hlength
  have hflags : tail.takeWhile isWordPart = (tail ++ bs).takeWhile isWordPart :=
    takeWhile_slice bs (by omega)
  rw [List.append_assoc, List.singleton_append, scanRegex_of_ends c hends, hflags]
  simp only [List.length_cons, List.length_append]
  congr 1
  omega

/-! ## Tokens -/

/-- **A token is read from its slice alone.** -/
theorem scanToken_slice {regexAllowed : Bool} {depth last : Nat} {body : TokenBody}
    (h : scanToken regexAllowed depth (as ++ bs) = (.ok body as.length, last)) (hne : as ≠ []) :
    scanToken regexAllowed depth as = (.ok body as.length, last) := by
  obtain ⟨c, as, rfl⟩ := List.exists_cons_of_ne_nil hne
  rw [List.cons_append, scanToken] at h
  rw [scanToken]
  by_cases hdigit : (c.isDigit || c == '.' && (as ++ bs).head?.any Char.isDigit) = true
  · rw [if_pos hdigit] at h
    obtain ⟨value, hvalue, rfl⟩ := Scanned.eq_ok_of_map (congrArg Prod.fst h)
    obtain rfl : depth = last := congrArg Prod.snd h
    have hstart : (c.isDigit || c == '.' && as.head?.any Char.isDigit) = true := by
      obtain _ | ⟨d, as⟩ := as
      · rcases Bool.or_eq_true_iff.1 hdigit with hc | hpoint
        · rw [hc, Bool.true_or]
        · obtain ⟨hc, hd⟩ := Bool.and_eq_true_iff.1 hpoint
          obtain _ | ⟨d, bs⟩ := bs
          · cases hd
          · rw [beq_iff_eq.1 hc] at hvalue
            exact absurd (one_lt_size_of_scanNumber hd hvalue) (Nat.lt_irrefl 1)
      · exact hdigit
    rw [← List.cons_append] at hvalue
    rw [if_pos hstart, scanNumber_slice hvalue]
    rfl
  rw [if_neg hdigit] at h
  have hdigit' : ¬(c.isDigit || c == '.' && as.head?.any Char.isDigit) = true := by
    cases as with
    | nil =>
      simp only [List.nil_append, Bool.or_eq_true, not_or] at hdigit
      simp [hdigit.1]
    | cons => exact hdigit
  rw [if_neg hdigit']
  split
  · rw [if_pos ‹_›] at h
    obtain ⟨value, hvalue, rfl⟩ := Scanned.eq_ok_of_map (congrArg Prod.fst h)
    obtain rfl : depth = last := congrArg Prod.snd h
    rw [List.length_cons, Nat.add_comm] at hvalue ⊢
    rw [scanString_slice hvalue]
    rfl
  rw [if_neg ‹_›] at h
  split
  · rw [if_pos ‹_›] at h
    exact scanTemplate_slice h
  rw [if_neg ‹_›] at h
  split
  · rw [if_pos ‹_›] at h
    have hregex : scanRegex (c :: as ++ bs) = .ok body (c :: as).length := congrArg Prod.fst h
    obtain rfl : depth = last := congrArg Prod.snd h
    rw [scanRegex_slice hregex]
  rw [if_neg ‹_›] at h
  by_cases hword : (isWordStart c || c == '\\' && (as ++ bs).head? == some 'u') = true
  · rw [if_pos hword] at h
    cases hname : scanWord 0 0 (c :: (as ++ bs)) with
    | fail =>
      rw [hname] at h
      cases h
    | ok name size =>
      rw [hname] at h
      dsimp only at h
      simp only [Prod.mk.injEq, Scanned.ok.injEq] at h
      obtain ⟨⟨hbody, rfl⟩, rfl⟩ := h
      rw [← List.cons_append] at hname hbody
      have hself := @scanWord_slice (c :: as) bs 0 0 name (Nat.zero_le _) (by rwa [Nat.zero_add])
      rw [Nat.zero_add] at hself
      have hstart : (isWordStart c || c == '\\' && as.head? == some 'u') = true := by
        obtain _ | ⟨d, as⟩ := as
        · rcases Bool.or_eq_true_iff.1 hword with hc | hback
          · rw [hc, Bool.true_or]
          · have hc : c = '\\' := beq_iff_eq.1 (Bool.and_eq_true_iff.1 hback).1
            have hpart : isWordPart '\\' = false := by simp [isWordPart_ascii]
            rw [hc, scanWord, if_neg (by simp), hpart] at hself
            cases hself
        · exact hword
      rw [if_pos hstart, hself]
      dsimp only
      rw [← hbody, List.take_length, List.take_left]
  rw [if_neg hword] at h
  have hword' : ¬(isWordStart c || c == '\\' && as.head? == some 'u') = true := by
    cases as with
    | nil =>
      simp only [List.nil_append, Bool.or_eq_true, not_or] at hword
      simp [hword.1]
    | cons => exact hword
  rw [if_neg hword']
  split at h
  · rename_i s hread
    simp only [Prod.mk.injEq, Scanned.ok.injEq] at h
    obtain ⟨⟨rfl, hsize⟩, rfl⟩ := h
    have hopens := List.find?_some hread
    rw [Symbol.opens, Bool.and_eq_true] at hopens
    obtain ⟨tail, htail⟩ := List.isPrefixOf_iff_prefix.1 hopens.1
    have htext : s.text.toList = c :: as :=
      (List.append_inj htail (by rw [String.length_toList, hsize])).1
    have hself : Symbol.read? (s.text.toList ++ []) = some s := Symbol.read?_text s (by simp)
    rw [List.append_nil, htext] at hself
    rw [hself]
    dsimp only
    rw [hsize]
  · cases h

theorem size_pos_of_scanNumber {c : Char} {value : Binary64} {size : Nat}
    (hc : (c.isDigit || c == '.' && as.head?.any Char.isDigit) = true)
    (h : scanNumber (c :: as) = .ok value size) : 0 < size := by
  by_cases hdigit : c.isDigit = true
  · have hwhole : ((c :: as).takeWhile Char.isDigit).length = (as.takeWhile Char.isDigit).length + 1 := by
      rw [List.takeWhile_cons, if_pos hdigit, List.length_cons]
    have hfound := (scanNumber_eq_ok_iff.1 h).1
    split at hfound
    · unfold scanRadix at hfound
      dsimp only at hfound
      split at hfound
      · cases hfound
      · injection hfound with _ hsize
        omega
    · unfold scanDecimal at hfound
      dsimp only at hfound
      split at hfound
      · cases hfound
      · injection hfound with _ hsize
        omega
  · rw [Bool.not_eq_true] at hdigit
    rw [hdigit, Bool.false_or, Bool.and_eq_true, beq_iff_eq] at hc
    obtain ⟨rfl, hd⟩ := hc
    obtain _ | ⟨d, as⟩ := as
    · cases hd
    · exact Nat.lt_of_succ_lt (one_lt_size_of_scanNumber hd h)

theorem size_pos_of_scanToken {regexAllowed : Bool} {depth size last : Nat} {body : TokenBody}
    (h : scanToken regexAllowed depth as = (.ok body size, last)) (hne : as ≠ []) : 0 < size := by
  obtain ⟨c, as, rfl⟩ := List.exists_cons_of_ne_nil hne
  rw [scanToken] at h
  split at h
  · obtain ⟨value, hvalue, -⟩ := Scanned.eq_ok_of_map (congrArg Prod.fst h)
    exact size_pos_of_scanNumber ‹_› hvalue
  split at h
  · obtain ⟨value, hvalue, -⟩ := Scanned.eq_ok_of_map (congrArg Prod.fst h)
    have := skip_lt_size_of_scanString hvalue
    omega
  split at h
  · obtain ⟨raw, -, hends⟩ := scanTemplate_ends h
    have := hends.size_eq
    omega
  split at h
  · obtain ⟨pattern, rest, -, -, hsize, -⟩ := scanRegex_ends (congrArg Prod.fst h)
    omega
  split at h
  · rename_i hstart
    split at h
    · rename_i hname
      cases h
      rcases scanWord_cases hname with ⟨-, decoded, k, others, hdecoded, -, hothers, -⟩ |
        ⟨-, -, others, hothers, -⟩ | ⟨hescape, hpart, -, -⟩
      · have hwithin := scanEscape_within as
        rw [hdecoded] at hwithin
        have := skip_le_size_of_scanWord hothers hwithin
        omega
      · have := skip_le_size_of_scanWord hothers (Nat.zero_le _)
        omega
      · rcases Bool.or_eq_true_iff.1 hstart with hc | hback
        · exact absurd (isWordPart_of_isWordStart hc) hpart
        · exact absurd hback hescape
    · cases h
  split at h
  · rename_i s hread
    cases h
    obtain ⟨c, others, htext, -⟩ := s.text_eq_cons
    rw [← String.length_toList, htext]
    exact Nat.succ_pos _
  · cases h

/-! ## What a slice says -/

/-- All of the characters are read as one token, whichever way a slash is taken. -/
def ReadsAlone (slice : List Char) (body : TokenBody) : Prop :=
  ∃ regexAllowed, scanToken regexAllowed 0 slice = (.ok body slice.length, 0)

theorem scanRegex_ne_ok_of_symbol {s : Symbol} {cs : List Char} {body : TokenBody} {size : Nat}
    (hslash : s.text.toList = '/' :: cs) : scanRegex ('/' :: cs) ≠ .ok body size := by
  obtain ⟨c, others, htext, -, -, hfirst⟩ := s.text_eq_cons
  rw [htext] at hslash
  obtain ⟨rfl, rfl⟩ := List.cons.inj hslash
  have hcs : others = [] ∨ others = ['='] := by
    rcases hfirst rfl with rfl | rfl
    · exact .inl (List.cons.inj (htext.symm.trans (rfl : Symbol.slash.text.toList = ['/']))).2
    · exact .inr (List.cons.inj (htext.symm.trans (rfl : Symbol.slashEq.text.toList = ['/', '=']))).2
  rcases hcs with rfl | rfl
  · simp [scanRegex, regexFrom]
  · simp [scanRegex, regexFrom, Scanned.map]

theorem Symbol.text_of_read? {s : Symbol} {cs : List Char} (h : Symbol.read? cs = some s)
    (hlength : s.text.length = cs.length) : s.text.toList = cs := by
  have hopens := List.find?_some h
  rw [Symbol.opens, Bool.and_eq_true] at hopens
  exact (List.isPrefixOf_iff_prefix.1 hopens.1).eq_of_length (by rw [String.length_toList, hlength])

theorem scanToken_congr {c : Char} {cs : List Char} (hc : c ≠ '/') (allowed allowed' : Bool)
    (depth : Nat) : scanToken allowed depth (c :: cs) = scanToken allowed' depth (c :: cs) := by
  have hslash : (c == '/') = false := beq_eq_false_iff_ne.2 hc
  rw [scanToken, scanToken, hslash, Bool.false_and, Bool.false_and]

theorem scanToken_slash (allowed : Bool) (depth : Nat) (cs : List Char) :
    scanToken allowed depth ('/' :: cs) =
      if allowed then (scanRegex ('/' :: cs), depth)
      else match Symbol.read? ('/' :: cs) with
        | some s => (.ok (.symbol s) s.text.length, depth)
        | none => (.fail (.unexpectedChar '/') 0 0, depth) := by
  have hstart : isWordStart '/' = false := by simp [isWordStart_ascii]
  have hdigit : ¬(Char.isDigit '/' || '/' == '.' && cs.head?.any Char.isDigit) = true :=
    Bool.false_ne_true
  have hword : ¬(isWordStart '/' || '/' == '\\' && cs.head? == some 'u') = true := by
    simp [hstart]
  rw [scanToken, if_neg hdigit, if_neg (by decide), if_neg (by decide), if_neg hword]
  rfl

/-- **A slice is the spelling of one token only.** -/
theorem ReadsAlone.unique {slice : List Char} {body body' : TokenBody} (h : ReadsAlone slice body)
    (h' : ReadsAlone slice body') : body = body' := by
  obtain ⟨allowed, hread⟩ := h
  obtain ⟨allowed', hread'⟩ := h'
  have hsame (heq : scanToken allowed 0 slice = scanToken allowed' 0 slice) : body = body' := by
    rw [hread, hread'] at heq
    injection congrArg Prod.fst heq
  obtain _ | ⟨c, cs⟩ := slice
  · exact hsame rfl
  by_cases hc : c = '/'
  · subst hc
    have hmixed {b b' : TokenBody}
        (hregex : scanToken true 0 ('/' :: cs) = (.ok b ('/' :: cs).length, 0))
        (hsymbol : scanToken false 0 ('/' :: cs) = (.ok b' ('/' :: cs).length, 0)) : False := by
      rw [scanToken_slash, if_pos rfl] at hregex
      rw [scanToken_slash, if_neg Bool.false_ne_true] at hsymbol
      split at hsymbol
      · rename_i s hread
        simp only [Prod.mk.injEq, Scanned.ok.injEq] at hsymbol
        exact scanRegex_ne_ok_of_symbol (Symbol.text_of_read? hread hsymbol.1.2)
          (congrArg Prod.fst hregex)
      · cases hsymbol
    cases allowed with
    | true =>
      cases allowed' with
      | true => exact hsame rfl
      | false => exact (hmixed hread hread').elim
    | false =>
      cases allowed' with
      | true => exact (hmixed hread' hread).elim
      | false => exact hsame rfl
  · exact hsame (scanToken_congr hc _ _ _)

/-- How the characters of a slice say what token it is. -/
def TokenBody.SpeltBy (slice : List Char) : TokenBody → Prop
  | .number value => scanNumber slice = .ok value slice.length
  | .string value => ∃ quote others, slice = quote :: others ∧ (quote = '"' ∨ quote = '\'') ∧
      scanString quote 1 0 others = .ok value.toList slice.length
  | .template raw => slice = '\x60' :: (raw.toList ++ ['\x60'])
  | .regex pattern flags => slice = '/' :: (pattern.toList ++ '/' :: flags.toList)
  | .boolean value => slice = (if value then "true" else "false").toList
  | .null => slice = "null".toList
  | .word name => '\\' ∉ slice → slice = name.toList
  | .symbol s => slice = s.text.toList
  | .eof => slice = []

theorem scanWord_plain {cs name : List Char} {n : Nat} (hplain : '\\' ∉ cs)
    (h : scanWord n 0 cs = .ok name (n + cs.length)) : name = cs := by
  induction cs generalizing n name with
  | nil =>
    cases h
    rfl
  | cons c cs ih =>
    rw [List.mem_cons, not_or] at hplain
    rcases scanWord_cases h with ⟨hescape, -⟩ | ⟨-, -, others, hothers, rfl⟩ | ⟨-, -, -, hsize⟩
    · rw [Bool.and_eq_true, decide_eq_true_eq] at hescape
      exact absurd hescape.1.symm hplain.1
    · rw [List.length_cons, Nat.add_comm cs.length, ← Nat.add_assoc] at hothers
      rw [ih hplain.2 hothers]
    · rw [List.length_cons] at hsize
      omega

theorem speltBy_wordBody {slice name : List Char}
    (h : scanWord 0 0 slice = .ok name slice.length) :
    (wordBody (String.ofList slice) name).SpeltBy slice := by
  have hslice {text : String} (htext : String.ofList slice = text) : slice = text.toList := by
    rw [← htext, String.toList_ofList]
  unfold wordBody
  split
  · rename_i htext
    exact hslice htext
  split
  · rename_i htext
    exact hslice htext
  split
  · rename_i htext
    exact hslice htext
  · intro hplain
    rw [String.toList_ofList, @scanWord_plain slice name 0 hplain (by rwa [Nat.zero_add])]

theorem speltBy_scanTemplate {c : Char} {cs : List Char} {depth last : Nat} {body : TokenBody}
    (hc : c = '\x60') (h : scanTemplate depth (c :: cs) = (.ok body (c :: cs).length, last)) :
    body.SpeltBy (c :: cs) := by
  obtain ⟨raw, rfl, hends⟩ := scanTemplate_ends h
  obtain ⟨behind, hbehind⟩ := hends.slice
  obtain rfl : behind = [] := by
    have hlength := hends.size_eq
    simp only [hbehind, List.length_cons, List.length_append] at hlength
    exact List.eq_nil_of_length_eq_zero (by omega)
  rw [TokenBody.SpeltBy, String.toList_ofList, hc, hbehind]

theorem speltBy_scanRegex {c : Char} {cs : List Char} {body : TokenBody} (hc : c = '/')
    (h : scanRegex (c :: cs) = .ok body (c :: cs).length) : body.SpeltBy (c :: cs) := by
  obtain ⟨pattern, behind, rfl, rfl, hlength, -⟩ := scanRegex_ends h
  have hflags : behind.takeWhile isWordPart = behind := by
    refine (List.takeWhile_prefix isWordPart).eq_of_length ?_
    simp only [List.length_cons, List.length_append] at hlength
    omega
  rw [TokenBody.SpeltBy, hflags, String.toList_ofList, String.toList_ofList, hc]

theorem ReadsAlone.speltBy {slice : List Char} {body : TokenBody} (h : ReadsAlone slice body) :
    body.SpeltBy slice := by
  obtain ⟨allowed, h⟩ := h
  obtain _ | ⟨c, cs⟩ := slice
  · cases h
    rfl
  rw [scanToken] at h
  split at h
  · obtain ⟨value, hvalue, rfl⟩ := Scanned.eq_ok_of_map (congrArg Prod.fst h)
    exact hvalue
  split at h
  · rename_i hquote
    obtain ⟨value, hvalue, rfl⟩ := Scanned.eq_ok_of_map (congrArg Prod.fst h)
    refine ⟨c, cs, rfl, by simpa using hquote, ?_⟩
    rw [hvalue, String.toList_ofList]
  split at h
  · rename_i htick
    exact speltBy_scanTemplate (beq_iff_eq.1 htick) h
  split at h
  · rename_i hslash
    exact speltBy_scanRegex (beq_iff_eq.1 (Bool.and_eq_true_iff.1 hslash).1) (congrArg Prod.fst h)
  split at h
  · split at h
    · rename_i name size hname
      simp only [Prod.mk.injEq, Scanned.ok.injEq] at h
      obtain ⟨⟨rfl, rfl⟩, -⟩ := h
      rw [List.take_length]
      exact speltBy_wordBody hname
    · cases h
  split at h
  · rename_i s hread
    simp only [Prod.mk.injEq, Scanned.ok.injEq] at h
    obtain ⟨⟨rfl, hsize⟩, -⟩ := h
    exact (Symbol.text_of_read? hread hsize).symm
  · cases h

end WidgetLint.Script
