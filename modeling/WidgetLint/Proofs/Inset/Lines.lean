import WidgetLint.Proofs.Safety.Lexer

/-!
# Tokens before a separator

What is found at the beginning of a text is found there too if a space or the end of a line comes
behind the text and another text follows: no token and no mark of a comment goes on over them, save
for tokens that are closed by a mark of their own.
-/

namespace WidgetLint.Script

open Text Number

/-- A space or the end of a line. -/
def Separator (e : Char) : Prop :=
  e = ' ' ∨ e = '\n'

variable {cs rest : List Char} {e : Char}

/-! ## Looking ahead -/

theorem takeWhile_apart {p : Char → Bool} (hp : p e = false) :
    (cs ++ e :: rest).takeWhile p = cs.takeWhile p := by
  induction cs with
  | nil => simp [hp]
  | cons c cs ih => simp [List.takeWhile_cons, ih]

theorem isPrefixOf_apart {word : List Char} (h : e ∉ word) :
    word.isPrefixOf (cs ++ e :: rest) = word.isPrefixOf cs := by
  induction word generalizing cs with
  | nil => simp
  | cons c word ih =>
    rw [List.mem_cons, not_or] at h
    cases cs with
    | nil => simp [List.isPrefixOf, Ne.symm h.1]
    | cons d cs => simp [List.isPrefixOf, ih h.2]

theorem head?_any_apart {p : Char → Bool} (hp : p e = false) :
    (cs ++ e :: rest).head?.any p = cs.head?.any p := by
  cases cs with
  | nil => exact hp
  | cons => rfl

theorem head?_apart {c : Char} (hc : c ≠ e) :
    ((cs ++ e :: rest).head? == some c) = (cs.head? == some c) := by
  cases cs with
  | nil => simp [hc.symm]
  | cons => rfl

theorem getElem?_any_apart {p : Char → Bool} (hp : p e = false) {n : Nat} (hn : n ≤ cs.length) :
    ((cs ++ e :: rest)[n]?).any p = (cs[n]?).any p := by
  rcases Nat.lt_or_eq_of_le hn with hlt | rfl
  · rw [List.getElem?_append_left hlt]
  · simp [hp]

theorem Separator.isWordPart (he : Separator e) : isWordPart e = false := by
  rcases he with rfl | rfl <;> simp [isWordPart_ascii]

theorem Separator.isWordStart (he : Separator e) : isWordStart e = false := by
  rcases he with rfl | rfl <;> simp [isWordStart_ascii]

theorem Separator.isDigit (he : Separator e) : Char.isDigit e = false := by
  rcases he with rfl | rfl <;> rfl

theorem Separator.ne (he : Separator e) {c : Char} (hc : isWhiteSpace c = false) : c ≠ e := by
  rintro rfl
  rcases he with rfl | rfl <;> cases hc

/-! ## Numbers -/

/-- The size of a sign and whether it is a minus. -/
def signPart : List Char → Nat × Bool
  | '+' :: _ => (1, false)
  | '-' :: _ => (1, true)
  | _ => (0, false)

theorem exponentPart_cons {d : Char} (hd : (d == 'e' || d == 'E') = true) (cs : List Char) :
    exponentPart (d :: cs) =
      let digits := (cs.drop (signPart cs).1).takeWhile Char.isDigit
      let value : Int := numeralValue 10 digits
      (1 + (signPart cs).1 + digits.length,
        if digits.isEmpty then none else some (if (signPart cs).2 then -value else value)) := by
  unfold exponentPart
  simp only [hd, if_true]
  rfl

theorem signPart_le (cs : List Char) : (signPart cs).1 ≤ cs.length := by
  unfold signPart
  split <;> simp

section
variable (he : Separator e)
include he

theorem fractionPart_apart : fractionPart (cs ++ e :: rest) = fractionPart cs := by
  have hpoint : '.' ≠ e := he.ne (by decide)
  cases cs with
  | nil => simp [fractionPart, hpoint.symm]
  | cons c cs =>
    by_cases hc : c = '.'
    · subst hc
      simp [fractionPart, takeWhile_apart he.isDigit]
    · simp [fractionPart, hc]

theorem signPart_apart : signPart (cs ++ e :: rest) = signPart cs := by
  have hplus : '+' ≠ e := he.ne (by decide)
  have hminus : '-' ≠ e := he.ne (by decide)
  cases cs with
  | nil => simp [signPart, hplus.symm, hminus.symm]
  | cons c cs =>
    unfold signPart
    split <;> simp_all

theorem exponentPart_apart : exponentPart (cs ++ e :: rest) = exponentPart cs := by
  cases cs with
  | nil =>
    have hlower : 'e' ≠ e := he.ne (by decide)
    have hupper : 'E' ≠ e := he.ne (by decide)
    simp [exponentPart, hlower.symm, hupper.symm]
  | cons d cs =>
    by_cases hd : (d == 'e' || d == 'E') = true
    · rw [List.cons_append, exponentPart_cons hd, exponentPart_cons hd, signPart_apart he,
        List.drop_append_of_le_length (signPart_le cs), takeWhile_apart he.isDigit]
    · simp [exponentPart, hd]

theorem scanDecimal_apart : scanDecimal (cs ++ e :: rest) = scanDecimal cs := by
  have hwhole : (cs ++ e :: rest).takeWhile Char.isDigit = cs.takeWhile Char.isDigit :=
    takeWhile_apart he.isDigit
  have hle := length_takeWhile_le Char.isDigit cs
  have hsize := fractionPart_within (cs.drop (cs.takeWhile Char.isDigit).length)
  rw [List.length_drop] at hsize
  unfold scanDecimal
  simp only [hwhole, List.drop_append_of_le_length hle, fractionPart_apart he]
  rw [List.drop_append_of_le_length (by omega), exponentPart_apart he]

theorem scanRadix_apart {radix : Nat} (h : 2 ≤ cs.length) :
    scanRadix radix (cs ++ e :: rest) = scanRadix radix cs := by
  have hdigit : (isDigitIn radix e || e == '_') = false := by
    rcases he with rfl | rfl <;> rfl
  rw [scanRadix, scanRadix, List.drop_append_of_le_length h, takeWhile_apart hdigit]

theorem announcedRadix?_apart : announcedRadix? (cs ++ e :: rest) = announcedRadix? cs := by
  rcases cs with _ | ⟨c, _ | ⟨d, cs⟩⟩
  · simp [announcedRadix?, (he.ne (by decide) : '0' ≠ e).symm]
  · by_cases hc : c = '0'
    · subst hc
      rcases he with rfl | rfl <;> rfl
    · simp [announcedRadix?, hc]
  · by_cases hc : c = '0'
    · subst hc
      simp only [List.cons_append]
      unfold announcedRadix?
      split <;> simp_all
    · simp [announcedRadix?, hc]

theorem scanNumber_apart : scanNumber (cs ++ e :: rest) = scanNumber cs := by
  -- no word follows a numeral before a separator
  have hword {value : Binary64} {size : Nat} (hfound : Scanned.Within cs.length (.ok value size)) :
      ((cs ++ e :: rest)[size]?).any isWordStart = (cs[size]?).any isWordStart :=
    getElem?_any_apart he.isWordStart hfound
  unfold scanNumber
  dsimp only
  rw [announcedRadix?_apart he]
  cases hradix : announcedRadix? cs with
  | some radix =>
    have hlength := two_le_of_announcedRadix? hradix
    have hwithin := @scanRadix_within cs radix hlength
    simp only [scanRadix_apart he hlength]
    cases hfound : scanRadix radix cs with
    | ok value size =>
      rw [hfound] at hwithin
      simp only [hword hwithin]
    | fail cause place size => rfl
  | none =>
    have hwithin := scanDecimal_within cs
    simp only [scanDecimal_apart he]
    cases hfound : scanDecimal cs with
    | ok value size =>
      rw [hfound] at hwithin
      simp only [hword hwithin]
    | fail cause place size => rfl

end

/-! ## Strings -/

section
variable {more : List Char} {d : Option Char} {n size : Nat}

theorem scanHexEscape_append {k : Nat} (h : scanHexEscape k cs = .ok d n) :
    scanHexEscape k (cs ++ more) = .ok d n := by
  unfold scanHexEscape at h ⊢
  dsimp only at h ⊢
  split at h
  · cases h
  · rename_i hlength
    have hk : k ≤ cs.length := by
      have := length_takeWhile_le (isDigitIn 16) (cs.take k)
      rw [List.length_take] at this
      omega
    rw [List.take_append_of_le_length hk, if_neg hlength]
    exact h

theorem scanBracedEscape_append (h : scanBracedEscape cs = .ok d n) :
    scanBracedEscape (cs ++ more) = .ok d n := by
  unfold scanBracedEscape at h ⊢
  dsimp only at h ⊢
  split at h
  · rename_i hclose
    have hlength : (cs.takeWhile (isDigitIn 16)).length < cs.length :=
      (List.getElem?_eq_some_iff.1 hclose).1
    have hdigits : (cs ++ more).takeWhile (isDigitIn 16) = cs.takeWhile (isDigitIn 16) := by
      rw [List.takeWhile_append, if_neg hlength.ne]
    rw [hdigits, List.getElem?_append_left hlength, if_pos hclose]
    exact h
  · cases h

theorem scanEscape_append (h : scanEscape cs = .ok d n)
    (hnext : n < cs.length ∨ cs.head? = some 'u') : scanEscape (cs ++ more) = .ok d n := by
  fun_cases scanEscape cs with
  | case1 => cases h
  | case2 => simpa [scanEscape] using h
  | case3 => simpa [scanEscape] using h
  | case4 => simpa [scanEscape] using h
  | case5 => simpa [scanEscape] using h
  | case6 => simpa [scanEscape] using h
  | case7 => simpa [scanEscape] using h
  | case8 rest =>
    have hrest : rest ≠ [] := by
      rintro rfl
      cases h
      simp at hnext
    obtain ⟨c, tail, rfl⟩ := List.exists_cons_of_ne_nil hrest
    exact h
  | case9 rest => exact scanHexEscape_append h
  | case10 rest => exact scanBracedEscape_append h
  | case11 rest hbrace =>
    have hrest : rest ≠ [] := by
      rintro rfl
      cases h
    obtain ⟨c, tail, rfl⟩ := List.exists_cons_of_ne_nil hrest
    rw [scanEscape.eq_11 _ hbrace] at h
    rw [List.cons_append, scanEscape]
    · exact scanHexEscape_append h
    · rintro others hothers
      injection hothers with hc
      exact hbrace tail (by rw [hc])
  | case12 rest => simpa [scanEscape] using h
  | case13 rest hline =>
    have hrest : rest ≠ [] := by
      rintro rfl
      cases h
      simp at hnext
    obtain ⟨c, tail, rfl⟩ := List.exists_cons_of_ne_nil hrest
    rw [← h, List.cons_append, scanEscape, scanEscape]
    · exact hline
    · rintro others hothers
      injection hothers with hc
      exact hline tail (by rw [hc])
  | case14 rest => simpa [scanEscape] using h
  | case15 c rest =>
    rw [← h]
    simp_all [scanEscape]

theorem skip_lt_of_scanString {quote : Char} {skip : Nat} {value : List Char}
    (h : scanString quote n skip cs = .ok value size) : skip < cs.length := by
  fun_induction scanString quote n skip cs generalizing value with
  | case1 => cases h
  | case2 n skip c rest ih => exact Nat.succ_lt_succ (ih h)
  | _ => exact Nat.zero_lt_succ _

theorem scanString_append {quote : Char} {skip : Nat} {value : List Char}
    (h : scanString quote n skip cs = .ok value size) :
    scanString quote n skip (cs ++ more) = .ok value size := by
  fun_induction scanString quote n skip cs generalizing value size with
  | case1 => cases h
  | case2 n skip c rest ih => exact ih h
  | case3 => cases h
  | case4 n rest hline =>
    cases h
    rw [List.cons_append, scanString, if_neg hline, if_pos rfl]
  | case5 => cases h
  | case6 n rest hrest decoded size hescape hline hquote ih =>
    obtain ⟨others, hothers, rfl⟩ := Scanned.eq_ok_of_map h
    have hmore : ¬(rest ++ more).isEmpty = true := by simp_all
    rw [List.cons_append, scanString, if_neg hline, if_neg hquote, if_pos rfl, if_neg hmore,
      scanEscape_append hescape (.inl (skip_lt_of_scanString hothers))]
    simp only [ih hothers, Scanned.map]
  | case7 => cases h
  | case8 n c rest hline hquote hback ih =>
    obtain ⟨others, hothers, rfl⟩ := Scanned.eq_ok_of_map h
    rw [List.cons_append, scanString, if_neg hline, if_neg hquote, if_neg hback, ih hothers]
    rfl

/-! ## Templates and regular expressions -/

theorem scanTemplate_apart {c : Char} {depth last : Nat} {body : TokenBody}
    (h : scanTemplate depth (c :: cs) = (.ok body size, last)) :
    scanTemplate depth (c :: cs ++ more) = (.ok body size, last) := by
  obtain ⟨raw, rfl, hends⟩ := scanTemplate_ends h
  obtain ⟨behind, rfl⟩ := hends.slice
  simpa using hends.scan c (behind ++ more)

end

section
variable (he : Separator e)
include he

theorem scanRegex_apart {c : Char} {body : TokenBody} {size : Nat}
    (h : scanRegex (c :: cs) = .ok body size) :
    scanRegex (c :: cs ++ e :: rest) = .ok body size := by
  obtain ⟨pattern, behind, rfl, rfl, rfl, hends⟩ := scanRegex_ends h
  rw [List.cons_append, List.append_assoc, List.cons_append, scanRegex_of_ends c hends,
    takeWhile_apart he.isWordPart]

/-! ## Words and punctuators -/

theorem scanWord_apart {n skip size : Nat} {name : List Char} (hskip : skip ≤ cs.length)
    (h : scanWord n skip cs = .ok name size) :
    scanWord n skip (cs ++ e :: rest) = .ok name size := by
  fun_induction scanWord n skip cs generalizing name size with
  | case1 n skip =>
    obtain rfl := Nat.le_zero.1 hskip
    have hback : '\\' ≠ e := he.ne (by decide)
    rw [List.nil_append, scanWord, if_neg (by simp [hback.symm]), if_neg (by simp [he.isWordPart])]
    exact h
  | case2 n skip c rest ih => exact ih (Nat.le_of_succ_le_succ hskip) h
  | case3 n c cs hescape decoded size' hdecoded hvalid ih =>
    obtain ⟨others, hothers, rfl⟩ := Scanned.eq_ok_of_map h
    rw [Bool.and_eq_true, decide_eq_true_eq] at hescape
    have hsize : size' ≤ cs.length := by
      have hwithin := scanEscape_within cs
      rwa [hdecoded] at hwithin
    have hhead : cs.head? = some 'u' := beq_iff_eq.1 hescape.2
    have hline : (cs ++ e :: rest).head? == some 'u' := by
      rw [head?_apart (he.ne (by decide))]
      exact hescape.2
    rw [List.cons_append, scanWord, if_pos (by rw [hline, hescape.1]; rfl),
      scanEscape_append hdecoded (.inr hhead)]
    dsimp only
    rw [if_pos hvalid, ih hsize hothers]
    rfl
  | case4 => cases h
  | case5 => cases h
  | case6 n c cs hescape hpart ih =>
    obtain ⟨others, hothers, rfl⟩ := Scanned.eq_ok_of_map h
    rw [← head?_apart (he.ne (by decide) : 'u' ≠ e)] at hescape
    rw [List.cons_append, scanWord, if_neg hescape, if_pos hpart, ih (Nat.zero_le _) hothers]
    rfl
  | case7 n c cs hescape hpart =>
    rw [← head?_apart (he.ne (by decide) : 'u' ≠ e)] at hescape
    rw [List.cons_append, scanWord, if_neg hescape, if_neg hpart]
    exact h

theorem Symbol.separator_not_mem (s : Symbol) : e ∉ s.text.toList := by
  rcases he with rfl | rfl <;> cases s <;> decide

theorem Symbol.opens_apart (s : Symbol) : s.opens (cs ++ e :: rest) = s.opens cs := by
  unfold Symbol.opens
  rw [isPrefixOf_apart (s.separator_not_mem he)]
  by_cases hbegins : s.text.toList.isPrefixOf cs = true
  · by_cases hs : s = .questionDot
    · subst hs
      have hlength : 2 ≤ cs.length := (List.isPrefixOf_iff_prefix.1 hbegins).length_le
      rw [getElem?_any_apart he.isDigit hlength]
    · rw [beq_false_of_ne hs, Bool.false_and, Bool.false_and]
  · simp [hbegins]

theorem Symbol.read?_apart : Symbol.read? (cs ++ e :: rest) = Symbol.read? cs := by
  simp only [Symbol.read?, Symbol.opens_apart he]

/-! ## Tokens -/

theorem scanToken_apart {regexAllowed : Bool} {depth last size : Nat} {body : TokenBody}
    (hne : cs ≠ []) (h : scanToken regexAllowed depth cs = (.ok body size, last)) :
    scanToken regexAllowed depth (cs ++ e :: rest) = (.ok body size, last) := by
  obtain ⟨c, cs, rfl⟩ := List.exists_cons_of_ne_nil hne
  have hpoint : (cs ++ e :: rest).head?.any Char.isDigit = cs.head?.any Char.isDigit :=
    head?_any_apart he.isDigit
  have hescape : ((cs ++ e :: rest).head? == some 'u') = (cs.head? == some 'u') :=
    head?_apart (he.ne (by decide))
  have hsymbol : Symbol.read? (c :: cs ++ e :: rest) = Symbol.read? (c :: cs) :=
    Symbol.read?_apart he
  rw [List.cons_append] at hsymbol ⊢
  rw [scanToken] at h ⊢
  rw [hpoint, hescape, hsymbol]
  split
  · rw [if_pos ‹_›] at h
    rw [← List.cons_append, scanNumber_apart he]
    exact h
  rw [if_neg ‹_›] at h
  split
  · rw [if_pos ‹_›] at h
    obtain ⟨value, hvalue, rfl⟩ := Scanned.eq_ok_of_map (congrArg Prod.fst h)
    obtain rfl : depth = last := congrArg Prod.snd h
    rw [scanString_append hvalue]
    rfl
  rw [if_neg ‹_›] at h
  split
  · rw [if_pos ‹_›] at h
    exact scanTemplate_apart h
  rw [if_neg ‹_›] at h
  split
  · rw [if_pos ‹_›] at h
    have hregex : scanRegex (c :: cs) = .ok body size := congrArg Prod.fst h
    obtain rfl : depth = last := congrArg Prod.snd h
    rw [← List.cons_append, scanRegex_apart he hregex]
  rw [if_neg ‹_›] at h
  split
  · rw [if_pos ‹_›] at h
    cases hword : scanWord 0 0 (c :: cs) with
    | fail =>
      rw [hword] at h
      cases h
    | ok name n =>
      have hn : n ≤ (c :: cs).length := by
        have hwithin := scanWord_within 0 0 (c :: cs)
        rw [hword, Nat.zero_add] at hwithin
        exact hwithin
      rw [hword] at h
      rw [← List.cons_append, scanWord_apart he (Nat.zero_le _) hword]
      dsimp only at h ⊢
      rw [List.take_append_of_le_length hn]
      exact h
  rw [if_neg ‹_›] at h
  exact h

end

end WidgetLint.Script
