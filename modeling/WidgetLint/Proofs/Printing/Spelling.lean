import Mathlib.Data.List.TakeWhile
import Mathlib.Tactic.Tauto
import WidgetLint.Proofs.Printing.Fit
import WidgetLint.Proofs.Printing.Numerals

/-!
# Reading single printed tokens

The printed spelling of a token is read as that token if the character after it does not belong to
it as well (`TokenBody.Plain.scanToken`). `TokenBody.Plain` says which tokens have such a spelling:
words without escapes, strings without NUL, non-negative finite numbers, and the templates and
regular expressions that can be written at all.
-/

namespace WidgetLint.Script

open Text Number

variable {rest : List Char}

/-! ## Where tokens end -/

/-- Whether a punctuator stays what it is when the character follows it. -/
def Symbol.stopsAt (s : Symbol) (c : Char) : Bool :=
  !(Symbol.all.any fun t => (s.text.toList ++ [c]).isPrefixOf t.text.toList) &&
    !((s == .dot || s == .questionDot) && c.isDigit) &&
    !(s == .slash && (c == '/' || c == '*')) &&
    !(s == .less && c == '!') && !(s == .minusMinus && c == '>')

/-- Whether a token stays what it is when the character follows it. -/
def TokenBody.stopsAt : TokenBody → Char → Bool
  | .number _, c => !(c.isDigit || c == '.' || isWordStart c)
  | .word _, c | .boolean _, c | .null, c | .regex .., c => !(isWordPart c || c == '\\')
  | .symbol s, c => s.stopsAt c
  | .string _, _ | .template _, _ => true
  | .eof, _ => false

/-- Whether what follows a token does not belong to it. -/
def TokenBody.Ends (body : TokenBody) (rest : List Char) : Prop :=
  ∀ c ∈ rest.head?, body.stopsAt c = true

/-- Whether a slash at the beginning of a token is read as it is meant. -/
def TokenBody.fitsSlash (regexAllowed : Bool) : TokenBody → Bool
  | .symbol .slash | .symbol .slashEq => !regexAllowed
  | .regex .. => regexAllowed
  | _ => true

/-! ## Punctuators -/

theorem Symbol.mem_all (s : Symbol) : s ∈ Symbol.all := by
  cases s <;> decide

theorem Symbol.not_prefix_before (s : Symbol) : ∀ t ∈ Symbol.all.takeWhile (· != s),
    t.text.toList.isPrefixOf s.text.toList = false := by
  have hall : ∀ s ∈ Symbol.all, ∀ t ∈ Symbol.all.takeWhile (· != s),
      t.text.toList.isPrefixOf s.text.toList = false := by
    decide +kernel
  exact hall s s.mem_all

theorem Symbol.all_split (s : Symbol) :
    ∃ after, Symbol.all = Symbol.all.takeWhile (· != s) ++ s :: after := by
  cases s <;> exact ⟨_, rfl⟩

theorem Symbol.read?_text (s : Symbol) (hend : ∀ c ∈ rest.head?, s.stopsAt c = true) :
    Symbol.read? (s.text.toList ++ rest) = some s := by
  rw [Symbol.read?, List.find?_eq_some_iff_append]
  obtain ⟨later, hsplit⟩ := s.all_split
  refine ⟨?_, _, later, hsplit, fun t ht => ?_⟩
  · have hprefix : s.text.toList.isPrefixOf (s.text.toList ++ rest) = true := by
      simp
    rw [Symbol.opens, hprefix, Bool.true_and, Bool.not_eq_true', Bool.and_eq_false_iff]
    by_cases hs : s = .questionDot
    · subst hs
      refine .inr ?_
      cases rest with
      | nil => rfl
      | cons c rest =>
        have hstop := hend c rfl
        simp only [Symbol.stopsAt, Bool.and_eq_true, Bool.not_eq_true'] at hstop
        simpa [Symbol.text] using hstop.1.1.1.2
    · exact .inl (by simpa using hs)
  · have hbefore := s.not_prefix_before t ht
    rw [Bool.not_eq_true', Symbol.opens, Bool.and_eq_false_iff]
    refine .inl (Bool.eq_false_iff.2 fun hopen => ?_)
    rw [List.isPrefixOf_iff_prefix] at hopen
    rcases List.prefix_or_prefix_of_prefix hopen (List.prefix_append _ _) with hshort | ⟨more, hmore⟩
    · rw [List.isPrefixOf_iff_prefix.2 hshort] at hbefore
      cases hbefore
    · -- A longer punctuator would begin here, so one begins with the next character, too.
      rw [← hmore, List.prefix_append_right_inj] at hopen
      cases more with
      | nil =>
        rw [← hmore, List.append_nil, List.isPrefixOf_iff_prefix.2 (List.prefix_refl _)] at hbefore
        cases hbefore
      | cons c more =>
        obtain ⟨others, rfl⟩ := hopen
        have hstop := hend c rfl
        have hlong : (s.text.toList ++ [c]).isPrefixOf t.text.toList = true :=
          List.isPrefixOf_iff_prefix.2 ⟨more, by simpa using hmore⟩
        have hany : Symbol.all.any (fun t => (s.text.toList ++ [c]).isPrefixOf t.text.toList) = true :=
          List.any_eq_true.2 ⟨t, t.mem_all, hlong⟩
        rw [Symbol.stopsAt, hany] at hstop
        cases hstop

/-- The characters with which punctuators begin. -/
def Symbol.marks : List Char :=
  ['>', '.', '=', '!', '*', '<', '&', '|', '?', '+', '-', '/', '%', '^', '~', '(', ')', '[', ']',
    '\x7b', '\x7d', ',', ':', ';']

theorem Symbol.marks_begin : ∀ c ∈ Symbol.marks, c.isDigit = false ∧ isWordStart c = false ∧
    isWhiteSpace c = false ∧ c ≠ '"' ∧ c ≠ '\'' ∧ c ≠ '\x60' ∧ c ≠ '\\' := by
  simp [Symbol.marks, isWordStart_ascii, isWhiteSpace]

/-- A punctuator begins with one of the marks. If that is a point or a slash, the punctuator is one of
a few. -/
theorem Symbol.text_eq_cons (s : Symbol) : ∃ c cs, s.text.toList = c :: cs ∧ c ∈ Symbol.marks ∧
    (c = '.' → s = .dot ∨ cs.head? = some '.') ∧ (c = '/' → s = .slash ∨ s = .slashEq) := by
  cases s <;> exact ⟨_, _, rfl, by decide, by decide, by decide⟩

theorem Symbol.not_comment (s : Symbol) (hend : ∀ c ∈ rest.head?, s.stopsAt c = true)
    (lineStart : Bool) :
    opensLineComment lineStart (s.text.toList ++ rest) = false ∧
      ['/', '*'].isPrefixOf (s.text.toList ++ rest) = false := by
  cases rest with
  | nil => cases s <;> cases lineStart <;> decide
  | cons c rest =>
    have hstop := hend c rfl
    have hne {d : Char} (hd : s.stopsAt d = false) : d ≠ c := by
      rintro rfl
      exact Bool.false_ne_true (hd.symm.trans hstop)
    cases s
    case minusMinus =>
      have hgreater : '>' ≠ c := hne (by decide)
      simp [opensLineComment, Symbol.text, List.isPrefixOf, hgreater]
    case minus =>
      have hminus : '-' ≠ c := hne (by decide)
      simp [opensLineComment, Symbol.text, List.isPrefixOf, hminus]
    case slash =>
      have hslash : '/' ≠ c := hne (by decide)
      have hstar : '*' ≠ c := hne (by decide)
      simp [opensLineComment, Symbol.text, List.isPrefixOf, hslash, hstar]
    case less =>
      have hnot : '!' ≠ c := hne (by decide)
      simp [opensLineComment, Symbol.text, List.isPrefixOf, hnot]
    all_goals simp [opensLineComment, Symbol.text, List.isPrefixOf]

/-! ## Words -/

theorem scanWord_append {name : List Char} (h : ∀ c ∈ name, isWordPart c = true)
    (hend : ∀ c ∈ rest.head?, isWordPart c = false ∧ c ≠ '\\') (n : Nat) :
    scanWord n 0 (name ++ rest) = .ok name (n + name.length) := by
  induction name generalizing n with
  | nil =>
    cases rest with
    | nil => rfl
    | cons c rest =>
      obtain ⟨hpart, hslash⟩ := hend c rfl
      simp [scanWord, hpart, hslash]
  | cons c name ih =>
    obtain ⟨hc, hname⟩ := List.forall_mem_cons.1 h
    have hslash : c ≠ '\\' := by
      rintro rfl
      exact absurd hc (by simp [isWordPart_ascii])
    rw [List.cons_append, scanWord, if_neg (by simp [hslash]), if_pos hc, ih hname]
    simp only [Scanned.map, List.length_cons]
    congr 1
    omega

/-! ## Strings -/

theorem scanString_skip (quote : Char) {cs : List Char} {skip : Nat} (h : cs.length = skip)
    (n : Nat) : scanString quote n skip (cs ++ rest) = scanString quote (n + skip) 0 rest := by
  induction cs generalizing n skip with
  | nil =>
    subst h
    rfl
  | cons c cs ih =>
    obtain ⟨skip, rfl⟩ : ∃ k, skip = k + 1 := ⟨cs.length, by simpa using h.symm⟩
    rw [List.cons_append, scanString, ih (by simpa using h)]
    congr 1
    omega

theorem fourHexDigits_control : ∀ n < 160,
    ∃ d e, fourHexDigits n = '0' :: '0' :: [d, e] ∧ isDigitIn 16 d = true ∧ isDigitIn 16 e = true ∧
      hexChar? ['0', '0', d, e] = some (Char.ofNat n) := by
  intro n hn
  refine ⟨hexDigit (n / 16 % 16), hexDigit (n % 16), ?_⟩
  revert n
  decide +kernel

theorem scanString_escape {letters : List Char} {c : Char} (hletters : letters ≠ [])
    (h : scanEscape (letters ++ rest) = .ok (some c) letters.length) (n : Nat) :
    scanString '"' n 0 ('\\' :: letters ++ rest) =
      (scanString '"' (n + (letters.length + 1)) 0 rest).map (c :: ·) := by
  have hsome : (letters ++ rest).isEmpty = false := by
    cases letters with
    | nil => exact absurd rfl hletters
    | cons d letters => rfl
  have hskip : scanString '"' (n + 1) letters.length (letters ++ rest) =
      scanString '"' (n + (letters.length + 1)) 0 rest := by
    rw [scanString_skip '"' rfl]
    congr 1
    omega
  rw [List.cons_append, scanString, if_neg (by decide), if_neg (by decide), if_pos rfl, hsome,
    if_neg Bool.false_ne_true, h]
  simp only [hskip]
  rfl

theorem scanEscape_control {c : Char} (h : isControl c = true) :
    scanEscape ('u' :: fourHexDigits c.toNat ++ rest) = .ok (some c) 5 := by
  have hlimit : c.toNat < 160 := by
    simp only [isControl, Bool.or_eq_true, Bool.and_eq_true, decide_eq_true_eq] at h
    omega
  obtain ⟨d, e, hdigits, hd, he, hchar⟩ := fourHexDigits_control c.toNat hlimit
  have hzero : isDigitIn 16 '0' = true := by decide
  rw [Char.ofNat_toNat] at hchar
  rw [hdigits]
  simp [scanEscape, scanHexEscape, hd, he, hzero, hchar]

theorem scanString_quoteChar {c : Char} (hc : c ≠ '\x00') (n : Nat) :
    scanString '"' n 0 (quoteChar c ++ rest) =
      (scanString '"' (n + (quoteChar c).length) 0 rest).map (c :: ·) := by
  by_cases hescaped : c ∈ ['"', '\\', '\n', '\r', '\t', '\x08', '\x0b', '\x0c']
  · simp only [List.mem_cons, List.not_mem_nil, or_false] at hescaped
    rcases hescaped with rfl | rfl | rfl | rfl | rfl | rfl | rfl | rfl <;>
      exact scanString_escape (List.cons_ne_nil _ _) rfl n
  · simp only [List.mem_cons, List.not_mem_nil, or_false, not_or] at hescaped
    obtain ⟨hquote, hslash, hline, hreturn, htab, hback, hvertical, hfeed⟩ := hescaped
    by_cases hcontrol : isControl c = true
    · have hwritten : quoteChar c = '\\' :: ('u' :: fourHexDigits c.toNat) := by
        simp [quoteChar, hquote, hslash, hline, hreturn, htab, hback, hvertical, hfeed, hc, hcontrol]
      rw [hwritten]
      exact scanString_escape (List.cons_ne_nil _ _) (scanEscape_control hcontrol) n
    · have hwritten : quoteChar c = [c] := by
        simp [quoteChar, hquote, hslash, hline, hreturn, htab, hback, hvertical, hfeed, hc, hcontrol]
      rw [hwritten]
      simp [scanString, hquote, hslash, hline]

/-- What a string between double quotes is read back as: the escape of NUL is not one before a digit,
where the digit zero is read. -/
def readBack : List Char → List Char
  | [] => []
  | c :: rest => (if c = '\x00' ∧ rest.head?.any Char.isDigit then '0' else c) :: readBack rest

theorem readBack_of_not_mem {value : List Char} (h : '\x00' ∉ value) : readBack value = value := by
  induction value with
  | nil => rfl
  | cons c value ih =>
    simp only [List.mem_cons, not_or] at h
    rw [readBack, if_neg fun hnull => h.1 hnull.1.symm, ih h.2]

theorem quoteChar_head (c : Char) (rest : List Char) :
    (quoteChar c ++ rest).head?.any Char.isDigit = c.isDigit := by
  by_cases hescaped : c ∈ ['"', '\\', '\n', '\r', '\t', '\x08', '\x0b', '\x0c', '\x00']
  · simp only [List.mem_cons, List.not_mem_nil, or_false] at hescaped
    rcases hescaped with rfl | rfl | rfl | rfl | rfl | rfl | rfl | rfl | rfl <;> rfl
  · simp only [List.mem_cons, List.not_mem_nil, or_false, not_or] at hescaped
    obtain ⟨hquote, hslash, hline, hreturn, htab, hback, hvertical, hfeed, hnull⟩ := hescaped
    simp only [quoteChar, hquote, hslash, hline, hreturn, htab, hback, hvertical, hfeed, hnull,
      if_false]
    split
    · rename_i hcontrol
      simp only [isControl, Bool.or_eq_true, Bool.and_eq_true, decide_eq_true_eq] at hcontrol
      have hdigit : c.isDigit = false := by
        refine Bool.eq_false_iff.2 fun hdigit => ?_
        have hrange : 48 ≤ c.toNat ∧ c.toNat ≤ 57 := Char.isDigit_iff_toNat.1 hdigit
        omega
      rw [hdigit]
      rfl
    · rfl

theorem scanString_null (n : Nat) :
    scanString '"' n 0 (quoteChar '\x00' ++ rest) =
      (scanString '"' (n + 2) 0 rest).map
        ((if rest.head?.any Char.isDigit then '0' else '\x00') :: ·) :=
  scanString_escape (List.cons_ne_nil '0' []) rfl n

theorem scanString_quote (value : List Char) (n : Nat) :
    scanString '"' n 0 (value.flatMap quoteChar ++ '"' :: rest) =
      .ok (readBack value) (n + (value.flatMap quoteChar).length + 1) := by
  induction value generalizing n with
  | nil => simp [scanString, readBack]
  | cons c value ih =>
    have hhead : (value.flatMap quoteChar ++ '"' :: rest).head?.any Char.isDigit =
        value.head?.any Char.isDigit := by
      cases value with
      | nil => rfl
      | cons d value => rw [List.flatMap_cons, List.append_assoc, quoteChar_head]; rfl
    have hsize (m : Nat) : n + m + (value.flatMap quoteChar).length + 1 =
        n + (m + (value.flatMap quoteChar).length) + 1 := by omega
    rw [List.flatMap_cons, List.append_assoc, List.length_append, readBack, ← hsize]
    by_cases hnull : c = '\x00'
    · subst hnull
      rw [scanString_null, hhead, ih]
      simp [Scanned.map, quoteChar]
    · rw [scanString_quoteChar hnull, ih, if_neg fun h => hnull h.1]
      rfl

/-! ## Templates and regular expressions -/

/-- Whether a raw text stands between the backticks of one template literal. -/
def IsTemplateText (raw : List Char) : Prop :=
  ∀ rest, templateFrom 0 1 .text [] (raw ++ '\x60' :: rest) = (.ok raw (raw.length + 2), 0)

/-- Whether a text is the pattern of a regular expression: it ends only where it is meant to, and
it makes no comment of its slash. -/
structure IsPattern (pattern : List Char) : Prop where
  ends : ∀ rest, regexFrom false 1 (pattern ++ '/' :: rest) = .ok pattern (pattern.length + 2)
  starts : ∃ c cs, pattern = c :: cs ∧ c ≠ '*' ∧ c ≠ '/'

theorem scanTemplate_append {raw : List Char} (h : IsTemplateText raw) :
    scanTemplate 0 ('\x60' :: (raw ++ '\x60' :: rest)) =
      (.ok (.template (String.ofList raw)) (raw.length + 2), 0) := by
  rw [scanTemplate, List.drop_one, List.tail_cons, h rest]
  rfl

theorem scanRegex_of_ends {pattern : List Char} (c : Char)
    (h : ∀ rest, regexFrom false 1 (pattern ++ '/' :: rest) = .ok pattern (pattern.length + 2)) :
    scanRegex (c :: (pattern ++ '/' :: rest)) =
      .ok (.regex (String.ofList pattern) (String.ofList (rest.takeWhile isWordPart)))
        (pattern.length + 2 + (rest.takeWhile isWordPart).length) := by
  rw [scanRegex, List.drop_one, List.tail_cons, h]
  simp

theorem scanRegex_append {pattern flags : List Char} (h : IsPattern pattern)
    (hflags : ∀ c ∈ flags, isWordPart c = true) (hend : ∀ c ∈ rest.head?, isWordPart c = false) :
    scanRegex ('/' :: (pattern ++ '/' :: (flags ++ rest))) =
      .ok (.regex (String.ofList pattern) (String.ofList flags))
        (pattern.length + 2 + flags.length) := by
  have hrun : (flags ++ rest).takeWhile isWordPart = flags := by
    rw [List.takeWhile_append_of_pos hflags]
    cases rest with
    | nil => simp
    | cons c rest => rw [List.takeWhile_cons_of_neg (by simp [hend c rfl]), List.append_nil]
  rw [scanRegex_of_ends '/' h.ends, hrun]

/-! ## Tokens -/

/-- Whether a token is read back from its spelling. -/
def TokenBody.Plain : TokenBody → Prop
  | .number value => ∃ units, value = .finite false units ∧ IsDouble units ∧ units < unitsLimit
  | .string value => '\x00' ∉ value.toList
  | .template raw => IsTemplateText raw.toList
  | .regex pattern flags => IsPattern pattern.toList ∧ ∀ c ∈ flags.toList, isWordPart c = true
  | .boolean _ | .null | .symbol _ => True
  | .word name => isWordText name = true ∧ isLiteralWord name = false
  | .eof => False

section
variable {regexAllowed : Bool}

theorem isWordText_of_isLiteralWord {name : String} (h : isLiteralWord name = true) :
    isWordText name = true := by
  simp only [isLiteralWord, Bool.or_eq_true, beq_iff_eq] at h
  rcases h with (rfl | rfl) | rfl <;> simp [isWordText, isWordStart_ascii, isWordPart_ascii]

theorem scanToken_name {name : String} (h : isWordText name = true)
    (hend : ∀ c ∈ rest.head?, isWordPart c = false ∧ c ≠ '\\') :
    scanToken regexAllowed 0 (name.toList ++ rest) =
      (.ok (wordBody name name.toList) name.toList.length, 0) := by
  obtain ⟨c, cs, hname, hstart, hparts⟩ := isWordText_eq_cons h
  have hdigit : c.isDigit = false := by
    refine Bool.eq_false_iff.2 fun hdigit => ?_
    rw [isWordStart_of_isDigit hdigit] at hstart
    cases hstart
  have hpoint : c ≠ '.' := ne_of_isWordStart hstart (by simp [isWordStart_ascii])
  have hquote : c ≠ '"' := ne_of_isWordStart hstart (by simp [isWordStart_ascii])
  have hsingle : c ≠ '\'' := ne_of_isWordStart hstart (by simp [isWordStart_ascii])
  have htick : c ≠ '\x60' := ne_of_isWordStart hstart (by simp [isWordStart_ascii])
  have hslash : c ≠ '/' := ne_of_isWordStart hstart (by simp [isWordStart_ascii])
  have hscan : scanWord 0 0 (name.toList ++ rest) = .ok name.toList name.toList.length := by
    rw [scanWord_append (by rw [hname]; exact hparts) hend, Nat.zero_add]
  have hlexeme : String.ofList ((name.toList ++ rest).take name.toList.length) = name := by
    simp
  rw [hname, List.cons_append] at hscan hlexeme ⊢
  rw [scanToken, if_neg (by simp [hdigit, hpoint]), if_neg (by simp [hquote, hsingle]),
    if_neg (by simp [htick]), if_neg (by simp [hslash]), if_pos (by simp [hstart]), hscan]
  dsimp only
  rw [hlexeme]

theorem scanToken_number {units : Nat} (hdouble : IsDouble units) (hlimit : units < unitsLimit)
    (hend : EndsNumeral rest) :
    scanToken regexAllowed 0 ((Binary64.finite false units).render.toList ++ rest) =
      (.ok (.number (.finite false units)) (Binary64.finite false units).render.toList.length,
        0) := by
  have hscan := scanNumber_double hdouble hlimit hend
  obtain ⟨c, cs, htext, hc⟩ := Binary64.render_eq_cons units
  rw [htext, List.cons_append] at hscan ⊢
  rw [scanToken, hc, Bool.true_or, if_pos rfl, hscan]
  rfl

theorem scanToken_quote (value : String) :
    scanToken regexAllowed 0 ((quote value).toList ++ rest) =
      (.ok (.string (String.ofList (readBack value.toList))) (quote value).toList.length, 0) := by
  have htext : (quote value).toList = '"' :: (value.toList.flatMap quoteChar ++ ['"']) := by
    simp [quote]
  rw [htext, List.cons_append, List.append_assoc, scanToken, if_neg (by simp), if_pos (by simp),
    List.singleton_append, scanString_quote]
  have hsize : 1 + (value.toList.flatMap quoteChar).length + 1 =
      ('"' :: (value.toList.flatMap quoteChar ++ ['"'])).length := by
    simp only [List.length_cons, List.length_append, List.length_nil]
    omega
  rw [hsize, Scanned.map]

theorem scanToken_string {value : String} (h : '\x00' ∉ value.toList) :
    scanToken regexAllowed 0 ((quote value).toList ++ rest) =
      (.ok (.string value) (quote value).toList.length, 0) := by
  rw [scanToken_quote, readBack_of_not_mem h, String.ofList_toList]

theorem scanToken_template {raw : String} (h : IsTemplateText raw.toList) :
    scanToken regexAllowed 0 ('\x60' :: (raw.toList ++ '\x60' :: rest)) =
      (.ok (.template raw) (raw.toList.length + 2), 0) := by
  rw [scanToken, if_neg (by simp), if_neg (by simp), if_pos (by simp), scanTemplate_append h,
    String.ofList_toList]

theorem scanToken_regex {pattern flags : String} (h : IsPattern pattern.toList)
    (hflags : ∀ c ∈ flags.toList, isWordPart c = true)
    (hend : ∀ c ∈ rest.head?, isWordPart c = false) :
    scanToken true 0 ('/' :: (pattern.toList ++ '/' :: (flags.toList ++ rest))) =
      (.ok (.regex pattern flags) (pattern.toList.length + 2 + flags.toList.length), 0) := by
  rw [scanToken, if_neg (by simp), if_neg (by simp), if_neg (by simp), if_pos (by simp),
    scanRegex_append h hflags hend, String.ofList_toList, String.ofList_toList]

theorem scanToken_symbol {s : Symbol} (hend : ∀ c ∈ rest.head?, s.stopsAt c = true)
    (hslash : (TokenBody.symbol s).fitsSlash regexAllowed = true) :
    scanToken regexAllowed 0 (s.text.toList ++ rest) =
      (.ok (.symbol s) s.text.toList.length, 0) := by
  have hread := s.read?_text hend
  obtain ⟨c, cs, htext, hmark, hpoint, hdivide⟩ := s.text_eq_cons
  obtain ⟨hdigit, hstart, -, hquote, hsingle, htick, hback⟩ := Symbol.marks_begin c hmark
  have hnumber : (c.isDigit || c == '.' && (cs ++ rest).head?.any Char.isDigit) = false := by
    rw [hdigit, Bool.false_or, Bool.and_eq_false_iff]
    by_cases hc : c = '.'
    · refine .inr ?_
      rcases hpoint hc with rfl | hnext
      · cases htext
        cases rest with
        | nil => rfl
        | cons d rest =>
          have hstop := hend d rfl
          simp only [Symbol.stopsAt, Bool.and_eq_true, Bool.not_eq_true'] at hstop
          simpa using hstop.1.1.1.2
      · rw [List.head?_append, hnext]
        rfl
    · exact .inl (by simpa using hc)
  have hregex : (c == '/' && regexAllowed) = false := by
    rw [Bool.and_eq_false_iff]
    by_cases hc : c = '/'
    · refine .inr ?_
      rcases hdivide hc with rfl | rfl <;> simpa [TokenBody.fitsSlash] using hslash
    · exact .inl (by simpa using hc)
  rw [htext, List.cons_append] at hread ⊢
  rw [scanToken, hnumber, if_neg Bool.false_ne_true, if_neg (by simp [hquote, hsingle]),
    if_neg (by simp [htick]), hregex, if_neg Bool.false_ne_true, if_neg (by simp [hstart, hback]),
    hread, ← htext, String.length_toList]

end

theorem TokenBody.Plain.scanToken {body : TokenBody} (h : body.Plain) (hend : body.Ends rest)
    {regexAllowed : Bool} (hslash : body.fitsSlash regexAllowed = true) :
    scanToken regexAllowed 0 (body.spelling.toList ++ rest) =
      (.ok body body.spelling.toList.length, 0) := by
  have hword (hstops : ∀ c, body.stopsAt c = !(isWordPart c || c == '\\')) :
      ∀ c ∈ rest.head?, isWordPart c = false ∧ c ≠ '\\' := by
    intro c hc
    have hstop := hend c hc
    rw [hstops] at hstop
    simpa using hstop
  cases body with
  | number value =>
    obtain ⟨units, rfl, hdouble, hlimit⟩ := h
    refine scanToken_number hdouble hlimit fun c hc => ?_
    have hstop := hend c hc
    simpa [TokenBody.stopsAt, and_assoc] using hstop
  | string value => exact scanToken_string h
  | template raw =>
    have htext : (TokenBody.template raw).spelling.toList = '\x60' :: (raw.toList ++ ['\x60']) := by
      simp [TokenBody.spelling]
    rw [htext, List.cons_append, List.append_assoc, List.singleton_append, scanToken_template h]
    simp
  | regex pattern flags =>
    obtain ⟨hpattern, hflags⟩ := h
    have htext : (TokenBody.regex pattern flags).spelling.toList =
        '/' :: (pattern.toList ++ '/' :: flags.toList) := by
      simp [TokenBody.spelling]
    have hallowed : regexAllowed = true := hslash
    rw [htext, hallowed, List.cons_append, List.append_assoc, List.cons_append,
      scanToken_regex hpattern hflags fun c hc => (hword (fun _ => rfl) c hc).1]
    simp only [List.length_cons, List.length_append, Prod.mk.injEq, and_true]
    congr 1
    omega
  | boolean value =>
    cases value with
    | true => exact scanToken_name (isWordText_of_isLiteralWord rfl) (hword fun _ => rfl)
    | false => exact scanToken_name (isWordText_of_isLiteralWord rfl) (hword fun _ => rfl)
  | null => exact scanToken_name (isWordText_of_isLiteralWord rfl) (hword fun _ => rfl)
  | word name =>
    have hscan : Script.scanToken regexAllowed 0 (name.toList ++ rest) =
        (.ok (wordBody name name.toList) name.toList.length, 0) :=
      scanToken_name h.1 (hword fun _ => rfl)
    rw [wordBody_eq h.2] at hscan
    exact hscan
  | symbol s => exact scanToken_symbol hend hslash
  | eof => cases h

/-! ## Gaps before tokens -/

theorem gapFrom_stop {c : Char} {cs : List Char} {lineStart : Bool} (hblank : isWhiteSpace c = false)
    (hline : opensLineComment lineStart (c :: cs) = false)
    (hblock : ['/', '*'].isPrefixOf (c :: cs) = false) (newline : Bool) (n : Nat) :
    gapFrom .blank newline lineStart n (c :: cs) = ⟨newline, lineStart, .ok () n⟩ := by
  have hend : isLineEnd c = false := by
    refine Bool.eq_false_iff.2 fun hend => ?_
    rw [isWhiteSpace_of_isLineEnd hend] at hblank
    cases hblank
  rw [gapFrom, hend, hblank, hline, if_neg Bool.false_ne_true, if_neg Bool.false_ne_true,
    if_neg Bool.false_ne_true]
  rintro rest rfl rfl
  simp [List.isPrefixOf] at hblock

/-- Neither a blank nor a comment begins with the character, whatever comes after it. -/
def BeginsToken (c : Char) : Prop :=
  isWhiteSpace c = false ∧ c ≠ '/' ∧ c ≠ '<' ∧ c ≠ '-'

theorem BeginsToken.gapFrom {c : Char} (h : BeginsToken c) (cs : List Char)
    (newline lineStart : Bool) (n : Nat) :
    gapFrom .blank newline lineStart n (c :: cs) = ⟨newline, lineStart, .ok () n⟩ := by
  obtain ⟨hblank, hslash, hless, hminus⟩ := h
  refine gapFrom_stop hblank ?_ ?_ newline n
  · simp [opensLineComment, List.isPrefixOf, hslash.symm, hless.symm, hminus.symm]
  · simp [List.isPrefixOf, hslash.symm]

theorem beginsToken_of_isWordStart {c : Char} (h : isWordStart c = true) : BeginsToken c := by
  refine ⟨Bool.eq_false_iff.2 fun hblank => ?_, ne_of_isWordStart h (by simp [isWordStart_ascii]),
    ne_of_isWordStart h (by simp [isWordStart_ascii]), ne_of_isWordStart h (by simp [isWordStart_ascii])⟩
  have hpart := isWordPart_of_isWordStart h
  rw [isWordPart_of_isWhiteSpace hblank] at hpart
  cases hpart

theorem beginsToken_of_isDigit {c : Char} (h : c.isDigit = true) : BeginsToken c := by
  have hrange : 48 ≤ c.toNat ∧ c.toNat ≤ 57 := Char.isDigit_iff_toNat.1 h
  refine ⟨?_, ?_, ?_, ?_⟩
  · simp only [isWhiteSpace, Bool.or_eq_false_iff, Bool.and_eq_false_iff, decide_eq_false_iff_not,
      beq_eq_false_iff_ne]
    omega
  all_goals
    rintro rfl
    revert h
    decide

theorem TokenBody.Plain.gapFrom {body : TokenBody} (h : body.Plain) (hend : body.Ends rest)
    (newline lineStart : Bool) (n : Nat) :
    gapFrom .blank newline lineStart n (body.spelling.toList ++ rest) =
      ⟨newline, lineStart, .ok () n⟩ := by
  have hname {name : String} (hword : isWordText name = true) :
      Script.gapFrom .blank newline lineStart n (name.toList ++ rest) =
        ⟨newline, lineStart, .ok () n⟩ := by
    obtain ⟨c, cs, hname, hstart, -⟩ := isWordText_eq_cons hword
    rw [hname]
    exact (beginsToken_of_isWordStart hstart).gapFrom _ _ _ _
  cases body with
  | number value =>
    obtain ⟨units, rfl, -, -⟩ := h
    obtain ⟨c, cs, htext, hc⟩ := Binary64.render_eq_cons units
    rw [TokenBody.spelling, htext]
    exact (beginsToken_of_isDigit hc).gapFrom _ _ _ _
  | string value =>
    have htext : (quote value).toList = '"' :: (value.toList.flatMap quoteChar ++ ['"']) := by
      simp [quote]
    rw [TokenBody.spelling, htext]
    exact BeginsToken.gapFrom ⟨by decide, by decide, by decide, by decide⟩ _ _ _ _
  | template raw =>
    have htext : (TokenBody.template raw).spelling.toList = '\x60' :: (raw.toList ++ ['\x60']) := by
      simp [TokenBody.spelling]
    rw [htext]
    exact BeginsToken.gapFrom ⟨by decide, by decide, by decide, by decide⟩ _ _ _ _
  | regex pattern flags =>
    obtain ⟨c, cs, hpattern, hstar, hslash⟩ := h.1.starts
    have htext : (TokenBody.regex pattern flags).spelling.toList =
        '/' :: c :: (cs ++ '/' :: flags.toList) := by
      simp [TokenBody.spelling, hpattern]
    rw [htext]
    refine gapFrom_stop (by decide) ?_ ?_ newline n
    · simp [opensLineComment, List.isPrefixOf, hslash.symm]
    · simp [List.isPrefixOf, hstar.symm]
  | boolean value =>
    cases value with
    | true => exact hname (isWordText_of_isLiteralWord rfl)
    | false => exact hname (isWordText_of_isLiteralWord rfl)
  | null => exact hname (isWordText_of_isLiteralWord rfl)
  | word name => exact hname h.1
  | symbol s =>
    obtain ⟨hline, hblock⟩ := s.not_comment hend lineStart
    obtain ⟨c, cs, htext, hmark, -, -⟩ := s.text_eq_cons
    obtain ⟨-, -, hblank, -⟩ := Symbol.marks_begin c hmark
    rw [htext, List.cons_append] at hline hblock
    rw [TokenBody.spelling, htext, List.cons_append]
    exact gapFrom_stop hblank hline hblock newline n
  | eof => cases h

end WidgetLint.Script
