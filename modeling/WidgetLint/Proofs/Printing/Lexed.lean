import WidgetLint.Proofs.Printing.Spelling
import WidgetLint.Proofs.Text.Place
import WidgetLint.Script.Lexer

/-!
# The tokens of a text

Names that are cut from a text are words, numbers are doubles, and templates and patterns end where
they are meant to (`tokenize_lexed`). So a token of a text can be written again, unless it is a
string with a null character or a number that is too large.
-/

namespace WidgetLint.Script

open Text Number

variable {cs : List Char} {size n depth : Nat}

/-- What holds of the body of every token that is cut from a text. -/
def TokenBody.Lexed : TokenBody → Prop
  | .number value => value = .infinite false ∨ (TokenBody.number value).Plain
  | .template raw => (TokenBody.template raw).Plain
  | .regex pattern flags => (TokenBody.regex pattern flags).Plain
  | .word name => isWordText name
  | _ => True

/-- What holds of every token that is cut from a text: it does not end before it starts. -/
structure Token.Lexed (t : Token) : Prop where
  body : t.body.Lexed
  ordered : t.span.start.offset ≤ t.span.stop.offset

/-! ## Numbers -/

theorem lexed_ofUnits (num den : Nat) : (TokenBody.number (.ofUnits num den)).Lexed := by
  unfold Binary64.ofUnits
  dsimp only
  split
  · rename_i hlimit
    exact .inr ⟨_, rfl, roundPlaces_isDouble num den, hlimit⟩
  · exact .inl rfl

theorem lexed_ofRadixDigits (radix : Nat) (digits : List Nat) :
    (TokenBody.number (.ofRadixDigits radix digits)).Lexed := by
  rw [Binary64.ofRadixDigits, Binary64.ofNat]
  exact lexed_ofUnits _ _

theorem lexed_zero : (TokenBody.number .zero).Lexed :=
  .inr ⟨0, rfl, ⟨0, 0, rfl, by decide, .inl rfl⟩, twoTo_pos _⟩

theorem lexed_toBinary64 (d : Decimal) : (TokenBody.number d.toBinary64).Lexed := by
  unfold Decimal.toBinary64
  dsimp only
  split
  · exact lexed_zero
  · split
    · exact .inl rfl
    · split
      · exact lexed_zero
      · split
        · exact lexed_ofUnits _ _
        · exact lexed_ofUnits _ _

theorem scanDecimal_lexed {value : Binary64} (h : scanDecimal cs = .ok value size) :
    (TokenBody.number value).Lexed := by
  unfold scanDecimal at h
  dsimp only at h
  split at h
  · cases h
  · injection h with hvalue
    rw [← hvalue]
    split
    · exact lexed_ofRadixDigits _ _
    · exact lexed_toBinary64 _

theorem scanRadix_lexed {radix : Nat} {value : Binary64} (h : scanRadix radix cs = .ok value size) :
    (TokenBody.number value).Lexed := by
  unfold scanRadix at h
  dsimp only at h
  split at h
  · cases h
  · injection h with hvalue
    rw [← hvalue]
    exact lexed_ofRadixDigits _ _

theorem scanNumber_lexed {value : Binary64} (h : scanNumber cs = .ok value size) :
    (TokenBody.number value).Lexed := by
  unfold scanNumber at h
  dsimp only at h
  split at h
  · rename_i hscan
    split at h
    · cases h
    · injection h with hvalue
      subst hvalue
      split at hscan
      · exact scanRadix_lexed hscan
      · exact scanDecimal_lexed hscan
  · cases h

/-! ## Templates -/

theorem Scanned.eq_ok_of_map {α β : Type} {f : α → β} {found : Scanned α} {b : β}
    (h : found.map f = .ok b size) : ∃ a, found = .ok a size ∧ f a = b := by
  cases found with
  | ok a size =>
    cases h
    exact ⟨a, rfl, rfl⟩
  | fail => cases h

/-- A template that is read to its end: what is copied of it stands before a backtick, and what is
behind that does not matter. -/
structure EndsTemplate (depth n : Nat) (mode : TemplateMode) (outer : List Nat) (cs raw : List Char)
    (size last : Nat) : Prop where
  balanced : depth = last + outer.length
  slice : ∃ rest, cs = raw ++ '\x60' :: rest
  size_eq : size = n + raw.length + 1
  ends : ∀ rest, templateFrom depth n mode outer (raw ++ '\x60' :: rest) = (.ok raw size, last)

/-- A template whose next part is copied whatever comes behind, as long as it begins alike. -/
theorem EndsTemplate.step {depth' last : Nat} {mode mode' : TemplateMode} {outer outer' : List Nat}
    {rest raw : List Char} (part : List Char)
    (hdepth : depth + outer'.length = depth' + outer.length)
    (hstep : ∀ ys, ys.head? = rest.head? → templateFrom depth n mode outer (part ++ ys) =
      copying part (templateFrom depth' (n + part.length) mode' outer' ys))
    (hrest : ∀ {inner}, templateFrom depth' (n + part.length) mode' outer' rest =
      (.ok inner size, last) →
        EndsTemplate depth' (n + part.length) mode' outer' rest inner size last)
    (h : copying part (templateFrom depth' (n + part.length) mode' outer' rest) =
      (.ok raw size, last)) :
    EndsTemplate depth n mode outer (part ++ rest) raw size last := by
  obtain ⟨inner, hinner, rfl⟩ := Scanned.eq_ok_of_map (congrArg Prod.fst h)
  have hlast : (templateFrom depth' (n + part.length) mode' outer' rest).2 = last :=
    congrArg Prod.snd h
  obtain ⟨hbalanced, ⟨behind, hbehind⟩, hsize, hends⟩ := hrest (Prod.ext hinner hlast)
  refine ⟨by omega, ⟨behind, by rw [hbehind, List.append_assoc]⟩,
    by rw [List.length_append]; omega, fun rest' => ?_⟩
  rw [List.append_assoc, hstep, hends]
  · rfl
  · rw [hbehind]
    cases inner <;> rfl

theorem templateFrom_ends {mode : TemplateMode} {outer : List Nat} {raw : List Char} {last : Nat}
    (hdepth : outer.length ≤ depth)
    (h : templateFrom depth n mode outer cs = (.ok raw size, last)) :
    EndsTemplate depth n mode outer cs raw size last := by
  fun_induction templateFrom depth n mode outer cs generalizing raw with
  | case1 => cases h
  | case2 depth n outer rest ih =>
    exact .step ['$', '\x7b'] rfl (fun ys _ => by simp [templateFrom]) (ih hdepth) h
  | case3 depth n outer c rest ih =>
    exact .step ['\\', c] rfl (fun ys _ => by simp [templateFrom]) (ih hdepth) h
  | case4 depth n rest =>
    cases h
    exact ⟨rfl, ⟨rest, rfl⟩, rfl, fun rest' => by simp [templateFrom]⟩
  | case5 depth n rest braces outer _ _ ih =>
    rw [List.length_cons] at hdepth
    refine .step ['\x60'] (by simp only [List.length_cons]; omega) (fun ys _ => ?_)
      (ih (by omega)) h
    simp [templateFrom]
  | case6 depth n outer c rest hdollar hback htick ih =>
    refine .step [c] rfl (fun ys hys => ?_) (ih hdepth) h
    have hdollar' : ∀ tail, c = '$' → ys = '\x7b' :: tail → False := by
      rintro tail hc rfl
      obtain ⟨tail, htail⟩ := List.head?_eq_some_iff.1 hys.symm
      exact hdollar tail hc htail
    have hback' : ∀ next tail, c = '\\' → ys = next :: tail → False := by
      rintro next tail hc rfl
      obtain ⟨tail, htail⟩ := List.head?_eq_some_iff.1 hys.symm
      exact hback next tail hc htail
    cases outer with
    | nil => exact (templateFrom.eq_4 _ _ _ _ hdollar' hback').trans (if_neg htick)
    | cons => exact (templateFrom.eq_5 _ _ _ _ _ _ hdollar' hback').trans (if_neg htick)
  | case7 => cases h
  | case8 depth n braces outer rest hroom ih =>
    refine .step ['\x60'] (by simp only [List.length_cons]; omega) (fun ys _ => ?_)
      (ih (by simp only [List.length_cons]; omega)) h
    simp [templateFrom, hroom]
  | case9 depth n braces outer c rest htick hquote ih =>
    exact .step [c] rfl (fun ys _ => by simp_all [templateFrom]) (ih hdepth) h
  | case10 depth n braces outer rest _ _ ih =>
    exact .step ['\x7b'] rfl (fun ys _ => by simp [templateFrom]) (ih hdepth) h
  | case11 depth n braces outer rest _ _ _ ih =>
    exact .step ['\x7d'] rfl (fun ys _ => by simp [templateFrom]) (ih hdepth) h
  | case12 depth n braces outer c rest htick hquote hopen hclose ih =>
    exact .step [c] rfl (fun ys _ => by simp_all [templateFrom]) (ih hdepth) h
  | case13 depth n quote braces outer c rest ih =>
    exact .step ['\\', c] rfl (fun ys _ => by simp [templateFrom]) (ih hdepth) h
  | case14 depth n quote braces outer c rest hback ih =>
    refine .step [c] rfl (fun ys hys => ?_) (ih hdepth) h
    rw [List.singleton_append, templateFrom]
    · rfl
    · rintro next ys hc rfl
      obtain ⟨tail, htail⟩ := List.head?_eq_some_iff.1 hys.symm
      exact hback next tail hc htail

theorem scanTemplate_ends {c : Char} {body : TokenBody} {last : Nat}
    (h : scanTemplate depth (c :: cs) = (.ok body size, last)) :
    ∃ raw, body = .template (String.ofList raw) ∧
      EndsTemplate depth 1 .text [] cs raw size last := by
  obtain ⟨raw, hfound, rfl⟩ := Scanned.eq_ok_of_map (congrArg Prod.fst h)
  have hlast : (templateFrom depth 1 .text [] cs).2 = last := congrArg Prod.snd h
  exact ⟨raw, rfl, templateFrom_ends (Nat.zero_le _) (Prod.ext hfound hlast)⟩

theorem EndsTemplate.scan {raw : List Char} {last : Nat}
    (h : EndsTemplate depth 1 .text [] cs raw size last) (c : Char) (rest : List Char) :
    scanTemplate depth (c :: (raw ++ '\x60' :: rest)) =
      (.ok (.template (String.ofList raw)) size, last) := by
  rw [scanTemplate, List.drop_one, List.tail_cons, h.ends]
  rfl

theorem scanTemplate_lexed {c : Char} {body : TokenBody} {last : Nat}
    (h : scanTemplate 0 (c :: cs) = (.ok body size, last)) : body.Lexed ∧ last = 0 := by
  obtain ⟨raw, rfl, hends⟩ := scanTemplate_ends h
  obtain rfl : last = 0 := by simpa using hends.balanced.symm
  have hsize : size = raw.length + 2 := by rw [hends.size_eq]; omega
  refine ⟨fun rest => ?_, rfl⟩
  rw [String.toList_ofList, hends.ends, hsize]

/-! ## Regular expressions -/

/-- A pattern that is copied stands before a slash, and what is behind that does not matter. -/
theorem regexFrom_ends {inClass : Bool} {pattern : List Char}
    (h : regexFrom inClass n cs = .ok pattern size) :
    (∃ rest, cs = pattern ++ '/' :: rest) ∧ size = n + pattern.length + 1 ∧
      ∀ rest, regexFrom inClass n (pattern ++ '/' :: rest) = .ok pattern size := by
  fun_induction regexFrom inClass n cs generalizing pattern with
  | case1 => cases h
  | case2 => cases h
  | case3 => cases h
  | case4 inClass n c rest hc ih =>
    obtain ⟨pattern, hpattern, rfl⟩ := Scanned.eq_ok_of_map h
    obtain ⟨⟨behind, rfl⟩, rfl, hends⟩ := ih hpattern
    refine ⟨⟨behind, rfl⟩, by simp only [List.length_cons]; omega, fun rest' => ?_⟩
    rw [List.cons_append, List.cons_append, regexFrom, if_neg hc, hends]
    rfl
  | case5 => cases h
  | case6 inClass n c rest _ _ _ hslash =>
    rw [Bool.and_eq_true, decide_eq_true_eq] at hslash
    obtain ⟨rfl, hclass⟩ := hslash
    cases h
    exact ⟨⟨rest, rfl⟩, rfl, fun rest' => by simp_all [regexFrom]⟩
  | case7 inClass n c rest hlone hback hline hslash ih =>
    obtain ⟨pattern, hpattern, rfl⟩ := Scanned.eq_ok_of_map h
    obtain ⟨⟨behind, hbehind⟩, rfl, hends⟩ := ih hpattern
    have hne : c ≠ '\\' := by
      intro hc
      cases rest with
      | nil => exact hlone hc rfl
      | cons next rest => exact hback next rest hc rfl
    refine ⟨⟨behind, by rw [hbehind]; rfl⟩, by simp only [List.length_cons]; omega,
      fun rest' => ?_⟩
    rw [List.cons_append, regexFrom, if_neg hline, if_neg hslash, hends]
    · rfl
    · exact fun hc _ => hne hc
    · exact fun _ _ hc _ => hne hc

/-- The parts of a regular expression: its pattern, and the word that follows the slash. -/
theorem scanRegex_ends {c : Char} {body : TokenBody} (h : scanRegex (c :: cs) = .ok body size) :
    ∃ pattern rest,
      body = .regex (String.ofList pattern) (String.ofList (rest.takeWhile isWordPart)) ∧
      cs = pattern ++ '/' :: rest ∧
      size = pattern.length + 2 + (rest.takeWhile isWordPart).length ∧
      ∀ rest', regexFrom false 1 (pattern ++ '/' :: rest') = .ok pattern (pattern.length + 2) := by
  cases hfound : regexFrom false 1 cs with
  | fail =>
    simp only [scanRegex, List.drop_one, List.tail_cons, hfound] at h
    cases h
  | ok pattern found =>
    obtain ⟨⟨rest, rfl⟩, hsize, hends⟩ := regexFrom_ends hfound
    obtain rfl : found = pattern.length + 2 := by omega
    rw [scanRegex_of_ends c hends] at h
    cases h
    exact ⟨pattern, rest, rfl, rfl, rfl, hends⟩

theorem scanRegex_lexed {body : TokenBody}
    (hcomment : ∀ c ∈ cs.head?, c ≠ '*' ∧ c ≠ '/')
    (h : scanRegex ('/' :: cs) = .ok body size) : body.Lexed := by
  obtain ⟨pattern, rest, rfl, rfl, -, hends⟩ := scanRegex_ends h
  refine ⟨⟨fun rest' => ?_, ?_⟩, ?_⟩
  · rw [String.toList_ofList, hends]
  · rw [String.toList_ofList]
    cases pattern with
    | nil => exact absurd rfl (hcomment '/' rfl).2
    | cons c pattern => exact ⟨c, pattern, rfl, hcomment c rfl⟩
  · intro c hc
    rw [String.toList_ofList] at hc
    exact List.all_eq_true.1 List.all_takeWhile c hc

/-! ## Words -/

theorem scanWord_parts {skip : Nat} {name : List Char} (h : scanWord n skip cs = .ok name size) :
    ∀ c ∈ name, isWordPart c = true := by
  fun_induction scanWord n skip cs generalizing name size with
  | case1 =>
    cases h
    nofun
  | case2 n skip _ rest ih => exact ih h
  | case3 n c rest _ decoded skip _ hdecoded ih =>
    obtain ⟨others, hothers, rfl⟩ := Scanned.eq_ok_of_map h
    cases decoded with
    | none => cases hdecoded
    | some d =>
      refine List.forall_mem_cons.2 ⟨?_, ih hothers⟩
      rw [Option.any_some] at hdecoded
      split at hdecoded
      · exact isWordPart_of_isWordStart hdecoded
      · exact hdecoded
  | case4 => cases h
  | case5 => cases h
  | case6 n c rest _ hc ih =>
    obtain ⟨others, hothers, rfl⟩ := Scanned.eq_ok_of_map h
    exact List.forall_mem_cons.2 ⟨hc, ih hothers⟩
  | case7 =>
    cases h
    nofun

theorem scanWord_isWordText {c : Char} {name : List Char}
    (hc : (isWordStart c || c == '\\' && cs.head? == some 'u') = true)
    (h : scanWord 0 0 (c :: cs) = .ok name size) : isWordText (String.ofList name) = true := by
  have hparts := scanWord_parts h
  have hfirst : ∃ d others, name = d :: others ∧ isWordStart d = true := by
    rw [scanWord] at h
    by_cases hescape : (decide (c = '\\') && cs.head? == some 'u') = true
    · rw [if_pos hescape] at h
      split at h
      · rename_i decoded _ _
        rw [if_pos rfl] at h
        split at h
        · rename_i hdecoded
          obtain ⟨others, -, rfl⟩ := Scanned.eq_ok_of_map h
          cases decoded with
          | none => cases hdecoded
          | some d => exact ⟨d, others, rfl, hdecoded⟩
        · cases h
      · cases h
    · have hstart : isWordStart c = true := by
        rcases Bool.or_eq_true_iff.1 hc with hstart | hcs
        · exact hstart
        · exact absurd hcs hescape
      rw [if_neg hescape, if_pos (isWordPart_of_isWordStart hstart)] at h
      obtain ⟨others, -, rfl⟩ := Scanned.eq_ok_of_map h
      exact ⟨c, others, rfl, hstart⟩
  obtain ⟨d, others, rfl, hd⟩ := hfirst
  simp only [isWordText, String.toList_ofList, hd, Bool.true_and, List.all_eq_true]
  exact (List.forall_mem_cons.1 hparts).2

theorem lexed_wordBody {lexeme : String} {name : List Char}
    (h : isWordText (String.ofList name) = true) : (wordBody lexeme name).Lexed := by
  unfold wordBody
  repeat' split
  iterate 3 exact True.intro
  exact h

/-! ## Gaps -/

/-- No comment begins here. -/
def NoComment (cs : List Char) : Prop :=
  ∀ rest, cs ≠ '/' :: '/' :: rest ∧ cs ≠ '/' :: '*' :: rest

/-- A gap of which `n` characters were passed ends after `size`, not before a comment. -/
def GapEnds (n size : Nat) (cs : List Char) : Prop :=
  ∃ gap rest, cs = gap ++ rest ∧ size = n + gap.length ∧ NoComment rest

theorem GapEnds.step (part : List Char) (h : GapEnds (n + part.length) size cs) :
    GapEnds n size (part ++ cs) := by
  obtain ⟨gap, rest, rfl, rfl, hrest⟩ := h
  exact ⟨part ++ gap, rest, by rw [List.append_assoc], by rw [List.length_append]; omega, hrest⟩

theorem gapFrom_ends {mode : GapMode} {newline lineStart : Bool}
    (h : (gapFrom mode newline lineStart n cs).outcome = .ok () size) : GapEnds n size cs := by
  fun_induction gapFrom mode newline lineStart n cs with
  | case1 => cases h
  | case2 =>
    cases h
    exact ⟨[], [], rfl, rfl, fun _ => ⟨nofun, nofun⟩⟩
  | case3 _ _ _ _ _ ih => exact .step ['*', '/'] (ih h)
  | case4 _ _ _ _ c _ _ ih => exact .step [c] (ih h)
  | case5 _ _ _ c _ _ ih => exact .step [c] (ih h)
  | case6 _ _ _ c _ _ ih => exact .step [c] (ih h)
  | case7 _ _ _ _ ih => exact .step ['/', '*'] (ih h)
  | case8 _ _ _ c _ _ _ ih => exact .step [c] (ih h)
  | case9 _ _ _ c _ _ _ _ ih => exact .step [c] (ih h)
  | case10 _ _ _ c _ _ _ _ _ ih => exact .step [c] (ih h)
  | case11 _ lineStart n c rest hblock _ _ hline =>
    cases h
    refine ⟨[], c :: rest, rfl, rfl, fun tail => ⟨?_, ?_⟩⟩
    · intro hcomment
      rw [hcomment] at hline
      simp [opensLineComment] at hline
    · intro hcomment
      injection hcomment with hc hrest
      exact hblock tail hc hrest

/-! ## Texts -/

theorem scanToken_lexed {regexAllowed : Bool} {body : TokenBody} {last : Nat}
    (hcomment : NoComment cs) (h : scanToken regexAllowed 0 cs = (.ok body size, last)) :
    body.Lexed ∧ last = 0 := by
  cases cs with
  | nil =>
    cases h
    exact ⟨True.intro, rfl⟩
  | cons c rest =>
    rw [scanToken] at h
    split at h
    · injection h with hfound hlast
      obtain ⟨value, hvalue, rfl⟩ := Scanned.eq_ok_of_map hfound
      exact ⟨scanNumber_lexed hvalue, hlast.symm⟩
    · split at h
      · injection h with hfound hlast
        obtain ⟨value, -, rfl⟩ := Scanned.eq_ok_of_map hfound
        exact ⟨True.intro, hlast.symm⟩
      · split at h
        · exact scanTemplate_lexed h
        · split at h
          · rename_i hslash
            rw [Bool.and_eq_true, beq_iff_eq] at hslash
            obtain ⟨rfl, -⟩ := hslash
            injection h with hfound hlast
            refine ⟨scanRegex_lexed (fun d hd => ?_) hfound, hlast.symm⟩
            obtain ⟨tail, rfl⟩ := List.head?_eq_some_iff.1 hd
            exact ⟨fun hd => (hcomment tail).2 (by rw [hd]), fun hd => (hcomment tail).1 (by rw [hd])⟩
          · split at h
            · rename_i hword
              split at h
              · rename_i hname
                cases h
                exact ⟨lexed_wordBody (scanWord_isWordText hword hname), rfl⟩
              · cases h
            · split at h
              · cases h
                exact ⟨True.intro, rfl⟩
              · cases h

namespace Lexer

theorem readToken_lexed {l after : Lexer} {t : Token} (hcomment : NoComment l.cursor.rest)
    (hdepth : l.templateDepth = 0) (h : l.readToken = (.ok t, after)) :
    t.Lexed ∧ after.templateDepth = 0 := by
  unfold readToken at h
  rw [hdepth] at h
  split at h
  · rename_i body size _ hscan
    cases h
    obtain ⟨hbody, hlast⟩ := scanToken_lexed hcomment hscan
    have hspan := l.cursor.position.le_offset_after (l.cursor.rest.take size)
    exact ⟨⟨hbody, by simp only [Cursor.spanTo, Cursor.drop]; omega⟩, hlast⟩
  · cases h

theorem next_lexed {l after : Lexer} {t : Token} (hdepth : l.templateDepth = 0)
    (h : l.next = (.ok t, after)) : t.Lexed ∧ after.templateDepth = 0 := by
  unfold next at h
  dsimp only at h
  split at h
  · rename_i size hgap
    obtain ⟨gap, rest, hcs, hsize, hcomment⟩ := gapFrom_ends hgap
    have hrest : NoComment (l.cursor.rest.drop size) := by
      rw [hcs, hsize, Nat.zero_add, List.drop_left]
      exact hcomment
    exact readToken_lexed (l := l.afterGap _ size) hrest hdepth h
  · cases h

theorem tokensFrom_lexed {l : Lexer} {fuel : Nat} {tokens : Tokens} (hdepth : l.templateDepth = 0)
    (h : l.tokensFrom fuel = .ok tokens) :
    (∀ t ∈ tokens.items, t.Lexed) ∧ tokens.last.Lexed := by
  induction fuel generalizing l tokens with
  | zero => cases h
  | succ fuel ih =>
    rw [tokensFrom] at h
    split at h
    · cases h
    · rename_i t after hnext
      obtain ⟨hlexed, hafter⟩ := next_lexed hdepth hnext
      split at h
      · cases h
        exact ⟨nofun, hlexed⟩
      · split at h
        · rename_i hrest
          cases h
          obtain ⟨hitems, hlast⟩ := ih hafter hrest
          exact ⟨List.forall_mem_cons.2 ⟨hlexed, hitems⟩, hlast⟩
        · cases h

end Lexer

/-- **The tokens of a text can be written**, save for null characters and numbers too large. -/
theorem tokenize_lexed {text : String} {origin : Position} {tokens : Tokens}
    (h : tokenize text origin = .ok tokens) :
    (∀ t ∈ tokens.items, t.Lexed) ∧ tokens.last.Lexed :=
  Lexer.tokensFrom_lexed rfl h

end WidgetLint.Script
