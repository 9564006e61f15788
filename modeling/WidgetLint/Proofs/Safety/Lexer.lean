import WidgetLint.Proofs.Printing.Lexed
import WidgetLint.Proofs.Safety.Checked
import WidgetLint.Script.Lexer

/-!
# The lexer stays within its text

A lexer that checks every move: it steps over one character at a time and gives up at the end of the
text, and it gives up where a count of open braces or templates would become negative. **It never
gives up and finds what the lexer finds** (`Lexer.next?_eq`), in whatever state it is, so also when
one goes on after errors.
-/

namespace WidgetLint.Script

open Text

/-! ## Sizes -/

/-- What was found takes no more than `n` characters, and its place is not beyond them. -/
def Scanned.Within {α : Type} (n : Nat) : Scanned α → Prop
  | .ok _ size => size ≤ n
  | .fail _ place size => place ≤ size ∧ size ≤ n

section
variable {α β : Type} {cs rest : List Char} {n : Nat}

theorem Scanned.Within.map {found : Scanned α} (h : found.Within n) (f : α → β) :
    (found.map f).Within n := by
  cases found with
  | ok value size => exact h
  | fail cause place size => exact h

theorem length_takeWhile_le (p : Char → Bool) (cs : List Char) :
    (cs.takeWhile p).length ≤ cs.length :=
  (List.takeWhile_prefix p).length_le

theorem Scanned.Within.after {found : Scanned α} {k : Nat}
    (h : found.Within (n + k + rest.length)) (hlength : k + rest.length = cs.length) :
    found.Within (n + cs.length) := by
  rwa [← hlength, ← Nat.add_assoc]

/-- A block comment did not start after the characters passed over. -/
def GapMode.Begun (n : Nat) : GapMode → Prop
  | .blockComment start => start ≤ n
  | _ => True

theorem GapMode.Begun.mono {mode : GapMode} {m : Nat} (h : mode.Begun n) (hle : n ≤ m) :
    mode.Begun m := by
  cases mode with
  | blockComment start => exact Nat.le_trans h hle
  | _ => exact True.intro

theorem gapFrom_within {mode : GapMode} (newline lineStart : Bool) (hmode : mode.Begun n) :
    (gapFrom mode newline lineStart n cs).outcome.Within (n + cs.length) := by
  fun_induction gapFrom mode newline lineStart n cs with
  | case1 => exact ⟨hmode, Nat.le_refl _⟩
  | case2 => exact Nat.le_refl _
  | case3 _ _ _ _ rest ih => exact (ih True.intro).after (Nat.add_comm ..)
  | case4 _ _ _ _ _ rest _ ih => exact (ih (hmode.mono (Nat.le_succ _))).after (Nat.add_comm ..)
  | case5 _ _ _ _ rest _ ih => exact (ih True.intro).after (Nat.add_comm ..)
  | case6 _ _ _ _ rest _ ih => exact (ih True.intro).after (Nat.add_comm ..)
  | case7 _ _ n rest ih => exact (ih (Nat.le_add_right n 2)).after (Nat.add_comm ..)
  | case8 _ _ _ _ rest _ _ ih => exact (ih True.intro).after (Nat.add_comm ..)
  | case9 _ _ _ _ rest _ _ _ ih => exact (ih True.intro).after (Nat.add_comm ..)
  | case10 _ _ _ _ rest _ _ _ _ ih => exact (ih True.intro).after (Nat.add_comm ..)
  | case11 => exact Nat.le_add_right _ _

/-! ## Numbers -/

theorem fractionPart_within (cs : List Char) : (fractionPart cs).2 ≤ cs.length := by
  unfold fractionPart
  split
  · rename_i rest
    have := length_takeWhile_le Char.isDigit rest
    simp only [List.length_cons]
    omega
  · exact Nat.zero_le _

theorem exponentPart_within (cs : List Char) : (exponentPart cs).1 ≤ cs.length := by
  unfold exponentPart
  split
  · exact Nat.le_refl _
  · rename_i e rest
    have hdigits (sign : Nat) (hsign : sign ≤ rest.length) :
        1 + sign + ((rest.drop sign).takeWhile Char.isDigit).length ≤ (e :: rest).length := by
      have := length_takeWhile_le Char.isDigit (rest.drop sign)
      rw [List.length_drop] at this
      rw [List.length_cons]
      omega
    split
    · dsimp only
      split
      · exact hdigits 1 (Nat.le_add_left _ _)
      · exact hdigits 1 (Nat.le_add_left _ _)
      · exact hdigits 0 (Nat.zero_le _)
    · exact Nat.zero_le _

theorem scanDecimal_within (cs : List Char) : (scanDecimal cs).Within cs.length := by
  have hwhole := length_takeWhile_le Char.isDigit cs
  have hfraction := fractionPart_within (cs.drop (cs.takeWhile Char.isDigit).length)
  have hexponent := exponentPart_within (cs.drop ((cs.takeWhile Char.isDigit).length +
    (fractionPart (cs.drop (cs.takeWhile Char.isDigit).length)).2))
  rw [List.length_drop] at hfraction hexponent
  unfold scanDecimal
  dsimp only
  split
  · rename_i hpart
    rw [hpart] at hexponent
    dsimp only at hexponent
    exact ⟨Nat.zero_le _, by omega⟩
  · rename_i hpart
    rw [hpart] at hexponent
    dsimp only at hexponent
    show _ ≤ _
    omega

theorem scanRadix_within {radix : Nat} (h : 2 ≤ cs.length) :
    (scanRadix radix cs).Within cs.length := by
  have hdigits := length_takeWhile_le (fun c => isDigitIn radix c || c == '_') (cs.drop 2)
  rw [List.length_drop] at hdigits
  unfold scanRadix
  dsimp only
  split
  · exact ⟨Nat.zero_le _, h⟩
  · show _ ≤ _
    omega

theorem two_le_of_announcedRadix? {radix : Nat} (h : announcedRadix? cs = some radix) :
    2 ≤ cs.length := by
  unfold announcedRadix? at h
  split at h
  all_goals first | cases h; done | simp

theorem scanNumber_within (cs : List Char) : (scanNumber cs).Within cs.length := by
  have hdecimal := scanDecimal_within cs
  have hradix {radix : Nat} (h : announcedRadix? cs = some radix) :
      (scanRadix radix cs).Within cs.length :=
    scanRadix_within (two_le_of_announcedRadix? h)
  unfold scanNumber
  dsimp only
  split
  · rename_i value size hfound
    have hsize : size ≤ cs.length := by
      split at hfound
      · have hwithin := hradix ‹_›
        rwa [hfound] at hwithin
      · rwa [hfound] at hdecimal
    split
    · exact ⟨Nat.le_refl _, hsize⟩
    · exact hsize
  · rename_i hfound
    split at hfound
    · have hwithin := hradix ‹_›
      rwa [hfound] at hwithin
    · rwa [hfound] at hdecimal

/-! ## Strings and words -/

theorem scanHexEscape_within (n : Nat) (cs : List Char) :
    (scanHexEscape n cs).Within (cs.length + 1) := by
  have hdigits := length_takeWhile_le (isDigitIn 16) (cs.take n)
  rw [List.length_take] at hdigits
  unfold scanHexEscape
  dsimp only
  split
  · exact ⟨Nat.zero_le _, by omega⟩
  · split
    · show _ ≤ _
      omega
    · exact ⟨Nat.zero_le _, by omega⟩

theorem scanBracedEscape_within (cs : List Char) :
    (scanBracedEscape cs).Within (cs.length + 2) := by
  have hdigits := length_takeWhile_le (isDigitIn 16) cs
  unfold scanBracedEscape
  dsimp only
  split
  · rename_i hbrace
    have := (List.getElem?_eq_some_iff.1 hbrace).1
    split
    · show _ ≤ _
      omega
    · exact ⟨Nat.zero_le _, by omega⟩
  · exact ⟨Nat.zero_le _, by omega⟩

theorem scanEscape_within (cs : List Char) : (scanEscape cs).Within cs.length := by
  unfold scanEscape
  split
  case h_1 => exact ⟨Nat.le_refl _, Nat.le_refl _⟩
  case h_9 => exact scanHexEscape_within 2 _
  case h_10 => exact scanBracedEscape_within _
  case h_11 => exact scanHexEscape_within 4 _
  all_goals exact Nat.le_add_left _ _

theorem Scanned.Within.cons {found : Scanned α} {c : Char}
    (h : found.Within (n + 1 + rest.length)) : found.Within (n + (c :: rest).length) :=
  h.after (Nat.add_comm ..)

theorem scanString_within (quote : Char) (n skip : Nat) (cs : List Char) :
    (scanString quote n skip cs).Within (n + cs.length) := by
  fun_induction scanString quote n skip cs with
  | case1 => exact ⟨Nat.zero_le _, Nat.le_refl _⟩
  | case2 n skip _ rest ih => exact ih.cons
  | case3 => exact ⟨Nat.zero_le _, Nat.le_add_right _ _⟩
  | case4 => exact Nat.add_le_add_left (Nat.le_add_left _ _) _
  | case5 => exact ⟨Nat.zero_le _, Nat.add_le_add_left (Nat.le_add_left _ _) _⟩
  | case6 _ _ _ _ _ _ _ _ ih => exact (ih.map _).cons
  | case7 n rest _ cause place size hescape =>
    have hwithin := scanEscape_within rest
    rw [hescape] at hwithin
    exact ⟨Nat.add_le_add_left hwithin.1 _, by have := hwithin.2; rw [List.length_cons]; omega⟩
  | case8 _ _ _ _ _ _ ih => exact (ih.map _).cons

theorem scanWord_within (n skip : Nat) (cs : List Char) :
    (scanWord n skip cs).Within (n + cs.length) := by
  fun_induction scanWord n skip cs with
  | case1 => exact Nat.le_refl _
  | case2 _ _ _ _ ih => exact ih.cons
  | case3 _ _ _ _ _ _ _ _ ih => exact (ih.map _).cons
  | case4 n _ rest _ decoded size hescape =>
    have hwithin := scanEscape_within rest
    rw [hescape] at hwithin
    have hsize : size ≤ rest.length := hwithin
    exact ⟨by omega, by rw [List.length_cons]; omega⟩
  | case5 n _ rest _ cause place size hescape =>
    have hwithin := scanEscape_within rest
    rw [hescape] at hwithin
    exact ⟨Nat.add_le_add_left hwithin.1 _, by have := hwithin.2; rw [List.length_cons]; omega⟩
  | case6 _ _ _ _ _ ih => exact (ih.map _).cons
  | case7 => exact Nat.le_add_right _ _

/-! ## Templates and patterns -/

theorem templateFrom_within (depth n : Nat) (mode : TemplateMode) (outer : List Nat)
    (cs : List Char) : (templateFrom depth n mode outer cs).1.Within (n + cs.length) := by
  fun_induction templateFrom depth n mode outer cs with
  | case1 => exact ⟨Nat.zero_le _, Nat.le_refl _⟩
  | case2 _ _ _ _ ih => exact (ih.map _).after (Nat.add_comm ..)
  | case3 _ _ _ _ _ ih => exact (ih.map _).after (Nat.add_comm ..)
  | case4 => exact Nat.add_le_add_left (Nat.le_add_left _ _) _
  | case7 => exact ⟨Nat.le_refl _, Nat.le_add_right _ _⟩
  | case13 _ _ _ _ _ _ _ ih => exact (ih.map _).after (Nat.add_comm ..)
  | _ => exact (Scanned.Within.map ‹_› _).cons

theorem regexFrom_within (inClass : Bool) (n : Nat) (cs : List Char) :
    (regexFrom inClass n cs).Within (n + cs.length) := by
  fun_induction regexFrom inClass n cs with
  | case1 => exact ⟨Nat.zero_le _, Nat.le_refl _⟩
  | case2 => exact ⟨Nat.zero_le _, Nat.le_refl _⟩
  | case3 => exact ⟨Nat.zero_le _, Nat.add_le_add_left (Nat.le_add_left _ _) _⟩
  | case4 _ _ _ _ _ ih => exact (ih.map _).after (Nat.add_comm ..)
  | case5 => exact ⟨Nat.zero_le _, Nat.le_add_right _ _⟩
  | case6 => exact Nat.add_le_add_left (Nat.le_add_left _ _) _
  | case7 _ _ _ _ _ _ _ _ ih => exact (ih.map _).cons

theorem scanRegex_within {c : Char} : (scanRegex (c :: rest)).Within (rest.length + 1) := by
  have hwithin := regexFrom_within false 1 rest
  unfold scanRegex
  cases hfound : regexFrom false 1 rest with
  | fail cause place size =>
    rw [hfound, Nat.add_comm] at hwithin
    simp only [List.drop_one, List.tail_cons, hfound]
    exact hwithin
  | ok _ size =>
    rw [hfound, Nat.add_comm] at hwithin
    have hsize : size ≤ rest.length + 1 := hwithin
    have hflags := length_takeWhile_le isWordPart ((c :: rest).drop size)
    rw [List.length_drop, List.length_cons] at hflags
    simp only [List.drop_one, List.tail_cons, hfound]
    show _ ≤ _
    omega

theorem scanTemplate_within {c : Char} (depth : Nat) :
    (scanTemplate depth (c :: rest)).1.Within (rest.length + 1) := by
  have hwithin := templateFrom_within depth 1 .text [] rest
  rw [Nat.add_comm] at hwithin
  exact hwithin.map _

/-! ## Tokens -/

theorem Symbol.read?_within {s : Symbol} (h : Symbol.read? cs = some s) :
    s.text.length ≤ cs.length := by
  have hopens := List.find?_some h
  rw [Symbol.opens, Bool.and_eq_true] at hopens
  have hprefix := List.isPrefixOf_iff_prefix.1 hopens.1
  rw [← String.length_toList]
  exact hprefix.length_le

theorem scanToken_within (regexAllowed : Bool) (depth : Nat) (cs : List Char) :
    (scanToken regexAllowed depth cs).1.Within cs.length := by
  cases cs with
  | nil => exact Nat.le_refl _
  | cons c rest =>
    rw [scanToken, List.length_cons]
    split
    · exact (scanNumber_within (c :: rest)).map _
    split
    · have hwithin := scanString_within c 1 0 rest
      rw [Nat.add_comm] at hwithin
      exact hwithin.map _
    split
    · exact scanTemplate_within depth
    split
    · exact scanRegex_within
    split
    · have hwithin := scanWord_within 0 0 (c :: rest)
      rw [Nat.zero_add] at hwithin
      split
      · rename_i hfound
        rw [hfound] at hwithin
        exact hwithin
      · rename_i hfound
        rw [hfound] at hwithin
        exact hwithin
    · split
      · rename_i hsymbol
        exact Symbol.read?_within hsymbol
      · exact ⟨Nat.le_refl _, Nat.zero_le _⟩

end

/-! ## Counting braces and templates -/

/-- `templateFrom` with its counts checked: of the braces that are open in code, and of the
templates around. -/
def templateFrom? : (depth n : Nat) → TemplateMode → (outer : List Nat) → List Char →
    Option (Scanned (List Char) × Nat)
  | depth, n, _, _, [] => some (.fail .unterminatedTemplate 0 n, depth)
  | depth, n, .text, outer, '$' :: '\x7b' :: rest =>
    copying ['$', '\x7b'] <$> templateFrom? depth (n + 2) (.code 1) outer rest
  | depth, n, .text, outer, '\\' :: c :: rest =>
    copying ['\\', c] <$> templateFrom? depth (n + 2) .text outer rest
  | depth, n, .text, outer, c :: rest =>
    if c = '\x60' then
      match outer with
      | [] => some (.ok [] (n + 1), depth)
      | braces :: outer => do
        let depth ← minus? depth 1
        copying [c] <$> templateFrom? depth (n + 1) (.code braces) outer rest
    else copying [c] <$> templateFrom? depth (n + 1) .text outer rest
  | depth, n, .code braces, outer, c :: rest =>
    if c = '\x60' then
      if depth = maxTemplateDepth then some (.fail .templateTooDeep n n, depth)
      else copying [c] <$> templateFrom? (depth + 1) (n + 1) .text (braces :: outer) rest
    else if c = '"' || c = '\'' then
      copying [c] <$> templateFrom? depth (n + 1) (.quoted c braces) outer rest
    else if c = '\x7b' then
      copying [c] <$> templateFrom? depth (n + 1) (.code (braces + 1)) outer rest
    else if c = '\x7d' then do
      let braces ← minus? braces 1
      copying [c] <$> templateFrom? depth (n + 1) (if braces = 0 then .text else .code braces) outer
        rest
    else copying [c] <$> templateFrom? depth (n + 1) (.code braces) outer rest
  | depth, n, .quoted quote braces, outer, '\\' :: c :: rest =>
    copying ['\\', c] <$> templateFrom? depth (n + 2) (.quoted quote braces) outer rest
  | depth, n, .quoted quote braces, outer, c :: rest =>
    copying [c] <$> templateFrom? depth (n + 1)
      (if c = quote || c = '\n' then .code braces else .quoted quote braces) outer rest

/-- Code is read only while one of its braces is open. -/
def TemplateMode.Open : TemplateMode → Prop
  | .text => True
  | .code braces | .quoted _ braces => 1 ≤ braces

/-- Every template around the current one was counted, and it waits for a brace to close. -/
structure Nested (depth : Nat) (outer : List Nat) : Prop where
  counted : outer.length ≤ depth
  waiting : ∀ braces ∈ outer, 1 ≤ braces

theorem Nested.push {depth braces : Nat} {outer : List Nat} (h : Nested depth outer)
    (hbraces : 1 ≤ braces) : Nested (depth + 1) (braces :: outer) :=
  ⟨Nat.succ_le_succ h.counted, List.forall_mem_cons.2 ⟨hbraces, h.waiting⟩⟩

theorem Nested.pop {depth braces : Nat} {outer : List Nat} (h : Nested depth (braces :: outer)) :
    Nested (depth - 1) outer :=
  ⟨Nat.le_sub_one_of_lt h.counted, (List.forall_mem_cons.1 h.waiting).2⟩

theorem map_copying {part : List Char} {found? : Option (Scanned (List Char) × Nat)}
    {found : Scanned (List Char) × Nat} (h : found? = some found) :
    copying part <$> found? = some (copying part found) := by
  rw [h]
  rfl

theorem templateFrom?_eq {depth n : Nat} {mode : TemplateMode} {outer : List Nat} {cs : List Char}
    (hmode : mode.Open) (hnested : Nested depth outer) :
    templateFrom? depth n mode outer cs = some (templateFrom depth n mode outer cs) := by
  fun_induction templateFrom depth n mode outer cs with
  | case1 => rfl
  | case2 _ _ _ _ ih => exact map_copying (ih (Nat.le_refl 1) hnested)
  | case3 _ _ _ _ _ ih => exact map_copying (ih hmode hnested)
  | case4 => simp [templateFrom?]
  | case5 depth _ _ braces outer _ _ ih =>
    -- an open template was counted, and one of its braces is open
    have hdepth : 1 ≤ depth := Nat.le_trans (Nat.le_add_left _ _) hnested.counted
    rw [← map_copying (ih (hnested.waiting braces List.mem_cons_self) hnested.pop)]
    simp [templateFrom?, minus?_eq hdepth]
  | case6 _ _ outer _ _ hcode hescape hc ih =>
    rw [← map_copying (ih hmode hnested)]
    cases outer with
    | nil => rw [templateFrom?.eq_4 _ _ _ _ hcode hescape, if_neg hc]
    | cons => rw [templateFrom?.eq_5 _ _ _ _ _ _ hcode hescape, if_neg hc]
  | case7 => simp [templateFrom?]
  | case8 _ _ _ _ _ hdepth ih =>
    rw [← map_copying (ih True.intro (hnested.push hmode))]
    simp [templateFrom?, hdepth]
  | case9 _ _ _ _ _ _ hc hquote ih =>
    rw [← map_copying (ih hmode hnested)]
    simp_all [templateFrom?]
  | case10 _ _ braces _ _ _ _ ih =>
    rw [← map_copying (ih (Nat.le_add_left 1 braces) hnested)]
    simp [templateFrom?]
  | case11 depth n braces outer rest _ _ _ ih =>
    have hopen : 1 ≤ braces := hmode
    rw [← map_copying (ih ?_ hnested)]
    · have hlast : braces - 1 = 0 ↔ braces = 1 := by omega
      simp [templateFrom?, minus?_eq hopen, hlast]
    · split
      · exact True.intro
      · show 1 ≤ braces - 1
        omega
  | case12 _ _ _ _ _ _ hc hquote hopen hclose ih =>
    rw [← map_copying (ih hmode hnested)]
    simp_all [templateFrom?]
  | case13 _ _ _ _ _ _ _ ih => exact map_copying (ih hmode hnested)
  | case14 _ _ _ _ _ _ _ _ ih =>
    rw [← map_copying (ih ?_ hnested)]
    · simp [templateFrom?]
    · split
      · exact hmode
      · exact hmode

/-! ## The checked lexer -/

def scanTemplate? (depth : Nat) (cs : List Char) : Option (Scanned TokenBody × Nat) := do
  let found ← templateFrom? depth 1 .text [] (cs.drop 1)
  return (found.1.map fun raw => .template (String.ofList raw), found.2)

def scanToken? (regexAllowed : Bool) (depth : Nat) (cs : List Char) :
    Option (Scanned TokenBody × Nat) :=
  if cs.head? = some '\x60' then scanTemplate? depth cs else some (scanToken regexAllowed depth cs)

theorem scanTemplate?_eq (depth : Nat) (cs : List Char) :
    scanTemplate? depth cs = some (scanTemplate depth cs) := by
  unfold scanTemplate?
  have hcounts : templateFrom? depth 1 .text [] (cs.drop 1) =
      some (templateFrom depth 1 .text [] (cs.drop 1)) :=
    templateFrom?_eq True.intro ⟨Nat.zero_le _, nofun⟩
  rw [hcounts]
  rfl

theorem scanToken?_eq (regexAllowed : Bool) (depth : Nat) (cs : List Char) :
    scanToken? regexAllowed depth cs = some (scanToken regexAllowed depth cs) := by
  unfold scanToken?
  split
  · rename_i hhead
    obtain ⟨rest, rfl⟩ := List.head?_eq_some_iff.1 hhead
    rw [scanTemplate?_eq]
    rfl
  · rfl

namespace Lexer

/-- `readToken` that steps from character to character. -/
def readToken? (l : Lexer) : Option (Except ScriptError Token × Lexer) := do
  match ← scanToken? l.regexAllowed l.templateDepth l.cursor.rest with
  | (.ok body size, depth) =>
    let next ← l.cursor.drop? size
    let lexeme := String.ofList (l.cursor.rest.take size)
    return (.ok ⟨body, lexeme, l.cursor.spanTo next, l.newlineBefore⟩,
      ⟨next, false, false, regexAllowedAfter body lexeme, depth⟩)
  | (.fail cause place size, depth) =>
    let fault ← l.cursor.drop? place
    let next ← l.cursor.drop? size
    return (.error ⟨cause, fault.position⟩, { l with cursor := next, templateDepth := depth })

def next? (l : Lexer) : Option (Except ScriptError Token × Lexer) := do
  let gap := gapFrom .blank l.newlineBefore l.lineStart 0 l.cursor.rest
  match gap.outcome with
  | .ok _ size =>
    let cursor ← l.cursor.drop? size
    readToken?
      { l with cursor := cursor, newlineBefore := gap.newline, lineStart := gap.lineStart }
  | .fail cause place size =>
    let fault ← l.cursor.drop? place
    let cursor ← l.cursor.drop? size
    return (.error ⟨cause, fault.position⟩,
      { l with cursor := cursor, newlineBefore := gap.newline, lineStart := gap.lineStart })

theorem readToken?_eq (l : Lexer) : l.readToken? = some l.readToken := by
  have hwithin := scanToken_within l.regexAllowed l.templateDepth l.cursor.rest
  unfold readToken? readToken
  rw [scanToken?_eq, Option.bind_eq_bind, Option.bind_some]
  generalize scanToken l.regexAllowed l.templateDepth l.cursor.rest = found at hwithin
  obtain ⟨⟨body, size⟩ | ⟨cause, place, size⟩, depth⟩ := found
  · simp only [Cursor.drop?_eq hwithin, Option.bind_eq_bind, Option.bind_some]
    rfl
  · simp only [Cursor.drop?_eq hwithin.2, Cursor.drop?_eq (Nat.le_trans hwithin.1 hwithin.2),
      Option.bind_eq_bind, Option.bind_some]
    rfl

/-- **A step of the lexer stays within the text**, whatever state it is in. -/
theorem next?_eq (l : Lexer) : l.next? = some l.next := by
  have hwithin : (gapFrom .blank l.newlineBefore l.lineStart 0 l.cursor.rest).outcome.Within
      (0 + l.cursor.rest.length) := gapFrom_within l.newlineBefore l.lineStart True.intro
  rw [Nat.zero_add] at hwithin
  unfold next? next
  generalize gapFrom .blank l.newlineBefore l.lineStart 0 l.cursor.rest = gap at hwithin
  obtain ⟨newline, lineStart, ⟨_, size⟩ | ⟨cause, place, size⟩⟩ := gap
  · simp only [Cursor.drop?_eq hwithin, Option.bind_eq_bind, Option.bind_some, readToken?_eq]
    rfl
  · simp only [Cursor.drop?_eq hwithin.2, Cursor.drop?_eq (Nat.le_trans hwithin.1 hwithin.2),
      Option.bind_eq_bind, Option.bind_some]
    rfl

/-- The findings of the next `n` steps that stay within the text. -/
def steps? : Nat → Lexer → Option (List (Except ScriptError Token))
  | 0, _ => some []
  | n + 1, l => do
    let (found, l) ← l.next?
    return found :: (← steps? n l)

theorem steps?_eq (n : Nat) (l : Lexer) : l.steps? n = some (l.steps n) := by
  induction n generalizing l with
  | zero => rfl
  | succ n ih =>
    rw [steps?, next?_eq, steps]
    simp only [Option.bind_eq_bind, Option.bind_some, ih]
    rfl

def tokensFrom? : (fuel : Nat) → Lexer → Option (Except ScriptError Tokens)
  | 0, l => some (.error (l.errorAt .unexpectedEnd 0))
  | fuel + 1, l => do
    match ← l.next? with
    | (.error e, _) => return .error e
    | (.ok token, l) =>
      if token.body = .eof then return .ok ⟨[], token⟩
      else match ← tokensFrom? fuel l with
        | .ok tokens => return .ok { tokens with items := token :: tokens.items }
        | .error e => return .error e

theorem tokensFrom?_eq (fuel : Nat) (l : Lexer) :
    l.tokensFrom? fuel = some (l.tokensFrom fuel) := by
  induction fuel generalizing l with
  | zero => rfl
  | succ fuel ih =>
    rw [tokensFrom?, next?_eq, tokensFrom, Option.bind_eq_bind, Option.bind_some]
    generalize l.next = found
    obtain ⟨_ | token, after⟩ := found
    · rfl
    · dsimp only
      split
      · rfl
      · rw [ih, Option.bind_eq_bind, Option.bind_some]
        cases after.tokensFrom fuel with
        | ok => rfl
        | error => rfl

end Lexer

def tokenize? (text : String) (origin : Position) : Option (Except ScriptError Tokens) :=
  (Lexer.start text origin).tokensFrom? (text.length + 1)

theorem tokenize?_eq (text : String) (origin : Position) :
    tokenize? text origin = some (tokenize text origin) :=
  Lexer.tokensFrom?_eq _ _

end WidgetLint.Script
