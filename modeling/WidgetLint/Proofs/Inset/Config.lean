import WidgetLint.Proofs.Inset.Value
import WidgetLint.Proofs.Printing.Objects
import WidgetLint.Proofs.Printing.Spelled

/-!
# Configurations written option by option

A script that configures a component with an object, each of whose values stands on lines of its own,
is the call of the component's method with that object (`parseProgram_callText`). The values are what
their texts spell alone.
-/

namespace WidgetLint.Script

open Text WidgetLint.Script.Parser

/-! ## Options -/

/-- Whether a text can name an option: a lower-case letter, then letters and digits. -/
def isOptionName (name : String) : Bool :=
  match name.toList with
  | [] => false
  | c :: rest => c.isLower && rest.all Char.isAlphanum

/-- An option as it is written: its name and the text of its value, which spells an expression other
than a comma expression. -/
structure WrittenOption where
  name : String
  value : String
  tree : Expr
  isName : isOptionName name = true
  parses : parseExpression value = .ok tree
  single : tree.isSequence = false

namespace WrittenOption

def chars (o : WrittenOption) : List Char :=
  o.name.toList ++ ':' :: '\n' :: (o.value.toList ++ ['\n'])

/-- The member of an object that an option is, without places. -/
def member (o : WrittenOption) : Member :=
  .named ⟨.first, .first⟩ .pair (.ident o.name) (o.tree.move fun _ => .first)

end WrittenOption

/-! ## Words and punctuators -/

theorem isWordPart_of_isAlphanum {c : Char} (h : c.isAlphanum = true) : isWordPart c = true := by
  simp only [Char.isAlphanum, Bool.or_eq_true] at h
  simp only [isWordPart, isAlphanumeric, isAlphabetic, isNumeric, Bool.or_eq_true]
  tauto

theorem isWordStart_of_isLower {c : Char} (h : c.isLower = true) : isWordStart c = true := by
  have halpha : c.isAlpha = true := Bool.or_eq_true_iff.2 (.inr h)
  simp [isWordStart, isAlphabetic, halpha]

theorem isWordText_of_isOptionName {name : String} (h : isOptionName name = true) :
    isWordText name = true := by
  unfold isOptionName at h
  unfold isWordText
  cases hname : name.toList with
  | nil =>
    rw [hname] at h
    cases h
  | cons c rest =>
    simp only [hname, Bool.and_eq_true, List.all_eq_true] at h ⊢
    exact ⟨isWordStart_of_isLower h.1, fun d hd => isWordPart_of_isAlphanum (h.2 d hd)⟩

theorem ends_wordBody {name : String} {c : Char} {rest : List Char} (hc : isWordPart c = false)
    (hback : c ≠ '\\') : (wordBody name name.toList).Ends (c :: rest) := by
  have hstops : (!(isWordPart c || c == '\\')) = true := by simp [hc, hback]
  intro d hd
  obtain rfl : c = d := Option.some.inj hd
  unfold wordBody
  split
  · exact hstops
  split
  · exact hstops
  split
  · exact hstops
  · exact hstops

theorem fitsSlash_wordBody (name : String) (allowed : Bool) :
    (wordBody name name.toList).fitsSlash allowed = true := by
  unfold wordBody
  split
  · rfl
  split
  · rfl
  split
  · rfl
  · rfl

namespace Lexer

variable {l : Lexer} {newline : Bool} {rest : List Char}

theorem Before.cuts_word {name : String} {c : Char} (h : l.Before (name.toList ++ c :: rest) newline)
    (hname : isWordText name = true) (hc : isWordPart c = false) (hback : c ≠ '\\') :
    ∃ after, l.Cuts [⟨wordBody name name.toList, newline⟩] after ∧
      after.Before (c :: rest) false := by
  have hchars : l.Before ((Printed.name .joined name).chars ++ c :: rest) newline := by
    rwa [Printed.chars_name, Spacing.chars_joined, List.nil_append]
  obtain ⟨after, hcuts, hafter, -⟩ := hchars.cuts_token (plain_wordBody hname)
    (ends_wordBody hc hback) (fitsSlash_wordBody name _)
  exact ⟨after, by simpa [Printed.name, Spacing.breaks] using hcuts, hafter⟩

end Lexer

/-! ## Members -/

/-- The tokens of an option in a script, given those of its value. -/
def WrittenOption.shapes (o : WrittenOption) (value : List Shape) : List Shape :=
  ⟨wordBody o.name o.name.toList, false⟩ :: ⟨.symbol .colon, false⟩ :: value

section
variable {o : WrittenOption} {value : List Shape} (hvalue : ValueTokens o.value o.tree value)
include hvalue

theorem ValueTokens.length_option : (o.shapes value).length + 1 ≤ o.chars.length := by
  have hlength := hvalue.length
  have hname : 0 < o.name.toList.length := by
    obtain ⟨c, cs, hname, -⟩ := isWordText_eq_cons (isWordText_of_isOptionName o.isName)
    rw [hname]
    exact Nat.zero_lt_succ _
  simp only [WrittenOption.shapes, WrittenOption.chars, List.length_cons, List.length_append,
    List.length_nil, String.length_toList] at hname ⊢
  omega

theorem ValueTokens.cuts_option {l : Lexer} {more : List Char} (h : l.Before (o.chars ++ more) false) :
    ∃ after, l.Cuts (o.shapes value) after ∧ after.Before more true := by
  have hchars : o.chars ++ more =
      o.name.toList ++ ':' :: '\n' :: (o.value.toList ++ '\n' :: more) := by
    simp [WrittenOption.chars]
  rw [hchars] at h
  obtain ⟨colon, hname, hcolon⟩ := h.cuts_word (isWordText_of_isOptionName o.isName)
    (by simp [isWordPart_ascii]) (by decide)
  obtain ⟨start, hsymbol, hstart, hallowed⟩ := Lexer.Before.cuts_symbol (s := .colon) hcolon
    (by rintro c ⟨⟩; decide) fun _ => rfl
  obtain ⟨after, hcuts, hafter⟩ := hvalue.cuts hstart (by rw [hallowed]; decide)
  exact ⟨after, hname.append (hsymbol.append hcuts), hafter⟩

theorem ValueTokens.reads_option (d b : Nat) (target : Parser Expr) {us : List Printed}
    (hus : Separates .rbrace us) :
    Gives (memberWith (level d b) target) (printedShapes (o.shapes value) ++ us) o.member us := by
  have hkey : (Key.ident o.name).Back 0 := nofun
  have hsplit : printedShapes (o.shapes value) ++ us =
      (Key.ident o.name).printed 0 .joined ++
        (Printed.symbol .joined .colon :: (printedShapes value ++ us)) := rfl
  rw [hsplit]
  refine named_gives hkey rfl fun t vs _ => peek_gives.bind ((advance_gives _).bind ?_)
  exact (hvalue.reads d b hus).bind (Leads.refl _ _)

end

/-! ## Configurations -/

def configChars (os : List WrittenOption) : List Char :=
  [','].intercalate (os.map WrittenOption.chars)

theorem configChars_singleton (o : WrittenOption) : configChars [o] = o.chars := by
  simp [configChars]

theorem configChars_cons_cons (o o' : WrittenOption) (os : List WrittenOption) :
    configChars (o :: o' :: os) = o.chars ++ ',' :: configChars (o' :: os) := by
  simp [configChars]

theorem printedShapes_append (shapes shapes' : List Shape) :
    printedShapes (shapes ++ shapes') = printedShapes shapes ++ printedShapes shapes' :=
  List.map_append

theorem stopsAt_lone {s : Symbol} (h : s = .comma ∨ s = .lbrace) (c : Char) : s.stopsAt c = true := by
  have hprefix : (Symbol.all.any fun t => (s.text.toList ++ [c]).isPrefixOf t.text.toList) =
      false := by
    refine Bool.eq_false_iff.2 fun hany => ?_
    obtain ⟨t, -, ht⟩ := List.any_eq_true.1 hany
    rcases h with rfl | rfl
    · cases t <;> simp [Symbol.text] at ht
    · cases t <;> simp [Symbol.text] at ht
  rw [Symbol.stopsAt, hprefix]
  rcases h with rfl | rfl
  · rfl
  · rfl

/-- The tokens of a configuration after its opening brace, up to the closing one. -/
structure ConfigTokens (os : List WrittenOption) (shapes : List Shape) : Prop where
  length : shapes.length ≤ (configChars os).length + 1
  cuts : ∀ {l : Lexer} {c : Char} {more : List Char}, Symbol.rbrace.stopsAt c = true →
    l.Before (configChars os ++ '\x7d' :: c :: more) false →
      ∃ after, l.Cuts shapes after ∧ after.Before (c :: more) false
  reads : ∀ d b target us, ∃ space,
    ListReads .rbrace (memberWith (level d b) target) (printedShapes shapes ++ us)
      (os.map WrittenOption.member) (.symbol space .rbrace :: us)

theorem ahead_option (o : WrittenOption) (value : List Shape) (us : List Printed) :
    (ahead (printedShapes (o.shapes value) ++ us)).isSymbol .rbrace = false := by
  have hahead : ahead (printedShapes (o.shapes value) ++ us) =
      (Printed.name .joined o.name).token := rfl
  rw [hahead, token_isSymbol, body_name]
  exact beq_false_of_ne (wordBody_ne_symbol _ _ _)

/-- **Every configuration is cut into tokens that spell the object with its options.** -/
theorem exists_configTokens (os : List WrittenOption) : ∃ shapes, ConfigTokens os shapes := by
  induction os with
  | nil =>
    refine ⟨[⟨.symbol .rbrace, false⟩], Nat.le_refl _, fun hc hl => ?_, fun d b target us => ?_⟩
    · obtain ⟨after, hcuts, hafter, -⟩ := Lexer.Before.cuts_symbol (s := .rbrace) hl
        (by rintro d ⟨⟩; exact hc) fun _ => rfl
      exact ⟨after, hcuts, hafter⟩
    · exact ⟨.joined, .done⟩
  | cons o os ih =>
    obtain ⟨value, hvalue⟩ := exists_valueTokens o.parses o.single
    have hlength := hvalue.length_option
    cases os with
    | nil =>
      refine ⟨o.shapes value ++ [⟨.symbol .rbrace, true⟩], ?_, fun hc hl => ?_,
        fun d b target us => ⟨.line 0, ?_⟩⟩
      · rw [configChars_singleton, List.length_append]
        exact Nat.le_succ_of_le hlength
      · rw [configChars_singleton] at hl
        obtain ⟨brace, hoption, hbrace⟩ := hvalue.cuts_option hl
        obtain ⟨after, hcuts, hafter, -⟩ := Lexer.Before.cuts_symbol (s := .rbrace) hbrace
          (by rintro d ⟨⟩; exact hc) fun _ => rfl
        exact ⟨after, hoption.append hcuts, hafter⟩
      · rw [printedShapes_append, List.append_assoc]
        exact .last (ahead_option o value _)
          (hvalue.reads_option d b target ⟨.line 0, .rbrace, us, rfl, .inr rfl⟩)
          (by simp [printedShapes, WrittenOption.shapes]; omega)
    | cons o' os =>
      obtain ⟨shapes, htokens⟩ := ih
      refine ⟨o.shapes value ++ ⟨.symbol .comma, true⟩ :: shapes, ?_, fun hc hl => ?_,
        fun d b target us => ?_⟩
      · have hrest := htokens.length
        simp only [configChars_cons_cons, List.length_append, List.length_cons] at hrest ⊢
        omega
      · rw [configChars_cons_cons, List.append_assoc, List.cons_append] at hl
        obtain ⟨comma, hoption, hcomma⟩ := hvalue.cuts_option hl
        obtain ⟨next, hcuts, hnext, -⟩ := Lexer.Before.cuts_symbol (s := .comma) hcomma
          (fun _ _ => stopsAt_lone (.inl rfl) _) fun _ => rfl
        obtain ⟨after, hothers, hafter⟩ := htokens.cuts hc hnext
        exact ⟨after, hoption.append (hcuts.append hothers), hafter⟩
      · obtain ⟨space, hothers⟩ := htokens.reads d b target us
        refine ⟨space, ?_⟩
        rw [printedShapes_append, List.append_assoc]
        exact .more (ahead_option o value _)
          (hvalue.reads_option d b target ⟨.line 0, .comma, _, rfl, .inl rfl⟩)
          (by simp [printedShapes, WrittenOption.shapes]; omega) hothers

end WidgetLint.Script
