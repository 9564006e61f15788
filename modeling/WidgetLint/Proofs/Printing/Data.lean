import WidgetLint.Proofs.Printing.Moved
import WidgetLint.Proofs.Printing.OperatorLanguage

/-!
# Data

Data are strings, whole numbers of at most fifteen digits with or without a minus, truth values,
null, arrays of data and objects of named data. **Data are printed alike exactly if they are the
same up to positions and to the quotes around words that are keys** (`Expr.IsData.text_eq_iff`).

No text begins with two data: what may follow one in a text, such as a comma, cannot continue it
(`Expr.IsData.told`). This is shown from the inside out, for the characters of a string, for keys,
and for lists of parts with commas between them (`closed_unique`).
-/

namespace WidgetLint.Script

open Text Number

/-! ## Data -/

def Key.IsData : Key → Prop
  | .ident name => isWordText name = true
  | .string _ => True
  | .number value => IsSmallWhole value
  | .computed _ => False

/-- A member of an object of data, apart from its value. -/
def Member.IsPair : Member → Prop
  | .named _ .pair key _ => key.IsData
  | _ => False

def Member.value : Member → Expr
  | .named _ _ _ value => value
  | .spread argument => argument

/-- An expression that is data. -/
inductive Expr.IsData : Expr → Prop
  | string (s : Span) (value : String) : IsData (.string s value)
  | number (s : Span) {value : Binary64} : IsSmallWhole value → IsData (.number s value)
  | negative (s t : Span) {value : Binary64} :
      IsSmallWhole value → IsData (.unary s .neg (.number t value))
  | boolean (s : Span) (value : Bool) : IsData (.boolean s value)
  | null (s : Span) : IsData (.null s)
  | array (s : Span) {items : List (Option Expr)} : (∀ e, some e ∈ items → e.IsData) →
      IsData (.array s items)
  | object (s : Span) {members : List Member} : (∀ member ∈ members, member.IsPair) →
      (∀ member ∈ members, member.value.IsData) → IsData (.object s members)

/-- The expressions are the same up to positions and to the quotes around words that are keys. -/
def Expr.SameData (e e' : Expr) : Prop :=
  e.relabel .plain = e'.relabel .plain

variable {u v : List Char}

/-! ## Runs of characters -/

/-- A run of characters of one class, and what follows it, are told from their text. -/
theorem run_unique {p : Char → Bool} {run run' : List Char} (hrun : ∀ c ∈ run, p c = true)
    (hrun' : ∀ c ∈ run', p c = true) (hu : ∀ c ∈ u.head?, p c = false)
    (hv : ∀ c ∈ v.head?, p c = false) (h : run ++ u = run' ++ v) : run = run' ∧ u = v := by
  have hwhile {ends : List Char} (hends : ∀ c ∈ ends.head?, p c = false) :
      ends.takeWhile p = [] := by
    cases ends with
    | nil => rfl
    | cons c ends => exact List.takeWhile_cons_of_neg (by simp [hends c rfl])
  have hsame : run = run' := by
    have htake := congrArg (List.takeWhile p) h
    rwa [List.takeWhile_append_of_pos hrun, List.takeWhile_append_of_pos hrun', hwhile hu,
      hwhile hv, List.append_nil, List.append_nil] at htake
  subst hsame
  exact ⟨rfl, List.append_cancel_left h⟩

/-- What follows a numeral begins with no digit. -/
def EndsDigits (rest : List Char) : Prop :=
  ∀ c ∈ rest.head?, c.isDigit = false

theorem toDigits_unique {m n : Nat} (hu : EndsDigits u) (hv : EndsDigits v)
    (h : Nat.toDigits 10 m ++ u = Nat.toDigits 10 n ++ v) : m = n ∧ u = v := by
  obtain ⟨hdigits, hrest⟩ := run_unique isDigit_of_mem_toDigits isDigit_of_mem_toDigits hu hv h
  refine ⟨?_, hrest⟩
  rw [← numeralValue_toDigits m, hdigits, numeralValue_toDigits]

/-! ## Strings -/

/-- The characters that are written as a backslash and a letter, with their letters. -/
def letterEscapes : List (Char × Char) :=
  [('"', '"'), ('\\', '\\'), ('\n', 'n'), ('\r', 'r'), ('\t', 't'), ('\x08', 'b'), ('\x0b', 'v'),
    ('\x0c', 'f'), ('\x00', '0')]

theorem letterEscapes_letter : ∀ p ∈ letterEscapes, p.2 ≠ 'u' ∧
    ∀ q ∈ letterEscapes, p.2 = q.2 → p.1 = q.1 := by
  decide

/-- The three ways in which a character is written in a string. -/
inductive QuotesAs (c : Char) : List Char → Prop
  | letter {letter : Char} : (c, letter) ∈ letterEscapes → QuotesAs c ['\\', letter]
  | digits : isControl c = true → QuotesAs c ('\\' :: 'u' :: fourHexDigits c.toNat)
  | plain : c ≠ '"' → c ≠ '\\' → QuotesAs c [c]

theorem quotesAs_quoteChar (c : Char) : QuotesAs c (quoteChar c) := by
  by_cases hescaped : c ∈ letterEscapes.map Prod.fst
  · obtain ⟨⟨d, letter⟩, hmem, rfl⟩ := List.mem_map.1 hescaped
    have hquote : ∀ p ∈ letterEscapes, quoteChar p.1 = ['\\', p.2] := by decide
    rw [hquote _ hmem]
    exact .letter hmem
  · simp only [letterEscapes, List.map_cons, List.map_nil, List.mem_cons, List.not_mem_nil,
      or_false, not_or] at hescaped
    obtain ⟨hquote, hslash, hline, hreturn, htab, hback, hvertical, hfeed, hnull⟩ := hescaped
    by_cases hcontrol : isControl c = true
    · have hwritten : quoteChar c = '\\' :: 'u' :: fourHexDigits c.toNat := by
        simp [quoteChar, hquote, hslash, hline, hreturn, htab, hback, hvertical, hfeed, hnull,
          hcontrol]
      rw [hwritten]
      exact .digits hcontrol
    · have hwritten : quoteChar c = [c] := by
        simp [quoteChar, hquote, hslash, hline, hreturn, htab, hback, hvertical, hfeed, hnull,
          hcontrol]
      rw [hwritten]
      exact .plain hquote hslash

theorem fourHexDigits_unique {c d : Char} (hc : isControl c = true) (hd : isControl d = true)
    (h : fourHexDigits c.toNat = fourHexDigits d.toNat) : c = d := by
  have hread {c : Char} (hc : isControl c = true) : hexChar? (fourHexDigits c.toNat) = some c := by
    have hlimit : c.toNat < 160 := by
      simp only [isControl, Bool.or_eq_true, Bool.and_eq_true, decide_eq_true_eq] at hc
      omega
    obtain ⟨x, y, hdigits, -, -, hchar⟩ := fourHexDigits_control c.toNat hlimit
    rw [hdigits, hchar, Char.ofNat_toNat]
  exact Option.some.inj ((hread hc).symm.trans ((congrArg hexChar? h).trans (hread hd)))

theorem QuotesAs.unique {c d : Char} {written written' : List Char} (hc : QuotesAs c written)
    (hd : QuotesAs d written') (h : written ++ u = written' ++ v) : c = d ∧ u = v := by
  cases hc with
  | letter hletter =>
    cases hd with
    | letter hletter' =>
      obtain ⟨rfl, hrest⟩ : _ = _ ∧ u = v := by simpa using h
      exact ⟨(letterEscapes_letter _ hletter).2 _ hletter' rfl, hrest⟩
    | digits =>
      have hu : _ = 'u' := (by simpa using h : _ ∧ _).1
      exact absurd hu (letterEscapes_letter _ hletter).1
    | plain _ hslash => exact absurd (List.cons.inj h).1.symm hslash
  | digits hcontrol =>
    cases hd with
    | letter hletter =>
      have hu : 'u' = _ := (by simpa using h : _ ∧ _).1
      exact absurd hu.symm (letterEscapes_letter _ hletter).1
    | digits hcontrol' =>
      simp only [List.cons_append, List.cons.injEq, true_and] at h
      obtain ⟨hdigits, hrest⟩ := List.append_inj h rfl
      exact ⟨fourHexDigits_unique hcontrol hcontrol' hdigits, hrest⟩
    | plain _ hslash => exact absurd (List.cons.inj h).1.symm hslash
  | plain _ hslash =>
    cases hd with
    | letter => exact absurd (List.cons.inj h).1 hslash
    | digits => exact absurd (List.cons.inj h).1 hslash
    | plain => exact List.cons.inj h

theorem QuotesAs.ne_quote {c : Char} {written : List Char} (h : QuotesAs c written) :
    written ++ u ≠ '"' :: v := by
  intro hquote
  cases h with
  | plain hc => exact hc (List.cons.inj hquote).1
  | _ => exact absurd (List.cons.inj hquote).1 (by decide)

theorem quoted_unique {value value' : List Char}
    (h : value.flatMap quoteChar ++ '"' :: u = value'.flatMap quoteChar ++ '"' :: v) :
    value = value' ∧ u = v := by
  induction value generalizing value' with
  | nil =>
    cases value' with
    | nil => exact ⟨rfl, (List.cons.inj h).2⟩
    | cons d value' =>
      rw [List.flatMap_cons, List.append_assoc] at h
      exact absurd h.symm (quotesAs_quoteChar d).ne_quote
  | cons c value ih =>
    rw [List.flatMap_cons, List.append_assoc] at h
    cases value' with
    | nil => exact absurd h (quotesAs_quoteChar c).ne_quote
    | cons d value' =>
      rw [List.flatMap_cons, List.append_assoc] at h
      obtain ⟨rfl, htail⟩ := (quotesAs_quoteChar c).unique (quotesAs_quoteChar d) h
      obtain ⟨rfl, hrest⟩ := ih htail
      exact ⟨rfl, hrest⟩

theorem toList_quote (value : String) :
    (quote value).toList = '"' :: (value.toList.flatMap quoteChar ++ ['"']) := by
  simp [quote]

theorem quote_unique {value value' : String}
    (h : (quote value).toList ++ u = (quote value').toList ++ v) : value = value' ∧ u = v := by
  rw [toList_quote, toList_quote] at h
  simp only [List.cons_append, List.append_assoc, List.nil_append, List.cons.injEq,
    true_and] at h
  obtain ⟨hvalue, hrest⟩ := quoted_unique h
  exact ⟨String.toList_inj.1 hvalue, hrest⟩

/-! ## Numbers and keys -/

theorem IsSmallWhole.toList_render {value : Binary64} (h : IsSmallWhole value) :
    ∃ n, value = .ofNat n ∧ value.render.toList = Nat.toDigits 10 n := by
  obtain ⟨n, hn, hvalue⟩ := h
  have hsmall : n < 2 ^ 53 := Nat.lt_trans hn (by decide)
  have hmod : n * unitsPerOne % unitsPerOne = 0 := Nat.mul_mod_left _ _
  have hdiv : n * unitsPerOne / unitsPerOne = n := Nat.mul_div_left n unitsPerOne_pos
  refine ⟨n, hvalue, ?_⟩
  rw [hvalue, ofNat_whole hsmall, Binary64.toList_render, hmod, hdiv, if_pos ⟨rfl, hn⟩]

theorem IsSmallWhole.unique {value value' : Binary64} (h : IsSmallWhole value)
    (h' : IsSmallWhole value') (hu : EndsDigits u) (hv : EndsDigits v)
    (heq : value.render.toList ++ u = value'.render.toList ++ v) : value = value' ∧ u = v := by
  obtain ⟨m, hvalue, hm⟩ := h.toList_render
  obtain ⟨n, hvalue', hn⟩ := h'.toList_render
  rw [hm, hn] at heq
  obtain ⟨hsame, hrest⟩ := toDigits_unique hu hv heq
  exact ⟨by rw [hvalue, hvalue', hsame], hrest⟩

/-- The three ways in which a key of data is written. -/
inductive Key.WrittenAs : Key → List Char → Prop
  | word {name : String} : isWordText name = true → WrittenAs (.ident name) name.toList
  | string {value : String} : isWordText value = false →
      WrittenAs (.string value) (quote value).toList
  | number {value : Binary64} : IsSmallWhole value → WrittenAs (.number value) value.render.toList

theorem Key.IsData.writtenAs {key : Key} (h : key.IsData) :
    (key.relabel .plain).WrittenAs (key.render 0).toList := by
  cases key with
  | ident name => exact .word h
  | string value =>
    simp only [Key.relabel, Relabeling.plain, Key.render]
    split
    · exact .word ‹_›
    · exact .string (Bool.eq_false_iff.2 ‹_›)
  | number value => exact .number h
  | computed key => cases h

/-- What a key of data begins with. -/
def Key.BeginsWith (c : Char) : Key → Prop
  | .ident _ => isWordStart c = true
  | .string _ => c = '"'
  | .number _ => c.isDigit = true
  | .computed _ => False

theorem Key.WrittenAs.beginsWith {key : Key} {written : List Char} (h : key.WrittenAs written) :
    ∃ c cs, written = c :: cs ∧ key.BeginsWith c := by
  cases h with
  | word hname =>
    obtain ⟨c, cs, hcs, hstart, -⟩ := isWordText_eq_cons hname
    exact ⟨c, cs, hcs, hstart⟩
  | string => exact ⟨_, _, toList_quote _, rfl⟩
  | number hsmall =>
    obtain ⟨n, -, hdigits⟩ := hsmall.toList_render
    obtain ⟨c, cs, hcs, hdigit⟩ := toDigits_eq_cons n
    exact ⟨c, cs, hdigits.trans hcs, hdigit⟩

theorem Key.WrittenAs.unique {key key' : Key} {written written' : List Char}
    (h : key.WrittenAs written) (h' : key'.WrittenAs written')
    (heq : written ++ ':' :: u = written' ++ ':' :: v) : key = key' ∧ u = v := by
  have hdigits (rest : List Char) : EndsDigits (':' :: rest) := by
    rintro _ ⟨⟩
    rfl
  have hword (rest : List Char) : ∀ c ∈ (':' :: rest).head?, isWordPart c = false := by
    rintro _ ⟨⟩
    simp [isWordPart_ascii]
  have hquote : isWordStart '"' = false := by simp [isWordStart_ascii]
  -- the first characters tell the three ways of writing a key apart
  obtain ⟨c, cs, hcs, hbegins⟩ := h.beginsWith
  obtain ⟨c', cs', hcs', hbegins'⟩ := h'.beginsWith
  obtain rfl : c = c' := by
    rw [hcs, hcs'] at heq
    exact (List.cons.inj heq).1
  cases h with
  | word hname =>
    cases h' with
    | word hname' =>
      obtain ⟨d, ds, hds, -, hpart⟩ := isWordText_eq_cons hname
      obtain ⟨d', ds', hds', -, hpart'⟩ := isWordText_eq_cons hname'
      obtain ⟨hsame, hrest⟩ :=
        run_unique (hds ▸ hpart) (hds' ▸ hpart') (hword u) (hword v) heq
      exact ⟨by rw [String.toList_inj.1 hsame], (List.cons.inj hrest).2⟩
    | string => exact absurd hbegins' (ne_of_isWordStart hbegins hquote)
    | number => exact absurd hbegins (Bool.eq_false_iff.1 (isWordStart_of_isDigit hbegins'))
  | string =>
    cases h' with
    | word => exact absurd hbegins (ne_of_isWordStart hbegins' hquote)
    | string =>
      obtain ⟨rfl, hrest⟩ := quote_unique heq
      exact ⟨rfl, (List.cons.inj hrest).2⟩
    | number => exact absurd (hbegins ▸ hbegins' : '"'.isDigit = true) (by decide)
  | number hsmall =>
    cases h' with
    | word => exact absurd hbegins' (Bool.eq_false_iff.1 (isWordStart_of_isDigit hbegins))
    | string => exact absurd (hbegins' ▸ hbegins : '"'.isDigit = true) (by decide)
    | number hsmall' =>
      obtain ⟨rfl, hrest⟩ := hsmall.unique hsmall' (hdigits u) (hdigits v) heq
      exact ⟨rfl, (List.cons.inj hrest).2⟩

/-! ## Lists -/

/-- Parts with commas between them, and what closes the list. -/
def closed {α : Type} (text close : α → List Char) : List α → List Char
  | [] => []
  | [a] => text a ++ close a
  | a :: b :: rest => text a ++ ',' :: ' ' :: closed text close (b :: rest)

/-- What may follow a part of a list. -/
def MayFollow {α : Type} (close : α → List Char) (a : α) (rest : List Char) : Prop :=
  (∃ others, rest = close a ++ others) ∨ ∃ others, rest = ',' :: ' ' :: others

theorem closed_cons {α : Type} (text close : α → List Char) (a : α) (as : List α) (u : List Char) :
    ∃ rest, closed text close (a :: as) ++ u = text a ++ rest ∧ MayFollow close a rest := by
  cases as with
  | nil => exact ⟨close a ++ u, by rw [closed, List.append_assoc], .inl ⟨u, rfl⟩⟩
  | cons b as =>
    exact ⟨',' :: ' ' :: (closed text close (b :: as) ++ u), by
      rw [closed, List.append_assoc]; rfl, .inr ⟨_, rfl⟩⟩

theorem MayFollow.endsDigits {α : Type} {close : α → List Char} {a : α} (h : MayFollow close a u)
    {c : Char} {cs : List Char} (hclose : close a = c :: cs) (hc : c.isDigit = false) :
    EndsDigits u := by
  obtain ⟨others, rfl⟩ | ⟨others, rfl⟩ := h
  · rw [hclose]
    rintro _ ⟨⟩
    exact hc
  · rintro _ ⟨⟩
    rfl

/-- The parts of a list are told from their text, up to what `norm` forgets about them, if each of
them is, and if a closing is no comma with a blank behind it. -/
theorem closed_unique {α β : Type} {text close : α → List Char} {norm : α → β} {as bs : List α}
    (has : as ≠ []) (hbs : bs ≠ [])
    (hitem : ∀ a ∈ as, ∀ b ∈ bs, ∀ u v, MayFollow close a u → MayFollow close b v →
      text a ++ u = text b ++ v → norm a = norm b ∧ u = v)
    (hclose : ∀ a b, norm a = norm b → close a = close b)
    (hcomma : ∀ a u v, close a ++ u ≠ ',' :: ' ' :: v)
    (h : closed text close as ++ u = closed text close bs ++ v) :
    as.map norm = bs.map norm ∧ u = v := by
  induction as generalizing bs with
  | nil => exact absurd rfl has
  | cons a as ih =>
    cases bs with
    | nil => exact absurd rfl hbs
    | cons b bs =>
      have hfirst := hitem a (by simp) b (by simp)
      cases as with
      | nil =>
        rw [closed, List.append_assoc] at h
        cases bs with
        | nil =>
          rw [closed, List.append_assoc] at h
          obtain ⟨hsame, hrest⟩ := hfirst _ _ (.inl ⟨_, rfl⟩) (.inl ⟨_, rfl⟩) h
          rw [hclose a b hsame] at hrest
          exact ⟨congrArg (fun n => [n]) hsame, List.append_cancel_left hrest⟩
        | cons b' bs =>
          rw [closed, List.append_assoc] at h
          obtain ⟨-, hrest⟩ := hfirst _ _ (.inl ⟨_, rfl⟩) (.inr ⟨_, rfl⟩) h
          exact absurd hrest (hcomma _ _ _)
      | cons a' as =>
        rw [closed, List.append_assoc] at h
        cases bs with
        | nil =>
          rw [closed, List.append_assoc] at h
          obtain ⟨-, hrest⟩ := hfirst _ _ (.inr ⟨_, rfl⟩) (.inl ⟨_, rfl⟩) h
          exact absurd hrest.symm (hcomma _ _ _)
        | cons b' bs =>
          rw [closed, List.append_assoc] at h
          obtain ⟨hsame, hrest⟩ := hfirst _ _ (.inr ⟨_, rfl⟩) (.inr ⟨_, rfl⟩) h
          have htail : closed text close (a' :: as) ++ u = closed text close (b' :: bs) ++ v := by
            simpa using hrest
          obtain ⟨hothers, huv⟩ := ih (List.cons_ne_nil _ _) (List.cons_ne_nil _ _)
            (fun x hx y hy => hitem x (by simp [hx]) y (by simp [hy])) htail
          exact ⟨congrArg₂ List.cons hsame hothers, huv⟩

/-- A list behind its opening bracket; an empty one is `final` alone. -/
def enclosed {α : Type} (lead final : List Char) (text close : α → List Char) :
    List α → List Char
  | [] => final
  | a :: as => lead ++ closed text close (a :: as)

/-- The parts of a list in brackets are told from its text as those of a list are, if a list that is
not empty does not go on like an empty one. -/
theorem enclosed_unique {α β : Type} {lead final : List Char} {text close : α → List Char}
    {norm : α → β} {as bs : List α}
    (hfinal : ∀ l, l = as ∨ l = bs → l ≠ [] → ∀ u v,
      lead ++ closed text close l ++ u ≠ final ++ v)
    (hitem : ∀ a ∈ as, ∀ b ∈ bs, ∀ u v, MayFollow close a u → MayFollow close b v →
      text a ++ u = text b ++ v → norm a = norm b ∧ u = v)
    (hclose : ∀ a b, norm a = norm b → close a = close b)
    (hcomma : ∀ a u v, close a ++ u ≠ ',' :: ' ' :: v)
    (h : enclosed lead final text close as ++ u = enclosed lead final text close bs ++ v) :
    as.map norm = bs.map norm ∧ u = v := by
  cases as with
  | nil =>
    cases bs with
    | nil => exact ⟨rfl, List.append_cancel_left h⟩
    | cons b bs => exact absurd h.symm (hfinal _ (.inr rfl) (List.cons_ne_nil _ _) _ _)
  | cons a as =>
    cases bs with
    | nil => exact absurd h (hfinal _ (.inl rfl) (List.cons_ne_nil _ _) _ _)
    | cons b bs =>
      rw [enclosed, enclosed, List.append_assoc, List.append_assoc] at h
      exact closed_unique (List.cons_ne_nil _ _) (List.cons_ne_nil _ _) hitem hclose hcomma
        (List.append_cancel_left h)

theorem toList_commas {α : Type} {text close : α → List Char} {part : α → String}
    (hpart : ∀ a, (part a).toList = text a) {l : List α} {a : α} (h : a ∈ l.getLast?) :
    (commas (l.map part)).toList ++ close a = closed text close l := by
  induction l with
  | nil => cases h
  | cons b l ih =>
    cases l with
    | nil =>
      cases h
      simp [commas, closed, hpart]
    | cons c l =>
      rw [List.getLast?_cons_cons] at h
      rw [closed, ← ih h]
      simp [commas, hpart, String.intercalate_cons_cons]

/-! ## Arrays and objects -/

/-- An item of an array as text; nothing is written for one that is left out. -/
def itemText : Option Expr → String
  | none => ""
  | some e => e.guard .assignment (e.render 0)

/-- What closes an array behind its last item; an item that is left out needs a comma. -/
def itemClose : Option Expr → List Char
  | none => [',', ']']
  | some _ => [']']

theorem renderItems_eq (items : List (Option Expr)) :
    renderItems 0 items = items.map itemText := by
  induction items with
  | nil => rfl
  | cons item rest ih => cases item <;> rw [renderItems, ih] <;> rfl

theorem renderMembers_eq (members : List Member) :
    renderMembers 0 members = members.map (Member.render 0) := by
  induction members with
  | nil => rfl
  | cons member rest ih => rw [renderMembers, ih, List.map_cons]

theorem endsWithHole_eq {items : List (Option Expr)} {item : Option Expr}
    (h : item ∈ items.getLast?) : endsWithHole items = item.isNone := by
  induction items with
  | nil => cases h
  | cons first rest ih =>
    cases rest with
    | nil =>
      cases h
      rfl
    | cons next others => exact ih h

theorem toList_array (s : Span) (items : List (Option Expr)) :
    (Expr.array s items).text.toList =
      '[' :: enclosed [] [']'] (fun item => (itemText item).toList) itemClose items := by
  cases items with
  | nil => simp [Expr.text, Expr.render, renderItems, endsWithHole, commas, enclosed]
  | cons first others =>
    obtain ⟨item, hitem⟩ : ∃ item, item ∈ (first :: others).getLast? :=
      ⟨_, List.getLast?_eq_some_getLast (List.cons_ne_nil _ _)⟩
    have hclose : (if item.isNone then [','] else []) ++ [']'] = itemClose item := by
      cases item <;> rfl
    rw [enclosed, ← toList_commas (fun _ => rfl) hitem, ← hclose, Expr.text, Expr.render,
      renderItems_eq, endsWithHole_eq hitem]
    cases item <;> simp

theorem toList_object (s : Span) (members : List Member) :
    (Expr.object s members).text.toList =
      '\x7b' :: enclosed [' '] ['\x7d'] (fun member => (member.render 0).toList)
        (fun _ => [' ', '\x7d']) members := by
  cases members with
  | nil => simp [Expr.text, Expr.render, enclosed]
  | cons first others =>
    obtain ⟨member, hmember⟩ : ∃ member, member ∈ (first :: others).getLast? :=
      ⟨_, List.getLast?_eq_some_getLast (List.cons_ne_nil _ _)⟩
    rw [enclosed, ← toList_commas (fun _ => rfl) hmember, Expr.text, Expr.render,
      List.isEmpty_cons, renderMembers_eq]
    simp

/-! ## Trees -/

namespace Expr

/-- What data begin with; digits stand for one another, and so do the truth values. -/
def opener : Expr → Char
  | string .. => '"'
  | number .. => '0'
  | unary .. => '-'
  | boolean .. => 't'
  | null _ => 'n'
  | array .. => '['
  | object .. => '\x7b'
  | _ => ' '

/-- What an expression begins with if this is its first character. -/
def opening (c : Char) : Char :=
  if c.isDigit then '0' else if c = 'f' then 't' else c

variable {e e' : Expr}

theorem IsData.guard (h : e.IsData) (text : String) : e.guard .assignment text = text := by
  cases h <;> rfl

theorem toList_negative {s t : Span} {value : Binary64} (h : IsSmallWhole value) :
    (Expr.unary s .neg (.number t value)).text.toList = '-' :: value.render.toList := by
  obtain ⟨n, -, hdigits⟩ := h.toList_render
  obtain ⟨c, cs, hcs, hdigit⟩ := toDigits_eq_cons n
  have hclash : value.render.startsWith "-" = false := by
    rw [Bool.eq_false_iff, ne_eq, String.startsWith_string_iff, hdigits, hcs]
    rintro ⟨others, hothers⟩
    rw [← (List.cons.inj hothers).1] at hdigit
    exact absurd hdigit (by decide)
  have htext : (Expr.unary s .neg (.number t value)).text =
      unaryText .neg value.render := rfl
  rw [htext, unaryText, if_neg (by simp [UnaryOp.isWord, hclash])]
  simp [UnaryOp.text]

theorem IsData.text_opens (h : e.IsData) :
    ∃ c cs, e.text.toList = c :: cs ∧ opening c = e.opener := by
  cases h with
  | string => exact ⟨_, _, toList_quote _, rfl⟩
  | number s hsmall =>
    obtain ⟨n, -, hdigits⟩ := hsmall.toList_render
    obtain ⟨c, cs, hcs, hdigit⟩ := toDigits_eq_cons n
    exact ⟨c, cs, hdigits.trans hcs, if_pos hdigit⟩
  | negative s t hsmall => exact ⟨_, _, toList_negative hsmall, rfl⟩
  | boolean s value =>
    cases value with
    | true => exact ⟨'t', ['r', 'u', 'e'], by simp [Expr.text, Expr.render], rfl⟩
    | false => exact ⟨'f', ['a', 'l', 's', 'e'], by simp [Expr.text, Expr.render], rfl⟩
  | null => exact ⟨'n', ['u', 'l', 'l'], by simp [Expr.text, Expr.render], rfl⟩
  | array => exact ⟨_, _, toList_array _ _, rfl⟩
  | object => exact ⟨_, _, toList_object _ _, rfl⟩

theorem IsData.opener_eq (h : e.IsData) (h' : e'.IsData)
    (heq : e.text.toList ++ u = e'.text.toList ++ v) : e.opener = e'.opener := by
  obtain ⟨c, cs, hcs, hopener⟩ := h.text_opens
  obtain ⟨c', cs', hcs', hopener'⟩ := h'.text_opens
  rw [hcs, hcs'] at heq
  rw [← hopener, ← hopener', (List.cons.inj heq).1]

theorem IsData.text_ne (h : e.IsData) {c : Char} (hc : c ∈ [',', ']']) :
    e.text.toList ++ u ≠ c :: v := by
  obtain ⟨d, ds, hds, hopener⟩ := h.text_opens
  rintro heq
  rw [hds] at heq
  rw [(List.cons.inj heq).1] at hopener
  have hopening : opening c = c := by
    rcases List.mem_pair.1 hc with rfl | rfl <;> rfl
  rw [hopening] at hopener
  subst hopener
  cases h <;> simp [Expr.opener] at hc

/-- The text of the expression is told from whatever else may follow it. -/
def Told (e : Expr) : Prop :=
  ∀ {e' : Expr}, e'.IsData → ∀ {u v}, EndsDigits u → EndsDigits v →
    e.text.toList ++ u = e'.text.toList ++ v → e.SameData e' ∧ u = v

end Expr

/-! ## Arrays and objects are told if their parts are -/

theorem itemText_some {e : Expr} (h : e.IsData) : itemText (some e) = e.text :=
  h.guard _

theorem MayFollow.comma (h : MayFollow itemClose none u) : ∃ others, u = ',' :: others := by
  obtain ⟨others, rfl⟩ | ⟨others, rfl⟩ := h <;> exact ⟨_, rfl⟩

theorem item_unique {a b : Option Expr} (ha : ∀ e, a = some e → e.IsData ∧ e.Told)
    (hb : ∀ e, b = some e → e.IsData) (hu : MayFollow itemClose a u)
    (hv : MayFollow itemClose b v) (h : (itemText a).toList ++ u = (itemText b).toList ++ v) :
    a.map (Expr.relabel .plain) = b.map (Expr.relabel .plain) ∧ u = v := by
  cases a with
  | none =>
    cases b with
    | none => exact ⟨rfl, h⟩
    | some e' =>
      obtain ⟨others, rfl⟩ := hu.comma
      rw [itemText_some (hb e' rfl)] at h
      exact absurd h.symm ((hb e' rfl).text_ne (by simp))
  | some e =>
    obtain ⟨hdata, htold⟩ := ha e rfl
    cases b with
    | none =>
      obtain ⟨others, rfl⟩ := hv.comma
      rw [itemText_some hdata] at h
      exact absurd h (hdata.text_ne (by simp))
    | some e' =>
      rw [itemText_some hdata, itemText_some (hb e' rfl)] at h
      obtain ⟨hsame, hrest⟩ := htold (hb e' rfl) (hu.endsDigits rfl rfl) (hv.endsDigits rfl rfl) h
      exact ⟨congrArg some hsame, hrest⟩

theorem closed_items_ne {items : List (Option Expr)} (h : ∀ e, some e ∈ items → e.IsData)
    (hne : items ≠ []) :
    closed (fun item => (itemText item).toList) itemClose items ++ u ≠ ']' :: v := by
  cases items with
  | nil => exact absurd rfl hne
  | cons item items =>
    obtain ⟨rest, hrest, hfollow⟩ := closed_cons (fun item => (itemText item).toList) itemClose item
      items u
    rw [hrest]
    cases item with
    | none =>
      obtain ⟨others, rfl⟩ := hfollow.comma
      exact fun hbracket => absurd (List.cons.inj hbracket).1 (by decide)
    | some e =>
      have hdata := h e (by simp)
      rw [itemText_some hdata]
      exact hdata.text_ne (by simp)

theorem told_array {s : Span} {items : List (Option Expr)}
    (hparts : ∀ e, some e ∈ items → e.IsData ∧ e.Told) : (Expr.array s items).Told := by
  intro e' he' u v hu hv h
  have hopener := Expr.IsData.opener_eq (.array s fun e he => (hparts e he).1) he' h
  cases he' with
  | @array s' items' hdata' =>
    suffices hsame : items.map (Option.map (Expr.relabel .plain)) =
        items'.map (Option.map (Expr.relabel .plain)) ∧ u = v from
      ⟨by simp only [Expr.SameData, Expr.relabel, relabelItems_eq, hsame.1]; rfl, hsame.2⟩
    rw [toList_array, toList_array] at h
    refine enclosed_unique (fun l hl hne u v => ?_) (fun a ha b hb u v hu hv heq => ?_)
      (fun a b hsame => ?_) (fun a u v hcomma => ?_) (List.cons.inj h).2
    · refine closed_items_ne (fun e he => ?_) hne
      rcases hl with rfl | rfl
      · exact (hparts e he).1
      · exact hdata' e he
    · exact item_unique (fun e he => hparts e (he ▸ ha)) (fun e he => hdata' e (he ▸ hb)) hu hv heq
    · cases a <;> cases b <;> first | rfl | cases hsame
    · cases a <;> simp [itemClose] at hcomma
  | _ => exact absurd hopener (by simp [Expr.opener])

theorem toList_pair {s : Span} {key : Key} {value : Expr} (h : value.IsData) (rest : List Char) :
    ((Member.named s .pair key value).render 0).toList ++ rest =
      (key.render 0).toList ++ ':' :: ' ' :: (value.text.toList ++ rest) := by
  have hguard : value.guard .assignment (value.render 0) = value.text := h.guard _
  simp [Member.render, hguard]

theorem member_unique {a b : Member} (ha : a.IsPair) (hb : b.IsPair) (htold : a.value.Told)
    (hdata : a.value.IsData) (hdata' : b.value.IsData) (hu : EndsDigits u) (hv : EndsDigits v)
    (h : (a.render 0).toList ++ u = (b.render 0).toList ++ v) :
    a.relabel .plain = b.relabel .plain ∧ u = v := by
  match a, b, ha, hb with
  | .named s .pair key value, .named s' .pair key' value', ha, hb =>
    have htext := (toList_pair hdata u).symm.trans (h.trans (toList_pair hdata' v))
    obtain ⟨hkey, hrest⟩ := (Key.IsData.writtenAs ha).unique (Key.IsData.writtenAs hb) htext
    obtain ⟨hvalue, hend⟩ := htold hdata' hu hv (List.cons.inj hrest).2
    have hsame : value.relabel .plain = value'.relabel .plain := hvalue
    exact ⟨by rw [Member.relabel, Member.relabel, hkey, hsame]; rfl, hend⟩

theorem told_object {s : Span} {members : List Member}
    (hpairs : ∀ member ∈ members, member.IsPair)
    (hparts : ∀ member ∈ members, member.value.IsData ∧ member.value.Told) :
    (Expr.object s members).Told := by
  intro e' he' u v hu hv h
  have hopener := Expr.IsData.opener_eq (.object s hpairs fun m hm => (hparts m hm).1) he' h
  have hends {member : Member} {rest : List Char}
      (hfollow : MayFollow (fun _ => [' ', '\x7d']) member rest) : EndsDigits rest :=
    hfollow.endsDigits rfl rfl
  cases he' with
  | @object s' members' hpairs' hdata' =>
    suffices hsame : members.map (Member.relabel .plain) = members'.map (Member.relabel .plain) ∧
        u = v from
      ⟨by simp only [Expr.SameData, Expr.relabel, relabelMembers_eq, hsame.1]; rfl, hsame.2⟩
    rw [toList_object, toList_object] at h
    refine enclosed_unique
      (fun l _ _ u v hfinal => absurd (List.cons.inj hfinal).1 (by decide))
      (fun a ha b hb u v hu hv heq => ?_) (fun _ _ _ => rfl)
      (fun _ u v hcomma => absurd (List.cons.inj hcomma).1 (by decide)) (List.cons.inj h).2
    exact member_unique (hpairs a ha) (hpairs' b hb) (hparts a ha).2 (hparts a ha).1 (hdata' b hb)
      (hends hu) (hends hv) heq
  | _ => exact absurd hopener (by simp [Expr.opener])

namespace Expr

variable {e e' : Expr}

/-- **No text begins with two data**: data are told from whatever follows them that begins with no
digit. -/
theorem IsData.told (h : e.IsData) : e.Told := by
  induction h with
  | string s value =>
    intro e' he' u v hu hv h
    have hopener := (IsData.string s value).opener_eq he' h
    cases he' with
    | string s' value' =>
      obtain ⟨rfl, hrest⟩ := quote_unique h
      exact ⟨rfl, hrest⟩
    | _ => exact absurd hopener (by simp [opener])
  | @number s value hsmall =>
    intro e' he' u v hu hv h
    have hopener := (IsData.number s hsmall).opener_eq he' h
    cases he' with
    | number s' hsmall' =>
      obtain ⟨rfl, hrest⟩ := hsmall.unique hsmall' hu hv h
      exact ⟨rfl, hrest⟩
    | _ => exact absurd hopener (by simp [opener])
  | @negative s t value hsmall =>
    intro e' he' u v hu hv h
    have hopener := (IsData.negative s t hsmall).opener_eq he' h
    cases he' with
    | negative s' t' hsmall' =>
      rw [toList_negative hsmall, toList_negative hsmall'] at h
      obtain ⟨rfl, hrest⟩ := hsmall.unique hsmall' hu hv (List.cons.inj h).2
      exact ⟨rfl, hrest⟩
    | _ => exact absurd hopener (by simp [opener])
  | boolean s value =>
    intro e' he' u v hu hv h
    have hopener := (IsData.boolean s value).opener_eq he' h
    cases he' with
    | boolean s' value' =>
      cases value <;> cases value' <;> simp [Expr.text, Expr.render] at h
      all_goals exact ⟨rfl, h⟩
    | _ => exact absurd hopener (by simp [opener])
  | null s =>
    intro e' he' u v hu hv h
    have hopener := (IsData.null s).opener_eq he' h
    cases he' with
    | null s' => exact ⟨rfl, List.append_cancel_left h⟩
    | _ => exact absurd hopener (by simp [opener])
  | array s hdata ih => exact told_array fun e he => ⟨hdata e he, ih e he⟩
  | object s hpairs hdata ih => exact told_object hpairs fun m hm => ⟨hdata m hm, ih m hm⟩

theorem keepsKeys_plain : Relabeling.plain.KeepsKeys := by
  intro indent value
  by_cases hword : isWordText value = true
  · simp [Relabeling.plain, hword, Key.render]
  · simp [Relabeling.plain, hword]

/-- **Data are printed alike exactly if they are the same.** -/
theorem IsData.text_eq_iff (h : e.IsData) (h' : e'.IsData) :
    e.text = e'.text ↔ e.SameData e' := by
  constructor
  · intro htext
    have hends : EndsDigits [] := by simp [EndsDigits]
    exact (h.told h' hends hends (by rw [htext])).1
  · intro hsame
    rw [← e.text_relabel .plain keepsKeys_plain, ← e'.text_relabel .plain keepsKeys_plain]
    exact congrArg text hsame

end Expr

end WidgetLint.Script
