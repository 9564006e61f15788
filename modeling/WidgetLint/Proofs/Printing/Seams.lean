import WidgetLint.Proofs.Printing.Cutting
import WidgetLint.Proofs.Printing.Front

/-!
# Neighbours in printed text

Printed tokens never run into each other: **every printed tree is a chain of tokens that are apart**
(`Expr.closed`, `Stmt.closed`). Most tokens have a blank between them. The others follow an operand
that they cannot go on with, or a punctuator that is no part of a longer one; a number before a point
stands in parentheses, and a sign before the same sign is kept apart by a blank.
-/

namespace WidgetLint.Script

open Text

variable {p q : Printed} {ts us : List Printed} {point : Bool} {lead : Spacing}

/-! ## Pairs of tokens -/

/-- Whether a token may be the last one of an operand. A number may not if a point comes next. -/
def TokenBody.endsOperand (point : Bool) : TokenBody → Bool
  | .number _ => !point
  | .symbol s => operandEnds.contains s
  | _ => true

/-- The punctuators that may follow an operand without a blank. -/
def tailSymbols : List Symbol :=
  [.rparen, .rbracket, .rbrace, .comma, .semicolon, .colon, .lparen, .lbracket, .questionDot,
    .plusPlus, .minusMinus]

/-- Whether a token may follow an operand without a blank. -/
def TokenBody.joins (point : Bool) : TokenBody → Bool
  | .symbol s => tailSymbols.contains s || point && s == .dot
  | _ => false

/-- The punctuators that no character goes on with. -/
def aloneSymbols : List Symbol :=
  [.lparen, .rparen, .lbracket, .rbracket, .lbrace, .rbrace, .comma, .semicolon, .colon, .tilde,
    .ellipsis, .plusPlus]

theorem stopsAt_blank : ∀ s ∈ Symbol.all, s.stopsAt ' ' = true ∧ s.stopsAt '\n' = true := by
  decide +kernel

theorem TokenBody.Plain.stopsAt_blank {body : TokenBody} (h : body.Plain) :
    body.stopsAt ' ' = true ∧ body.stopsAt '\n' = true := by
  cases body with
  | symbol s => exact Script.stopsAt_blank s s.mem_all
  | string value => exact ⟨rfl, rfl⟩
  | template raw => exact ⟨rfl, rfl⟩
  | eof => cases h
  | number value => simp [TokenBody.stopsAt, isWordStart_ascii]
  | word | boolean | null | regex => simp [TokenBody.stopsAt, isWordPart_ascii]

theorem apart_of_spaced (h : q.spacing ≠ .joined) : p.Apart q := by
  intro hp _ c hc
  obtain ⟨hblank, hline⟩ := hp.stopsAt_blank
  rw [Printed.chars] at hc
  cases hspacing : q.spacing with
  | joined => exact absurd hspacing h
  | spaced =>
    rw [hspacing] at hc
    cases hc
    exact hblank
  | line indent =>
    rw [hspacing] at hc
    cases hc
    exact hline

theorem stopsAt_alone {s : Symbol} (hs : s ∈ aloneSymbols) (c : Char) : s.stopsAt c = true := by
  simp only [aloneSymbols, List.mem_cons, List.not_mem_nil, or_false] at hs
  rcases hs with rfl | rfl | rfl | rfl | rfl | rfl | rfl | rfl | rfl | rfl | rfl | rfl <;>
    simp [Symbol.stopsAt, Symbol.all, Symbol.text, List.isPrefixOf]

theorem apart_of_alone {s : Symbol} (hs : s ∈ aloneSymbols) (h : p.body = .symbol s) :
    p.Apart q := by
  intro _ _ c _
  rw [h]
  exact stopsAt_alone hs c

/-- What the first characters of the punctuators that follow operands do not go on with. -/
theorem tailSymbols_stop : ∀ s ∈ .dot :: tailSymbols, ∀ c ∈ s.text.toList.head?,
    (isWordPart c || c == '\\') = false ∧ Symbol.minusMinus.stopsAt c = true ∧
      (s = .dot ∨ (c.isDigit || c == '.' || isWordStart c) = false) := by
  intro s hs c hc
  -- all of them are ASCII, so their class is known without the tables
  have hall : ((.dot :: tailSymbols).all fun s => s.text.toList.head?.all fun c =>
      decide (c.toNat < 128 ∧ (c.isAlphanum || c == '_' || c == '$' || c == '\\') = false ∧
        Symbol.minusMinus.stopsAt c = true ∧
        (s = .dot ∨ (c.isDigit || c == '.' || (c.isAlpha || c == '_' || c == '$')) = false))) =
        true := by
    decide +kernel
  have hhead := List.all_eq_true.1 hall s hs
  rw [Option.mem_def.1 hc] at hhead
  obtain ⟨hascii, hstop⟩ := of_decide_eq_true hhead
  rwa [isWordPart_ascii hascii, isWordStart_ascii hascii]

theorem apart_of_joins (hp : p.body.endsOperand point = true) (hq : q.body.joins point = true) :
    p.Apart q := by
  by_cases hspacing : q.spacing = .joined
  · cases hbody : q.body with
    | symbol s =>
      rw [hbody, TokenBody.joins, Bool.or_eq_true, Bool.and_eq_true, beq_iff_eq,
        List.contains_iff_mem] at hq
      intro _ _ c hc
      rw [Printed.chars, hspacing, hbody] at hc
      have hmem : s ∈ .dot :: tailSymbols := by
        rcases hq with hq | ⟨-, rfl⟩
        · exact List.mem_cons_of_mem _ hq
        · exact List.mem_cons_self
      obtain ⟨hword, hminus, hnumber⟩ := tailSymbols_stop s hmem c hc
      cases hend : p.body with
      | symbol t =>
        rw [hend] at hp
        have ht : t ∈ operandEnds := by simpa [TokenBody.endsOperand] using hp
        simp only [operandEnds, List.mem_cons, List.not_mem_nil, or_false] at ht
        rcases ht with rfl | rfl | rfl | rfl | rfl
        · exact stopsAt_alone (by decide) c
        · exact stopsAt_alone (by decide) c
        · exact stopsAt_alone (by decide) c
        · exact stopsAt_alone (by decide) c
        · exact hminus
      | number value =>
        rw [hend] at hp
        have hpoint : point = false := by simpa [TokenBody.endsOperand] using hp
        have hdot : s ≠ .dot := by
          rintro rfl
          rw [hpoint] at hq
          exact absurd hq (by decide)
        rw [TokenBody.stopsAt, hnumber.resolve_left hdot]
        rfl
      | string value => rfl
      | template raw => rfl
      | eof =>
        rename_i hplain _
        rw [hend] at hplain
        cases hplain
      | word | boolean | null | regex =>
        rw [TokenBody.stopsAt, hword]
        rfl
    | _ => rw [hbody] at hq; cases hq
  · exact apart_of_spaced hspacing

/-! ## Lists of tokens -/

/-- Every token is apart from the next one. -/
abbrev Tidy (ts : List Printed) : Prop :=
  ts.IsChain Printed.Apart

/-- Whether tokens may stand after an operand. -/
def Follows (point : Bool) (us : List Printed) : Prop :=
  ∀ q ∈ us.head?, q.spacing ≠ .joined ∨ q.body.joins point = true

/-- Tokens that are apart, and stay so if tokens follow that may stand after an operand. -/
def Closed (point : Bool) (ts : List Printed) : Prop :=
  ∀ us, Tidy us → Follows point us → Tidy (ts ++ us)

theorem closed_nil : Closed point [] :=
  fun _ h _ => h

theorem Closed.tidy (h : Closed point ts) : Tidy ts := by
  have hts := h [] .nil nofun
  rwa [List.append_nil] at hts

theorem Follows.mono (h : Follows false us) : Follows point us := by
  intro q hq
  refine (h q hq).imp_right fun hjoins => ?_
  cases hbody : q.body with
  | symbol s =>
    rw [hbody, TokenBody.joins, Bool.false_and, Bool.or_false] at hjoins
    rw [TokenBody.joins, hjoins, Bool.true_or]
  | _ => rw [hbody] at hjoins; cases hjoins

theorem Closed.loosen (h : Closed point ts) : Closed false ts :=
  fun us hus hfollows => h us hus hfollows.mono

theorem follows_cons : Follows point (q :: us) ↔ q.spacing ≠ .joined ∨ q.body.joins point = true := by
  simp [Follows]

theorem Closed.cons {b : Bool} (hp : ∀ q ∈ ts.head?, p.Apart q) (hne : ts ≠ []) (h : Closed b ts) :
    Closed b (p :: ts) := by
  intro us hus hfollows
  have hhead : ∀ q ∈ (ts ++ us).head?, p.Apart q := by
    rw [List.head?_append_of_ne_nil _ hne]
    exact hp
  exact List.isChain_cons.2 ⟨hhead, h us hus hfollows⟩

theorem Closed.alone {b : Bool} {s : Symbol} {l : Spacing} (hs : s ∈ aloneSymbols) (h : Closed b ts) :
    Closed b (.symbol l s :: ts) := by
  intro us hus hfollows
  exact List.isChain_cons.2 ⟨fun q _ => apart_of_alone hs rfl, h us hus hfollows⟩

theorem closed_singleton (h : p.body.endsOperand point = true) : Closed point [p] := by
  intro us hus hfollows
  refine List.isChain_cons.2 ⟨fun q hq => ?_, hus⟩
  rcases hfollows q hq with hspacing | hjoins
  · exact apart_of_spaced hspacing
  · exact apart_of_joins h hjoins

theorem Closed.append {b : Bool} (ht : Closed point ts)
    (hq : q.spacing ≠ .joined ∨ q.body.joins point = true) (hu : Closed b (q :: us)) :
    Closed b (ts ++ q :: us) := by
  intro vs hvs hfollows
  rw [List.append_assoc]
  exact ht _ (hu vs hvs hfollows) (follows_cons.2 hq)

theorem follows_nil : Follows point [] :=
  nofun

theorem Follows.append (ht : Follows point ts) (hu : Follows point us) : Follows point (ts ++ us) := by
  cases ts with
  | nil => exact hu
  | cons q ts => exact ht

theorem Closed.join (ht : Closed point ts) (hu : Closed false us) (hfollows : Follows point us) :
    Closed false (ts ++ us) := by
  intro vs hvs hvs'
  rw [List.append_assoc]
  exact ht _ (hu vs hvs hvs') (hfollows.append hvs'.mono)

theorem Closed.blank {b : Bool} (hq : q.spacing ≠ .joined) (h : Closed b (q :: us)) :
    Closed b (p :: q :: us) := by
  refine .cons ?_ (List.cons_ne_nil _ _) h
  rintro r ⟨⟩
  exact apart_of_spaced hq

theorem Closed.word {b : Bool} {name : String} (hq : q.spacing ≠ .joined ∨ q.body.joins true = true)
    (h : Closed b (q :: us)) : Closed b (.keyword lead name :: q :: us) :=
  (@closed_singleton (.keyword lead name) true rfl).append hq h

theorem Closed.enclose {b : Bool} {opening close : Symbol} {l l' : Spacing}
    (hopening : opening ∈ aloneSymbols) (hclose : close ∈ aloneSymbols)
    (hjoins : (TokenBody.symbol close).joins false = true) (ht : Closed point ts)
    (hu : Closed b us) : Closed b (.symbol l opening :: (ts ++ .symbol l' close :: us)) :=
  .alone hopening (ht.loosen.append (.inr hjoins) (.alone hclose hu))

section
variable {e : Expr} {tokens : Spacing → List Printed}

theorem closed_fence (h : Closed point (tokens .joined)) (lead : Spacing) :
    Closed true (fence tokens lead) :=
  .alone (by decide) (h.loosen.append (.inr rfl) (closed_singleton rfl))

/-- Whether a point may follow a printed expression. -/
def Expr.takesPoint : Expr → Bool
  | .number .. | .unary .. | .update .. | .binary .. | .assign .. | .conditional .. | .arrow ..
  | .sequence .. | .spread .. => false
  | _ => true

theorem Expr.takesPoint_of_call (hnumber : e.isNumber = false) (h : ¬e.strength < .call) :
    e.takesPoint = true := by
  cases e with
  | number => cases hnumber
  | unary | assign | conditional | arrow | sequence | spread =>
    exact absurd (Nat.le_of_ble_eq_true rfl) h
  | update s op side operand => cases side <;> exact absurd (Nat.le_of_ble_eq_true rfl) h
  | binary s op left right => cases op <;> exact absurd (Nat.le_of_ble_eq_true rfl) h
  | _ => rfl

theorem closed_fenced (h : ∀ lead, Closed e.takesPoint (tokens lead)) (least : Strength)
    (lead : Spacing) : Closed false (e.fenced least tokens lead) := by
  unfold Expr.fenced
  split
  · exact (closed_fence (h .joined) lead).loosen
  · exact (h lead).loosen

theorem closed_fenced_call (hnumber : e.isNumber = false)
    (h : ∀ lead, Closed e.takesPoint (tokens lead)) (lead : Spacing) :
    Closed true (e.fenced .call tokens lead) := by
  unfold Expr.fenced
  split
  · exact closed_fence (h .joined) lead
  · rename_i hstrength
    have htokens := h lead
    rwa [Expr.takesPoint_of_call hnumber hstrength] at htokens

end

theorem Closed.inBraces {body : List Stmt} {lines : List Printed} (h : Closed false lines)
    (indent : Nat) (lead : Spacing) : Closed true (inBraces indent body lines lead) :=
  .enclose (by decide) (by decide) rfl h closed_nil

theorem endsOperand_wordBody (lexeme : String) (name : List Char) :
    (wordBody lexeme name).endsOperand point = true := by
  unfold wordBody
  split
  · rfl
  · split
    · rfl
    · split <;> rfl

theorem closed_name (lead : Spacing) (name : String) : Closed true [.name lead name] :=
  closed_singleton (endsOperand_wordBody _ _)

/-! ## Operators before operands -/

/-- The punctuators with which expressions begin. -/
def headSymbols : List Symbol :=
  [.lparen, .lbracket, .lbrace, .not, .minus, .plus, .tilde, .plusPlus, .minusMinus, .ellipsis]

theorem Expr.first_symbol (e : Expr) {s : Symbol} (h : e.first = .symbol s) : s ∈ headSymbols := by
  induction e using Expr.front_induction with
  | step e ih =>
    cases hfront : e.front with
    | some front =>
      obtain ⟨l, least⟩ := front
      rw [Expr.first_front hfront] at h
      split at h
      · cases h
        decide
      · exact ih l least hfront h
    | none =>
      cases e with
      | ident s name => exact absurd h (wordBody_ne_symbol _ _ _)
      | unary s op operand => cases op <;> cases h <;> decide
      | update s op side operand =>
        cases side with
        | before => cases op <;> cases h <;> decide
        | behind => cases hfront
      | sequence s items =>
        cases items with
        | nil => cases h
        | cons e rest => cases hfront
      | binary | assign | conditional | dot | index | call => cases hfront
      | array | object | arrow | spread => cases h; decide
      | _ => cases h

theorem Expr.fenced_eq_cons (e : Expr) (least : Strength) (indent : Nat) (lead : Spacing) :
    ∃ body tail, e.fenced least (e.printed indent) lead = ⟨lead, body⟩ :: tail ∧
      ∀ s, body = .symbol s → s ∈ headSymbols := by
  unfold Expr.fenced
  split
  · refine ⟨_, _, rfl, ?_⟩
    rintro s ⟨⟩
    decide
  · obtain ⟨tail, htail⟩ := e.printed_eq_cons indent lead
    exact ⟨_, tail, htail, fun s h => e.first_symbol h⟩

theorem TokenBody.Plain.head_ne {body : TokenBody} (h : body.Plain)
    (hsymbol : ∀ s, body = .symbol s → s ∈ headSymbols) :
    ∀ c ∈ body.spelling.toList.head?, c ≠ '=' ∧ c ≠ '>' := by
  have hname {name : String} (hword : isWordText name = true) :
      ∀ c ∈ name.toList.head?, c ≠ '=' ∧ c ≠ '>' := by
    obtain ⟨c, cs, hname, hstart, -⟩ := isWordText_eq_cons hword
    rw [hname]
    rintro d ⟨⟩
    exact ⟨ne_of_isWordStart hstart (by simp [isWordStart_ascii]),
      ne_of_isWordStart hstart (by simp [isWordStart_ascii])⟩
  cases body with
  | number value =>
    obtain ⟨units, rfl, -, -⟩ := h
    obtain ⟨c, cs, htext, hc⟩ := Binary64.render_eq_cons units
    rw [TokenBody.spelling, htext]
    rintro d ⟨⟩
    constructor <;> rintro rfl <;> exact absurd hc (by decide)
  | string value =>
    simp [TokenBody.spelling, quote]
  | template raw =>
    simp [TokenBody.spelling]
  | regex pattern flags =>
    simp [TokenBody.spelling]
  | boolean value =>
    cases value with
    | true => exact hname (isWordText_of_isLiteralWord rfl)
    | false => exact hname (isWordText_of_isLiteralWord rfl)
  | null => exact hname (isWordText_of_isLiteralWord rfl)
  | word name => exact hname h.1
  | symbol s =>
    have hall : (headSymbols.all fun s => s.text.toList.head?.all fun c =>
        decide (c ≠ '=' ∧ c ≠ '>')) = true := by simp [headSymbols, Symbol.text]
    have hhead := List.all_eq_true.1 hall s (hsymbol s rfl)
    intro c hc
    have hfirst : s.text.toList.head? = some c := hc
    rw [hfirst] at hhead
    exact of_decide_eq_true hhead
  | eof => cases h

theorem not_stopsAt {c : Char} (h : c ≠ '=') : Symbol.not.stopsAt c = true := by
  simp [Symbol.stopsAt, Symbol.all, Symbol.text, List.isPrefixOf, h]

theorem minus_stopsAt {c : Char} (h : c ≠ '=') (h' : c ≠ '-') : Symbol.minus.stopsAt c = true := by
  simp [Symbol.stopsAt, Symbol.all, Symbol.text, List.isPrefixOf, h, h']

theorem plus_stopsAt {c : Char} (h : c ≠ '=') (h' : c ≠ '+') : Symbol.plus.stopsAt c = true := by
  simp [Symbol.stopsAt, Symbol.all, Symbol.text, List.isPrefixOf, h, h']

theorem dot_stopsAt {c : Char} (h : c.isDigit = false) (h' : c ≠ '.') :
    Symbol.dot.stopsAt c = true := by
  simp [Symbol.stopsAt, Symbol.all, Symbol.text, List.isPrefixOf, h, h']

theorem questionDot_stopsAt {c : Char} (h : c.isDigit = false) :
    Symbol.questionDot.stopsAt c = true := by
  simp [Symbol.stopsAt, Symbol.all, Symbol.text, List.isPrefixOf, h]

theorem minusMinus_stopsAt {c : Char} (h : c ≠ '>') : Symbol.minusMinus.stopsAt c = true := by
  simp [Symbol.stopsAt, Symbol.all, Symbol.text, List.isPrefixOf, h]

/-- A sign that is not kept apart from the text of its operand differs from its first character. -/
theorem head_ne_of_startsWith {text pattern : String} {sign : Char} (hsign : pattern.toList = [sign])
    (h : text.startsWith pattern = false) : ∀ c ∈ text.toList.head?, c ≠ sign := by
  rintro c hc rfl
  refine Bool.false_ne_true (h.symm.trans ?_)
  rw [String.startsWith_string_iff]
  cases htext : text.toList with
  | nil => rw [htext] at hc; cases hc
  | cons d ds =>
    rw [htext] at hc
    cases hc
    exact ⟨ds, by rw [hsign]; rfl⟩

theorem apart_unary (op : UnaryOp) (operand : Expr) (indent : Nat) (lead : Spacing) :
    ∀ q ∈ (operand.fenced .unary (operand.printed indent)
        (if op.parts (operand.guard .unary (operand.render indent)) then .spaced else .joined)).head?,
      (⟨lead, op.body⟩ : Printed).Apart q := by
  by_cases hparts : op.parts (operand.guard .unary (operand.render indent)) = true
  · rw [if_pos hparts]
    obtain ⟨body, tail, htokens, -⟩ := operand.fenced_eq_cons .unary indent .spaced
    rw [htokens]
    rintro q ⟨⟩
    exact apart_of_spaced (by simp)
  · rw [if_neg hparts]
    obtain ⟨body, tail, htokens, hsymbol⟩ := operand.fenced_eq_cons .unary indent .joined
    have hspells := (operand.spells indent).fenced operand .unary .joined
    rw [htokens] at hspells ⊢
    rintro q ⟨⟩ - hplain c hc
    obtain ⟨heq, -⟩ := hplain.head_ne hsymbol c hc
    have htext : c ∈ (operand.guard .unary (operand.render indent)).toList.head? := by
      simp only [written_cons, Printed.chars, Spacing.chars_joined, List.nil_append] at hspells
      rw [← hspells, List.head?_append_of_ne_nil _ hplain.spelling_ne_nil]
      exact hc
    simp only [UnaryOp.parts, Bool.not_eq_true, Bool.or_eq_false_iff, Bool.and_eq_false_iff] at hparts
    obtain ⟨hword, hminus, hplus⟩ := hparts
    cases op with
    | not => exact not_stopsAt heq
    | neg =>
      have hstarts := hminus.resolve_left (by decide)
      exact minus_stopsAt heq (head_ne_of_startsWith rfl hstarts c htext)
    | plus =>
      have hstarts := hplus.resolve_left (by decide)
      exact plus_stopsAt heq (head_ne_of_startsWith rfl hstarts c htext)
    | bitNot => exact stopsAt_alone (by decide) c
    | typeOf | void | delete => cases hword

theorem apart_update (op : UpdateOp) (operand : Expr) (indent : Nat) (lead : Spacing) :
    ∀ q ∈ (operand.fenced .unary (operand.printed indent) .joined).head?,
      (Printed.symbol lead op.symbol).Apart q := by
  obtain ⟨body, tail, htokens, hsymbol⟩ := operand.fenced_eq_cons .unary indent .joined
  rw [htokens]
  rintro q ⟨⟩ - hplain c hc
  obtain ⟨-, hgreater⟩ := hplain.head_ne hsymbol c hc
  cases op with
  | increment => exact stopsAt_alone (by decide) c
  | decrement => exact minusMinus_stopsAt hgreater

theorem Expr.fenced_ne_nil (e : Expr) (least : Strength) (indent : Nat) (lead : Spacing) :
    e.fenced least (e.printed indent) lead ≠ [] := by
  obtain ⟨body, tail, htokens, -⟩ := e.fenced_eq_cons least indent lead
  rw [htokens]
  exact List.cons_ne_nil _ _

/-! ## Trees -/

section
variable {e : Expr} {indent : Nat} {b : Bool}

theorem Expr.printed_follows (e : Expr) (indent : Nat) (hlead : lead ≠ .joined) :
    Follows point (e.printed indent lead) := by
  obtain ⟨tail, htokens⟩ := e.printed_eq_cons indent lead
  rw [htokens]
  exact follows_cons.2 (.inl hlead)

theorem Closed.fenced {least : Strength} (h : Closed b (e.fenced least (e.printed indent) .spaced)) :
    Closed b (p :: e.fenced least (e.printed indent) .spaced) := by
  obtain ⟨body, tail, htokens, -⟩ := e.fenced_eq_cons least indent .spaced
  rw [htokens] at h ⊢
  exact h.blank (by simp)

theorem Closed.printed (h : Closed b (e.printed indent .spaced)) :
    Closed b (p :: e.printed indent .spaced) := by
  obtain ⟨tail, htokens⟩ := e.printed_eq_cons indent .spaced
  rw [htokens] at h ⊢
  exact h.blank (by simp)

theorem Stmt.printed_follows (s : Stmt) (indent : Nat) (hlead : lead ≠ .joined) :
    Follows point (s.printed indent lead) := by
  cases s with
  | expression span value =>
    rw [Stmt.printed]
    split
    · exact follows_cons.2 (.inl hlead)
    · exact (value.printed_follows indent hlead).append (follows_cons.2 (.inr rfl))
  | _ =>
    rw [Stmt.printed]
    exact follows_cons.2 (.inl hlead)

theorem printedLines_follows (indent : Nat) (body : List Stmt) :
    Follows point (printedLines indent body) := by
  induction body with
  | nil => exact follows_nil
  | cons s rest ih =>
    rw [printedLines]
    exact (s.printed_follows indent (by simp)).append ih

theorem Key.printed_follows (key : Key) (indent : Nat) (hlead : lead ≠ .joined) :
    Follows point (key.printed indent lead) := by
  cases key with
  | string value =>
    rw [Key.printed]
    split <;> exact follows_cons.2 (.inl hlead)
  | _ =>
    rw [Key.printed]
    exact follows_cons.2 (.inl hlead)

theorem printedOption_follows (value : Option Expr) (indent : Nat) :
    Follows point (printedOption indent value) := by
  cases value with
  | none => exact follows_nil
  | some e =>
    rw [printedOption]
    exact e.printed_follows indent (by simp)

theorem printedElse_follows (s : Option Stmt) (indent : Nat) :
    Follows point (printedElse indent s) := by
  cases s with
  | none => exact follows_nil
  | some s =>
    rw [printedElse]
    exact follows_cons.2 (.inl (by simp [Printed.keyword]))

theorem Declarator.printed_follows (d : Declarator) (indent : Nat) :
    Follows point (d.printed indent) := by
  obtain ⟨target, value⟩ := d
  cases value with
  | none =>
    rw [Declarator.printed]
    exact target.printed_follows indent (by simp)
  | some value =>
    rw [Declarator.printed]
    exact (target.printed_follows indent (by simp)).append
      (follows_cons.2 (.inl (by simp [Printed.symbol])))

theorem printedDeclarators_follows (declarators : List Declarator) (indent : Nat) :
    Follows point (printedDeclarators indent declarators) := by
  rcases declarators with _ | ⟨d, _ | ⟨next, rest⟩⟩
  · exact follows_cons.2 (.inl (by simp))
  · rw [printedDeclarators]
    exact d.printed_follows indent
  · rw [printedDeclarators]
    · exact (d.printed_follows indent).append (follows_cons.2 (.inr rfl))
    · simp

theorem printedHandler_follows (handler : Option Handler) (indent : Nat) :
    Follows point (printedHandler indent handler) := by
  cases handler with
  | none => exact follows_nil
  | some handler =>
    rw [printedHandler]
    exact follows_cons.2 (.inl (by simp [Printed.keyword]))

theorem printedFinalizer_follows (finalizer : Option (List Stmt)) (indent : Nat) :
    Follows point (printedFinalizer indent finalizer) := by
  cases finalizer with
  | none => exact follows_nil
  | some body =>
    rw [printedFinalizer]
    exact follows_cons.2 (.inl (by simp [Printed.keyword]))

theorem printedCases_follows (indent : Nat) (cases : List Case) :
    Follows point (printedCases indent cases) := by
  induction cases with
  | nil => exact follows_nil
  | cons c rest ih =>
    obtain ⟨test, body⟩ := c
    rw [printedCases]
    refine Follows.append ?_ ih
    cases test <;> rw [Case.printed] <;> exact follows_cons.2 (.inl (by simp [Printed.keyword]))

theorem closed_jump (keyword : String) (label : Option String) :
    Closed false (printedJump keyword label lead) := by
  have hend : Closed false [Printed.symbol .joined .semicolon] := .alone (by decide) closed_nil
  unfold printedJump
  cases label with
  | none => exact .word (.inr rfl) hend
  | some name => exact .word (.inl (by simp [Printed.name])) ((closed_name _ _).append (.inr rfl) hend)

theorem Closed.function {params : List Printed} {body : List Stmt} {indent : Nat}
    (hparams : Closed false params) (hlines : Closed false (printedLines (indent + 1) body)) :
    Closed true (.symbol .joined .lparen :: (params ++ .symbol .joined .rparen ::
      Script.inBraces indent body (printedLines (indent + 1) body) .spaced)) :=
  .enclose (by decide) (by decide) rfl hparams (.inBraces hlines _ _)

theorem Key.closed_announced {key : Key} (h : ∀ lead, Closed false (key.printed indent lead))
    (kind : MemberKind) (hus : Closed true (.symbol .joined .lparen :: us)) :
    Closed false
      (kind.announce (key.printed indent) lead ++ .symbol .joined .lparen :: us) := by
  have hrest (lead : Spacing) := ((h lead).append (.inr rfl) hus).loosen
  have hfollows : Follows true (key.printed indent .spaced ++ .symbol .joined .lparen :: us) :=
    (key.printed_follows indent (by simp)).append (follows_cons.2 (.inr rfl))
  cases kind with
  | getter | setter => exact (closed_singleton rfl).join (hrest _) hfollows
  | pair | shorthand | method => exact hrest _

theorem Closed.access {s : Symbol} (ht : Closed point ts) (optional : Bool)
    (hs : s = .lbracket ∨ s = .lparen) (h : Closed b (.symbol .joined s :: us)) :
    Closed b (ts ++ ((if optional then [Printed.symbol .joined .questionDot] else []) ++
      .symbol .joined s :: us)) := by
  have hjoins : (TokenBody.symbol s).joins false = true := by
    rcases hs with rfl | rfl <;> rfl
  have hapart : (Printed.symbol .joined .questionDot).Apart (.symbol .joined s) := by
    rintro - - c hc
    refine questionDot_stopsAt ?_
    rcases hs with rfl | rfl <;> cases hc <;> decide
  cases optional with
  | false => exact ht.loosen.append (.inr hjoins) h
  | true =>
    refine ht.loosen.append (.inr rfl) (.cons ?_ (List.cons_ne_nil _ _) h)
    rintro q ⟨⟩
    exact hapart

theorem isWordText_of_plain {name : String} (h : (wordBody name name.toList).Plain) :
    isWordText name = true := by
  by_cases hliteral : isLiteralWord name = true
  · exact isWordText_of_isLiteralWord hliteral
  · rw [wordBody_eq (Bool.eq_false_iff.2 hliteral)] at h
    exact h.1

theorem closed_member (optional : Bool) (name : String) :
    Closed true [.symbol .joined (if optional then .questionDot else .dot), .name .joined name] := by
  refine .cons ?_ (List.cons_ne_nil _ _) (closed_name _ _)
  rintro q ⟨⟩ - hplain c hc
  have hword : isWordText name = true := isWordText_of_plain hplain
  obtain ⟨d, ds, hname, hstart, -⟩ := isWordText_eq_cons hword
  obtain ⟨hdigit, hpoint⟩ : c.isDigit = false ∧ c ≠ '.' := by
    rw [Printed.chars_name, Spacing.chars_joined, List.nil_append, hname] at hc
    cases hc
    refine ⟨Bool.eq_false_iff.2 fun hdigit => ?_, ne_of_isWordStart hstart (by simp [isWordStart_ascii])⟩
    rw [isWordStart_of_isDigit hdigit] at hstart
    cases hstart
  cases optional with
  | false => exact dot_stopsAt hdigit hpoint
  | true => exact questionDot_stopsAt hdigit

end

mutual

theorem Expr.closed (indent : Nat) : (e : Expr) → (lead : Spacing) →
    Closed e.takesPoint (e.printed indent lead)
  | .number .. , _ => by
    rw [Expr.printed]
    exact closed_singleton rfl
  | .string .. , _ | .template .. , _ | .regex .. , _ | .boolean .. , _ | .null _, _
  | .this _, _ => by
    rw [Expr.printed]
    exact closed_singleton rfl
  | .ident .., _ => by
    rw [Expr.printed]
    exact closed_name _ _
  | .array _ items, _ => by
    rw [Expr.printed]
    exact .enclose (by decide) (by decide) rfl (printedItems_closed indent items _) closed_nil
  | .object _ members, _ => by
    rw [Expr.printed]
    exact .enclose (by decide) (by decide) rfl (printedMembers_closed indent members _) closed_nil
  | .function _ name params body, _ => by
    rw [Expr.printed]
    have hrest := Closed.function (printedAll_closed indent params .joined)
      (printedLines_closed (indent + 1) body)
    cases name with
    | none => exact .word (.inr rfl) hrest
    | some name =>
      exact .word (.inl (by simp [Printed.name])) ((closed_name _ _).append (.inr rfl) hrest)
  | .arrow _ params body, _ => by
    rw [Expr.printed]
    exact .enclose (by decide) (by decide) rfl (printedAll_closed indent params _)
      (body.closed indent)
  | .unary _ op operand, lead => by
    rw [Expr.printed]
    exact .cons (apart_unary op operand indent lead) (operand.fenced_ne_nil _ _ _)
      (closed_fenced (operand.closed indent) _ _)
  | .update _ op .before operand, lead => by
    rw [Expr.printed]
    exact .cons (apart_update op operand indent lead) (operand.fenced_ne_nil _ _ _)
      (closed_fenced (operand.closed indent) _ _)
  | .update _ op .behind operand, _ => by
    rw [Expr.printed]
    refine (closed_fenced (operand.closed indent) _ _).append (.inr ?_) (closed_singleton ?_)
    · cases op <;> rfl
    · cases op <;> rfl
  | .binary _ op left right, _ => by
    rw [Expr.printed]
    exact (closed_fenced (left.closed indent) _ _).append (.inl (by simp))
      (.fenced (closed_fenced (right.closed indent) _ _))
  | .assign _ op target value, _ => by
    rw [Expr.printed]
    exact (closed_fenced (target.closed indent) _ _).append (.inl (by simp [Printed.symbol]))
      (.fenced (closed_fenced (value.closed indent) _ _))
  | .conditional _ test whenTrue whenFalse, _ => by
    have hfalse : Closed false (.symbol .spaced .colon ::
        whenFalse.fenced .assignment (whenFalse.printed indent) .spaced) :=
      .fenced (closed_fenced (whenFalse.closed indent) _ _)
    have htrue : Closed false (.symbol .spaced .question ::
        whenTrue.fenced .assignment (whenTrue.printed indent) .spaced) :=
      .fenced (closed_fenced (whenTrue.closed indent) _ _)
    rw [Expr.printed]
    exact (closed_fenced (test.closed indent) _ _).append (.inl (by simp [Printed.symbol]))
      (htrue.append (.inl (by simp [Printed.symbol])) hfalse)
  | .dot _ object optional name _, lead => by
    have hobject : Closed true (if object.isNumber then fence (object.printed indent) lead
        else object.fenced .call (object.printed indent) lead) := by
      split
      · exact closed_fence (object.closed indent _) _
      · rename_i hnumber
        exact closed_fenced_call (Bool.eq_false_iff.2 hnumber) (object.closed indent) _
    rw [Expr.printed]
    refine hobject.append (.inr ?_) (closed_member optional name)
    cases optional <;> rfl
  | .index _ object optional key, _ => by
    rw [Expr.printed]
    exact (closed_fenced (object.closed indent) _ _).access optional (.inl rfl)
      (.enclose (by decide) (by decide) rfl (key.closed indent _) closed_nil)
  | .call _ callee optional arguments, _ => by
    rw [Expr.printed]
    exact (closed_fenced (callee.closed indent) _ _).access optional (.inr rfl)
      (.enclose (by decide) (by decide) rfl (printedAll_closed indent arguments _) closed_nil)
  | .new _ callee arguments, _ => by
    have hcallee := closed_fenced (callee.closed indent) .member .spaced
    rw [Expr.printed]
    exact (Closed.fenced hcallee).append (.inr rfl)
      (.enclose (by decide) (by decide) rfl (printedAll_closed indent arguments _) closed_nil)
  | .sequence _ items, _ => by
    rw [Expr.printed]
    split
    · exact closed_singleton rfl
    · exact printedAll_closed indent items _
  | .spread _ argument, _ => by
    rw [Expr.printed]
    exact .alone (by decide) (closed_fenced (argument.closed indent) _ _)

theorem printedAll_closed (indent : Nat) : (es : List Expr) → (lead : Spacing) →
    Closed false (printedAll indent es lead)
  | [], _ => closed_nil
  | [e], _ => by
    rw [printedAll]
    exact closed_fenced (e.closed indent) _ _
  | e :: next :: rest, _ => by
    rw [printedAll]
    · exact (closed_fenced (e.closed indent) _ _).append (.inr rfl)
        (.alone (by decide) (printedAll_closed indent (next :: rest) _))
    · simp

theorem printedItems_closed (indent : Nat) : (items : List (Option Expr)) → (lead : Spacing) →
    Closed false (printedItems indent items lead)
  | [], _ => closed_nil
  | none :: rest, _ => by
    rw [printedItems]
    exact .alone (by decide) (printedItems_closed indent rest _)
  | [some e], _ => by
    rw [printedItems]
    exact closed_fenced (e.closed indent) _ _
  | some e :: next :: rest, _ => by
    rw [printedItems]
    · exact (closed_fenced (e.closed indent) _ _).append (.inr rfl)
        (.alone (by decide) (printedItems_closed indent (next :: rest) _))
    · simp

theorem printedMembers_closed (indent : Nat) : (members : List Member) → (lead : Spacing) →
    Closed false (printedMembers indent members lead)
  | [], _ => closed_nil
  | [member], _ => by
    rw [printedMembers]
    exact member.closed indent _
  | member :: next :: rest, _ => by
    rw [printedMembers]
    · exact (member.closed indent _).append (.inr rfl)
        (.alone (by decide) (printedMembers_closed indent (next :: rest) _))
    · simp

theorem Member.closed (indent : Nat) : (member : Member) → (lead : Spacing) →
    Closed false (member.printed indent lead)
  | .spread argument, _ => by
    rw [Member.printed]
    exact .alone (by decide) (closed_fenced (argument.closed indent) _ _)
  | .named _ kind key value, lead => by
    have hkey := key.closed indent
    refine Member.layout_cases (P := fun ts _ => Closed false ts) (hkey lead) ?_
      ((hkey lead).append (.inr rfl)
        (.alone (by decide) (closed_fenced (value.closed indent) _ _))) ?_
    · cases value with
      | assign t op target inner =>
        rintro _ _ _ _ ⟨⟩
        exact (hkey lead).append (.inl (by simp [Printed.symbol]))
          (.fenced (closed_fenced (inner.closed indent) _ _))
      | _ => rintro _ _ _ _ ⟨⟩
    · cases value with
      | function t name params body =>
        rintro _ _ _ _ ⟨⟩
        exact Key.closed_announced hkey kind (.function (printedAll_closed indent params .joined)
          (printedLines_closed (indent + 1) body))
      | _ => rintro _ _ _ _ ⟨⟩

theorem Key.closed (indent : Nat) : (key : Key) → (lead : Spacing) →
    Closed false (key.printed indent lead)
  | .ident _, _ => by
    rw [Key.printed]
    exact (closed_name _ _).loosen
  | .string value, _ => by
    rw [Key.printed]
    split
    · exact (closed_name _ _).loosen
    · exact closed_singleton rfl
  | .number _, _ => by
    rw [Key.printed]
    exact closed_singleton rfl
  | .computed key, _ => by
    rw [Key.printed]
    exact .enclose (by decide) (by decide) rfl (closed_fenced (key.closed indent) _ _) closed_nil

theorem ArrowBody.closed (indent : Nat) : (body : ArrowBody) →
    Closed false (.symbol .spaced .arrow :: body.printed indent)
  | .expression value => by
    rw [ArrowBody.printed]
    split
    · exact .blank (by simp [Printed.symbol]) (closed_fence (value.closed indent _) _).loosen
    · exact .fenced (closed_fenced (value.closed indent) _ _)
  | .block body => by
    rw [ArrowBody.printed]
    exact .blank (by simp [Printed.symbol]) (Closed.inBraces (printedLines_closed _ body) _ _).loosen

theorem printedLines_closed (indent : Nat) : (body : List Stmt) →
    Closed false (printedLines indent body)
  | [] => closed_nil
  | s :: rest => by
    rw [printedLines]
    exact (s.closed indent _).join (printedLines_closed indent rest) (printedLines_follows _ _)

theorem Stmt.closed (indent : Nat) : (s : Stmt) → (lead : Spacing) →
    Closed false (s.printed indent lead)
  | .expression _ value, lead => by
    have hvalue : Closed false (if startsStatement (value.render indent) then
        fence (value.printed indent) lead else value.printed indent lead) := by
      split
      · exact (closed_fence (value.closed indent _) _).loosen
      · exact (value.closed indent _).loosen
    rw [Stmt.printed]
    exact hvalue.append (.inr rfl) (.alone (by decide) closed_nil)
  | .declaration _ kind declarators, lead => by
    rw [Stmt.printed]
    exact (@closed_singleton (.keyword lead kind.text) true rfl).join
      ((printedDeclarators_closed indent declarators).append (.inr rfl)
        (.alone (by decide) closed_nil))
      ((printedDeclarators_follows declarators indent).append (follows_cons.2 (.inr rfl)))
  | .function _ name params body, _ => by
    have hrest := Closed.function (printedAll_closed indent params .joined)
      (printedLines_closed (indent + 1) body)
    rw [Stmt.printed]
    exact .word (.inl (by simp [Printed.name])) ((closed_name _ _).append (.inr rfl) hrest.loosen)
  | .returning _ value, lead => by
    rw [Stmt.printed]
    exact (@closed_singleton (.keyword lead "return") true rfl).join
      ((printedOption_closed indent value).append (.inr rfl) (.alone (by decide) closed_nil))
      ((printedOption_follows value indent).append (follows_cons.2 (.inr rfl)))
  | .branch _ test whenTrue whenFalse, _ => by
    rw [Stmt.printed]
    exact .word (.inl (by simp [Printed.symbol]))
      ((closed_fence (test.closed indent _) .spaced).join
        ((whenTrue.closed indent _).join (printedElse_closed indent whenFalse)
          (printedElse_follows whenFalse indent))
        ((whenTrue.printed_follows indent (by simp)).append (printedElse_follows whenFalse indent)))
  | .forLoop _ init test update body, _ => by
    have hbody : Closed false (.symbol .joined .rparen :: body.printed indent .spaced) :=
      .alone (by decide) (body.closed indent _)
    have hupdate := (printedOption_closed indent update).append (.inr rfl) hbody
    have htest := (printedOption_closed indent test).append (.inr rfl)
      (@Closed.alone _ _ .semicolon .joined (by decide) hupdate)
    have hinit := (printedInit_closed indent init).append (.inr rfl)
      (@Closed.alone _ _ .semicolon .joined (by decide) htest)
    rw [Stmt.printed]
    exact .word (.inl (by simp [Printed.symbol])) (.alone (by decide) hinit)
  | .forEach _ left right body of, _ => by
    have hbody : Closed false (.symbol .joined .rparen :: body.printed indent .spaced) :=
      .alone (by decide) (body.closed indent _)
    have hright := (@Closed.printed (.keyword .spaced (if of then "of" else "in")) right indent _
      (right.closed indent .spaced)).loosen.append (.inr rfl) hbody
    rw [Stmt.printed]
    exact .word (.inl (by simp [Printed.symbol]))
      (.alone (by decide) ((left.closed indent).append (.inl (by simp [Printed.keyword])) hright))
  | .whileLoop _ test body, _ => by
    rw [Stmt.printed]
    exact .word (.inl (by simp [Printed.symbol]))
      ((closed_fence (test.closed indent _) .spaced).join (body.closed indent _)
        (body.printed_follows indent (by simp)))
  | .doWhile _ body test, lead => by
    have htest : Closed false (.keyword .spaced "while" ::
        (fence (test.printed indent) .spaced ++ [Printed.symbol .joined .semicolon])) :=
      .word (.inl (by simp [Printed.symbol]))
        ((closed_fence (test.closed indent _) .spaced).append (.inr rfl)
          (.alone (by decide) closed_nil))
    rw [Stmt.printed]
    exact (@closed_singleton (.keyword lead "do") true rfl).join
      ((body.closed indent _).append (.inl (by simp [Printed.keyword])) htest)
      ((body.printed_follows indent (by simp)).append
        (follows_cons.2 (.inl (by simp [Printed.keyword]))))
  | .block _ body, _ => by
    rw [Stmt.printed]
    exact (Closed.inBraces (printedLines_closed _ body) _ _).loosen
  | .breaking _ label, _ => by
    rw [Stmt.printed]
    exact closed_jump "break" label
  | .continuing _ label, _ => by
    rw [Stmt.printed]
    exact closed_jump "continue" label
  | .throwing _ value, _ => by
    rw [Stmt.printed]
    exact (Closed.printed (value.closed indent .spaced)).loosen.append (.inr rfl)
      (.alone (by decide) closed_nil)
  | .trying _ body handler finalizer, _ => by
    have hparts := (printedHandler_closed indent handler).join (printedFinalizer_closed indent finalizer)
      (printedFinalizer_follows finalizer indent)
    rw [Stmt.printed]
    exact .word (.inl (by simp [Printed.symbol]))
      ((Closed.inBraces (printedLines_closed _ body) indent .spaced).join hparts
        ((printedHandler_follows handler indent).append (printedFinalizer_follows finalizer indent)))
  | .switch _ subject cases, _ => by
    have hcases : Closed false (.symbol .spaced .lbrace ::
        (printedCases (indent + 1) cases ++ [Printed.symbol (.line indent) .rbrace])) :=
      .enclose (by decide) (by decide) rfl (printedCases_closed _ cases) closed_nil
    rw [Stmt.printed]
    exact .word (.inl (by simp [Printed.symbol]))
      ((closed_fence (subject.closed indent _) .spaced).append (.inl (by simp [Printed.symbol]))
        hcases)
  | .labeled _ label body, _ => by
    rw [Stmt.printed]
    exact (closed_name _ _).append (.inr rfl) (.alone (by decide) (body.closed indent _))
  | .empty _, _ => by
    rw [Stmt.printed]
    exact .alone (by decide) closed_nil
  | .debugger _, _ => by
    rw [Stmt.printed]
    exact .word (.inr rfl) (.alone (by decide) closed_nil)

theorem printedOption_closed (indent : Nat) : (e : Option Expr) →
    Closed false (printedOption indent e)
  | none => closed_nil
  | some e => by
    rw [printedOption]
    exact (e.closed indent _).loosen

theorem printedElse_closed (indent : Nat) : (s : Option Stmt) →
    Closed false (printedElse indent s)
  | none => closed_nil
  | some s => by
    rw [printedElse]
    exact (@closed_singleton (.keyword .spaced "else") true rfl).join (s.closed indent _)
      (s.printed_follows indent (by simp))

theorem printedDeclarators_closed (indent : Nat) : (declarators : List Declarator) →
    Closed false (printedDeclarators indent declarators)
  | [] => closed_singleton rfl
  | [d] => by
    rw [printedDeclarators]
    exact d.closed indent
  | d :: next :: rest => by
    rw [printedDeclarators]
    · exact (d.closed indent).append (.inr rfl)
        (.alone (by decide) (printedDeclarators_closed indent (next :: rest)))
    · simp

theorem Declarator.closed (indent : Nat) : (d : Declarator) → Closed false (d.printed indent)
  | .mk target none => by
    rw [Declarator.printed]
    exact (target.closed indent _).loosen
  | .mk target (some value) => by
    rw [Declarator.printed]
    exact (target.closed indent _).loosen.append (.inl (by simp [Printed.symbol]))
      (.fenced (closed_fenced (value.closed indent) _ _))

theorem ForInit.closed (indent : Nat) : (init : ForInit) → Closed false (init.printed indent)
  | .declaration kind declarators => by
    rw [ForInit.printed]
    exact (@closed_singleton (.keyword .joined kind.text) true rfl).join
      (printedDeclarators_closed indent declarators) (printedDeclarators_follows declarators indent)
  | .expression value => by
    rw [ForInit.printed]
    exact (value.closed indent _).loosen

theorem printedInit_closed (indent : Nat) : (init : Option ForInit) →
    Closed false (printedInit indent init)
  | none => closed_nil
  | some init => by
    rw [printedInit]
    exact init.closed indent

theorem printedHandler_closed (indent : Nat) : (handler : Option Handler) →
    Closed false (printedHandler indent handler)
  | none => closed_nil
  | some handler => by
    rw [printedHandler]
    exact handler.closed indent

theorem Handler.closed (indent : Nat) : (handler : Handler) →
    Closed false (.keyword .spaced "catch" :: handler.printed indent)
  | .mk none body => by
    rw [Handler.printed]
    exact .word (.inl (by simp [Printed.symbol]))
      (Closed.inBraces (printedLines_closed _ body) _ _).loosen
  | .mk (some param) body => by
    rw [Handler.printed]
    exact .word (.inl (by simp [Printed.symbol]))
      ((closed_fence (param.closed indent _) .spaced).append (.inl (by simp [Printed.symbol]))
        (Closed.inBraces (printedLines_closed _ body) _ _).loosen)

theorem printedFinalizer_closed (indent : Nat) : (finalizer : Option (List Stmt)) →
    Closed false (printedFinalizer indent finalizer)
  | none => closed_nil
  | some body => by
    rw [printedFinalizer]
    exact .word (.inl (by simp [Printed.symbol]))
      (Closed.inBraces (printedLines_closed _ body) _ _).loosen

theorem printedCases_closed (indent : Nat) : (cases : List Case) →
    Closed false (printedCases indent cases)
  | [] => closed_nil
  | c :: rest => by
    rw [printedCases]
    exact (c.closed indent).join (printedCases_closed indent rest) (printedCases_follows indent rest)

theorem Case.closed (indent : Nat) : (c : Case) → Closed false (c.printed indent)
  | .mk none body => by
    rw [Case.printed]
    exact .word (.inr rfl) (.alone (by decide) (printedLines_closed _ body))
  | .mk (some test) body => by
    rw [Case.printed]
    exact (Closed.printed (test.closed indent .spaced)).loosen.append (.inr rfl)
      (.alone (by decide) (printedLines_closed _ body))

end

end WidgetLint.Script
