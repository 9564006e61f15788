import WidgetLint.Proofs.Printing.Operands

/-!
# Reading lists and functions back

Lists of arguments, items and parameters are read back if what stands between their commas is, and
functions if their parameters and their bodies are.
-/

namespace WidgetLint.Script

open Text WidgetLint.Script.Parser

variable {e : Expr} {indent d b : Nat} {lead : Spacing} {ts us rest : List Printed}

/-! ## Commas -/

/-- The tokens of things that commas separate. -/
def separated {α : Type} (tokens : α → Spacing → List Printed) : List α → Spacing → List Printed
  | [], _ => []
  | [a], lead => tokens a lead
  | a :: rest, lead => tokens a lead ++ .symbol .joined .comma :: separated tokens rest .spaced

/-- The tokens of an expression that commas separate from others. -/
def Expr.element (indent : Nat) (e : Expr) (lead : Spacing) : List Printed :=
  e.fenced .assignment (e.printed indent) lead

theorem printedAll_eq (indent : Nat) (es : List Expr) (lead : Spacing) :
    printedAll indent es lead = separated (Expr.element indent) es lead := by
  induction es generalizing lead with
  | nil => rfl
  | cons e es ih =>
    cases es with
    | nil => rfl
    | cons next es => rw [printedAll, separated, ih] <;> simp [Expr.element]

section
variable {α β : Type} {tokens : α → Spacing → List Printed} {result : α → β} {item : Parser β}

/-- What follows an item in a list: a comma, or the punctuator that closes the list. -/
def Separates (close : Symbol) (us : List Printed) : Prop :=
  ∃ l s vs, us = .symbol l s :: vs ∧ (s = .comma ∨ s = close)

/-- The items that a reader returns one after the other, with commas between them, up to a closing
punctuator. -/
inductive ListReads (close : Symbol) (item : Parser β) :
    List Printed → List β → List Printed → Prop
  | done {l : Spacing} {us : List Printed} :
    ListReads close item (.symbol l close :: us) [] (.symbol l close :: us)
  | last {l : Spacing} {ts us : List Printed} {b : β} : (ahead ts).isSymbol close = false →
    Gives item ts b (.symbol l close :: us) → us.length + 1 < ts.length →
      ListReads close item ts [b] (.symbol l close :: us)
  | more {l : Spacing} {ts us vs : List Printed} {b : β} {bs : List β} :
    (ahead ts).isSymbol close = false → Gives item ts b (.symbol l .comma :: us) →
      us.length < ts.length → ListReads close item us bs vs → ListReads close item ts (b :: bs) vs

theorem ListReads.gives {close : Symbol} {ts us : List Printed} {bs : List β}
    (hclose : close ≠ .comma) (h : ListReads close item ts bs us) :
    Gives (commaList close item) ts bs us := by
  have hend (l : Spacing) (us : List Printed) :
      (ahead (.symbol l close :: us)).isSymbol close = true := by simp
  refine many_gives ?_
  induction h with
  | done =>
    refine .done ((check_gives close).bind ?_)
    rw [hend, if_pos rfl]
    exact Leads.refl _ _
  | @last l ts us b hopen hread hlength =>
    refine .more (show Gives _ _ _ (.symbol l close :: us) from (check_gives close).bind ?_) hlength
      (.done ((check_gives close).bind ?_))
    · rw [hopen, if_neg Bool.false_ne_true]
      refine hread.bind ((check_gives close).bind ?_)
      rw [hend, if_pos rfl]
      exact Leads.refl _ _
    · rw [hend, if_pos rfl]
      exact Leads.refl _ _
  | more hopen hread hlength _ ih =>
    refine .more ((check_gives close).bind ?_) hlength ih
    rw [hopen, if_neg Bool.false_ne_true]
    refine hread.bind ((check_gives close).bind ?_)
    rw [ahead_cons, token_isSymbol, body_symbol, if_neg (by simpa using hclose.symm)]
    exact (expect_gives _ _).bind (Leads.refl _ _)

theorem commaList_gives {close : Symbol} {l : Spacing} (hclose : close ≠ .comma) (n : Nat)
    (as : List α) (lead : Spacing)
    (hitem : ∀ a ∈ as, ∀ lead us, (tokens a lead ++ us).length ≤ n → Separates close us →
      Gives item (tokens a lead ++ us) (result a) us)
    (hfirst : ∀ a ∈ as, ∀ lead, ∃ t vs, tokens a lead = t :: vs ∧ t.body ≠ .symbol close)
    (hn : (separated tokens as lead ++ .symbol l close :: rest).length ≤ n) :
    Gives (commaList close item) (separated tokens as lead ++ .symbol l close :: rest)
      (as.map result) (.symbol l close :: rest) := by
  refine ListReads.gives hclose ?_
  induction as generalizing lead with
  | nil => exact .done
  | cons a as ih =>
    have hopen (us : List Printed) : (ahead (tokens a lead ++ us)).isSymbol close = false := by
      obtain ⟨t, vs, htokens, ht⟩ := hfirst a (by simp) lead
      rw [htokens, List.cons_append, ahead_cons, token_isSymbol]
      simpa using ht
    have hread (us : List Printed) := hitem a (by simp) lead us
    have hlength : 0 < (tokens a lead).length := by
      obtain ⟨t, vs, htokens, -⟩ := hfirst a (by simp) lead
      simp [htokens]
    cases as with
    | nil =>
      rw [separated] at hn ⊢
      refine .last (hopen _) (hread _ hn ⟨_, _, _, rfl, .inr rfl⟩) ?_
      simp only [List.length_append, List.length_cons]
      omega
    | cons next as =>
      rw [separated, List.append_assoc, List.cons_append] at hn ⊢
      · have hrest : (separated tokens (next :: as) .spaced ++ .symbol l close :: rest).length ≤ n := by
          simp only [List.length_cons, List.length_append] at hn ⊢
          omega
        refine .more (hopen _) (hread _ hn ⟨_, _, _, rfl, .inl rfl⟩) ?_
          (ih .spaced (fun a h => hitem a (by simp [h])) (fun a h => hfirst a (by simp [h])) hrest)
        simp only [List.length_cons, List.length_append]
        omega
      · simp
      · simp

theorem bracketed_gives (opening : Symbol) (l' : Spacing) {close : Symbol} {l : Spacing}
    (hclose : close ≠ .comma) (n : Nat) (as : List α) (lead : Spacing)
    (hitem : ∀ a ∈ as, ∀ lead us, (tokens a lead ++ us).length ≤ n → Separates close us →
      Gives item (tokens a lead ++ us) (result a) us)
    (hfirst : ∀ a ∈ as, ∀ lead, ∃ t vs, tokens a lead = t :: vs ∧ t.body ≠ .symbol close)
    (hn : (separated tokens as lead ++ .symbol l close :: rest).length ≤ n) :
    Gives (bracketed opening close item)
      (.symbol l' opening :: (separated tokens as lead ++ .symbol l close :: rest))
      (as.map result) rest := by
  have hitems := commaList_gives hclose n as lead hitem hfirst hn
  refine (expect_gives _ _).bind (hitems.bind ((expect_gives _ _).bind ?_))
  exact Leads.refl _ _

end

theorem Separates.stops {close : Symbol} {noIn : Bool} (h : Separates close us)
    (hclose : close ∈ closers) : Stops noIn .assignment us := by
  obtain ⟨l, s, vs, rfl, rfl | rfl⟩ := h
  · exact stops_comma
  · exact (stops_close hclose).mono (by decide)

/-! ## Arguments and items -/

/-- The expression, or the items of one, is read back between commas. -/
def Expr.ElementBack (indent : Nat) (e : Expr) : Prop :=
  ∀ lead d b rest, Stops false .assignment rest →
    Gives (spreadOrAssignment (level d b)) (e.element indent lead ++ rest) (e.relabel .plain) rest

theorem element_of_back (hfit : e.FitAt d) (hordinary : e.isOrdinary) (h : e.Back indent) :
    e.ElementBack indent := by
  intro lead d b rest hrest
  have hopens := fenced_opens hfit (Expr.isOrdinary.ne_spread hordinary) .assignment indent lead rest
  have hread := (h.fenced .assignment lead).assignment (Expr.le_profileAt (by decide)) false d b rest
    (fun h => nomatch h) hrest
  exact here_gives.bind ((eat_passes (isSymbol_of_opens hopens rfl)).bind hread)

theorem element_spread {s : Span} {a : Expr} (h : a.Back indent) :
    (Expr.spread s a).ElementBack indent := by
  intro lead d b rest hrest
  have hread := (h.fenced .assignment .joined).assignment (Expr.le_profileAt (by decide)) false d b
    rest (fun h => nomatch h) hrest
  have hsplit : (Expr.spread s a).element indent lead ++ rest =
      .symbol lead .ellipsis :: (a.fenced .assignment (a.printed indent) .joined ++ rest) := by
    rw [Expr.element, Expr.fenced, if_neg (by simp [Expr.strength]), Expr.printed]
    rfl
  rw [hsplit]
  refine here_gives.bind ((eat_gives rfl).bind (hread.bind ((spanFrom_gives _).bind ?_)))
  exact Leads.refl _ _

/-- An element of a list does not begin with a punctuator that ends expressions or with a comma. -/
theorem element_eq_cons (hfit : e.FitAt d) (indent : Nat) (lead : Spacing) :
    ∃ t us, e.element indent lead = t :: us ∧
      ∀ s, (TokenBody.symbol s).opens = false → s ≠ .ellipsis → t.body ≠ .symbol s := by
  rw [Expr.element, Expr.fenced]
  split
  · refine ⟨_, _, rfl, ?_⟩
    rintro s hs - ⟨⟩
    cases hs
  · obtain ⟨tail, htail⟩ := e.printed_eq_cons indent lead
    refine ⟨_, _, htail, fun s hs hellipsis hbody => ?_⟩
    by_cases hspread : ∃ s a, e = .spread s a
    · obtain ⟨s', a, rfl⟩ := hspread
      cases hbody
      exact hellipsis rfl
    · have hopens := e.first_opens hfit fun s a h => hspread ⟨s, a, h⟩
      rw [show e.first = .symbol s from hbody, hs] at hopens
      cases hopens

theorem AllFit.of_mem_all {es : List Expr} (h : AllFit (visitAll d es)) (he : e ∈ es) :
    e.FitAt d := by
  induction es with
  | nil => cases he
  | cons next es ih =>
    rw [visitAll] at h
    obtain ⟨hnext, hes⟩ := allFit_append.1 h
    rcases List.mem_cons.1 he with rfl | he
    · exact hnext
    · exact ih hes he

theorem arguments_back {arguments : List Expr} (hfit : AllFit (visitAll d arguments))
    (h : ∀ e ∈ arguments, e.ElementBack indent) : ArgumentsBack indent arguments := by
  intro d b rest
  rw [printedAll_eq, relabelAll_eq]
  refine bracketed_gives _ _ (by decide) _ arguments .joined ?_ ?_ (Nat.le_refl _)
  · intro e he lead us _ hus
    exact h e he lead d b us (hus.stops (by decide))
  · intro e he lead
    obtain ⟨t, us, htokens, ht⟩ := element_eq_cons (hfit.of_mem_all he) indent lead
    exact ⟨t, us, htokens, ht _ rfl (by decide)⟩

theorem AllFit.of_mem_items {items : List (Option Expr)} (h : AllFit (visitItems d items))
    (he : some e ∈ items) : e.FitAt d := by
  induction items with
  | nil => cases he
  | cons item items ih =>
    rw [visitItems] at h
    obtain ⟨hitem, hitems⟩ := allFit_append.1 h
    rcases List.mem_cons.1 he with rfl | he
    · exact hitem
    · exact ih hitems he

/-- The items of an array are read one after the other; a comma by itself is an item left out. -/
theorem items_read (rest : List Printed) (d b : Nat) {k : Nat} (items : List (Option Expr)) (lead : Spacing)
    (hfit : AllFit (visitItems k items)) (h : ∀ e, some e ∈ items → e.ElementBack indent) :
    ManyReads (do
      if ← check .rbracket then return none
      if ← eat .comma then return some none
      let item ← spreadOrAssignment (level d b)
      unless ← check .rbracket do expect .comma
      return some (some item))
      (printedItems indent items lead ++ .symbol .joined .rbracket :: rest)
      (relabelItems .plain items) (.symbol .joined .rbracket :: rest) := by
  induction items generalizing lead with
  | nil =>
    refine .done ((check_gives _).bind ?_)
    rw [printedItems, List.nil_append, ahead_cons, token_isSymbol, body_symbol, if_pos (by simp)]
    exact Leads.refl _ _
  | cons item items ih =>
    have hrest := ih .spaced (by rw [visitItems] at hfit; exact (allFit_append.1 hfit).2)
      fun e he => h e (by simp [he])
    cases item with
    | none =>
      rw [printedItems, List.cons_append]
      refine .more ((check_gives _).bind ?_) ?_ hrest
      · rw [ahead_cons, token_isSymbol, body_symbol, if_neg (by simp)]
        refine (eat_gives rfl).bind ?_
        exact Leads.refl _ _
      · simp
    | some e =>
      have heFit := hfit.of_mem_items (e := e) (by simp)
      have hread := h e (by simp)
      obtain ⟨t, us, htokens, ht⟩ := element_eq_cons heFit indent lead
      have hbracket (us : List Printed) :
          (ahead (e.element indent lead ++ us)).isSymbol .rbracket = false := by
        rw [htokens, List.cons_append, ahead_cons, token_isSymbol]
        simpa using ht _ rfl (by decide)
      have hcomma (us : List Printed) :
          (ahead (e.element indent lead ++ us)).isSymbol .comma = false := by
        rw [htokens, List.cons_append, ahead_cons, token_isSymbol]
        simpa using ht _ rfl (by decide)
      have hlength : 0 < (e.element indent lead).length := by simp [htokens]
      cases items with
      | nil =>
        have hsplit : printedItems indent [some e] lead = e.element indent lead := by
          simp [printedItems, Expr.element]
        rw [hsplit]
        refine .more (show Gives _ _ _ (.symbol .joined .rbracket :: rest) from
          (check_gives _).bind ?_) ?_ (.done ((check_gives _).bind ?_))
        · rw [hbracket, if_neg Bool.false_ne_true]
          refine (eat_passes (hcomma _)).bind ?_
          rw [if_neg Bool.false_ne_true]
          refine (hread lead d b _ ((stops_close (by decide)).mono (by decide))).bind
            ((check_gives _).bind ?_)
          rw [ahead_cons, token_isSymbol, body_symbol, if_pos (by simp)]
          exact Leads.refl _ _
        · simp only [List.length_append]
          omega
        · rw [ahead_cons, token_isSymbol, body_symbol, if_pos (by simp)]
          exact Leads.refl _ _
      | cons next items =>
        have hsplit : printedItems indent (some e :: next :: items) lead =
            e.element indent lead ++
              .symbol .joined .comma :: printedItems indent (next :: items) .spaced := by
          rw [printedItems]
          · rfl
          · simp
        rw [hsplit, List.append_assoc, List.cons_append]
        refine .more ((check_gives _).bind ?_) ?_ hrest
        · rw [hbracket, if_neg Bool.false_ne_true]
          refine (eat_passes (hcomma _)).bind ?_
          rw [if_neg Bool.false_ne_true]
          refine (hread lead d b _ stops_comma).bind ((check_gives _).bind ?_)
          rw [ahead_cons, token_isSymbol, body_symbol, if_neg (by simp)]
          exact (expect_gives _ _).bind (Leads.refl _ _)
        · simp only [List.length_cons, List.length_append]
          omega

theorem array_gives {s : Span} {items : List (Option Expr)} {k : Nat}
    (hfit : AllFit (visitItems k items)) (h : ∀ e, some e ∈ items → e.ElementBack indent)
    (lead : Spacing) (d b : Nat) (rest : List Printed) :
    Gives (Parser.array (level d b)) ((Expr.array s items).printed indent lead ++ rest)
      ((Expr.array s items).relabel .plain) rest := by
  have hsplit : (Expr.array s items).printed indent lead ++ rest = .symbol lead .lbracket ::
      (printedItems indent items .joined ++ .symbol .joined .rbracket :: rest) := by
    rw [Expr.printed]
    simp
  have hitems := many_gives (items_read rest d b items .joined hfit h)
  rw [hsplit]
  refine here_gives.bind ((expect_gives _ _).bind (hitems.bind ((expect_gives _ _).bind ?_)))
  exact (spanFrom_gives _).bind (Leads.refl _ _)

theorem array_back {s : Span} {items : List (Option Expr)} (hfit : (Expr.array s items).FitAt d)
    (h : ∀ e, some e ∈ items → e.ElementBack indent) : (Expr.array s items).Back indent := by
  have hitems := (allFit_expr.1 hfit).2
  rw [Expr.inside] at hitems
  refine primary_back hfit rfl (by simp [Expr.first]) fun lead d b rest _ => ?_
  refine peek_gives.bind ?_
  obtain ⟨tail, htail⟩ := (Expr.array s items).printed_eq_cons indent lead
  have hread := array_gives (s := s) hitems h lead d b rest
  rw [htail] at hread ⊢
  exact hread

/-! ## Patterns and parameters -/

/-- The pattern is read back, given enough fuel for the objects in it. -/
def Expr.PatternBack (indent : Nat) (e : Expr) : Prop :=
  ∀ lead d b fuel rest, (e.printed indent lead ++ rest).length ≤ fuel →
    Gives (bindingTargetWith (level d b) (objectUpTo (level d b) fuel))
      (e.printed indent lead ++ rest) (e.relabel .plain) rest

/-- A reader reads patterns of up to `n` tokens. -/
def ReadsPatterns (sub : Level) (n : Nat) (target : Parser Expr) : Prop :=
  ∀ ts e us, ts.length ≤ n →
    (∀ fuel, ts.length ≤ fuel → Gives (bindingTargetWith sub (objectUpTo sub fuel)) ts e us) →
      Gives target ts e us

theorem readsPatterns_upTo (sub : Level) (fuel : Nat) :
    ReadsPatterns sub fuel (bindingTargetWith sub (objectUpTo sub fuel)) :=
  fun _ _ _ hlength h => h fuel hlength

theorem object_run (sub : Level) (ts : List Printed) :
    object sub (reading ts) = objectUpTo sub ts.length (reading ts) := by
  have hlength : (reading ts).rest.length = ts.length := by simp [reading, asTokens]
  rw [← hlength]
  rfl

theorem readsPatterns_bindingTarget (sub : Level) (n : Nat) :
    ReadsPatterns sub n (bindingTarget sub) := by
  intro ts e us _ h
  have hrun : bindingTarget sub (reading ts) =
      bindingTargetWith sub (objectUpTo sub ts.length) (reading ts) := by
    rw [bindingTarget, bindingTargetWith, bindingTargetWith]
    dsimp only [bind, StateT.bind, peek, get, getThe, MonadStateOf.get, StateT.get, pure,
      StateT.pure, Except.bind, Except.pure]
    generalize (reading ts).current.body = body
    cases body with
    | symbol s =>
      cases s with
      | lbrace => exact object_run sub ts
      | _ => rfl
    | _ => rfl
  exact Leads.trans (.inl hrun) (h ts.length (Nat.le_refl _))

theorem identifier_gives {name : String} (hreserved : isReserved name = false)
    (hliteral : isLiteralWord name = false) (lead : Spacing) :
    Gives identifier (.name lead name :: rest) (.ident ⟨.first, .first⟩ name) rest := by
  have hname : (Printed.name lead name).token.name? = some name := by
    simp [Token.name?, Token.word?, wordBody_eq hliteral, hreserved]
  refine here_gives.bind (peek_gives.bind ?_)
  rw [ahead_cons, hname]
  exact (advance_gives _).bind ((spanFrom_gives _).bind (Leads.refl _ _))

theorem ident_pattern {s : Span} {name : String} (hfit : (Expr.ident s name).FitAt d)
    (hpattern : (Expr.ident s name).isPattern) : (Expr.ident s name).PatternBack indent := by
  obtain ⟨⟨hshaped, hfaithful⟩, -⟩ := allFit_expr.1 hfit
  have hnew : name ≠ "new" := by simpa [Expr.isPattern] using hpattern
  intro lead d b fuel rest _
  rw [Expr.printed]
  refine peek_gives.bind ?_
  rw [List.singleton_append, ahead_cons, token_body, body_name, wordBody_eq hfaithful]
  exact identifier_gives (hshaped.resolve_right hnew) hfaithful lead

theorem array_pattern {s : Span} {items : List (Option Expr)} (hfit : (Expr.array s items).FitAt d)
    (h : ∀ e, some e ∈ items → e.ElementBack indent) : (Expr.array s items).PatternBack indent := by
  have hitems := (allFit_expr.1 hfit).2
  rw [Expr.inside] at hitems
  intro lead d b fuel rest _
  have hread := array_gives (s := s) hitems h lead d b rest
  refine peek_gives.bind ?_
  obtain ⟨tail, htail⟩ := (Expr.array s items).printed_eq_cons indent lead
  rw [htail] at hread ⊢
  exact hread

/-- The parameter is read back by any reader of patterns. -/
def Expr.ParamBack (indent : Nat) (e : Expr) : Prop :=
  ∀ lead d b n target rest, ReadsPatterns (level d b) n target →
    (e.element indent lead ++ rest).length ≤ n → Stops false .assignment rest →
      Gives (param (level d b) target) (e.element indent lead ++ rest) (e.relabel .plain) rest

theorem strength_of_isPattern (h : e.isPattern) : e.strength = .primary := by
  cases e <;> first | rfl | cases h

theorem element_of_isPattern (h : e.isPattern) (indent : Nat) (lead : Spacing) :
    e.element indent lead = e.printed indent lead := by
  rw [Expr.element, Expr.fenced, if_neg]
  rw [strength_of_isPattern h]
  decide

theorem eq_of_reach {noIn : Bool} {t : Token} (h : reach noIn t < .assignment) :
    t.isSymbol .eq = false := by
  refine Bool.eq_false_iff.2 fun hnot => ?_
  have hbody : t.body = .symbol .eq := by simpa [Token.isSymbol] using hnot
  have hop := assignOp?_of_reach h
  simp [assignOp?, hbody, AssignOp.ofSymbol?] at hop

theorem ellipsis_of_isPattern (h : e.isPattern) (indent : Nat) (lead : Spacing) (us : List Printed) :
    (ahead (e.printed indent lead ++ us)).isSymbol .ellipsis = false := by
  obtain ⟨tail, htail⟩ := e.printed_eq_cons indent lead
  rw [htail, List.cons_append, ahead_cons, token_isSymbol]
  have hfirst : e.first ≠ .symbol .ellipsis := by
    cases e with
    | ident s name => exact wordBody_ne_symbol _ _ _
    | array | object => simp [Expr.first]
    | _ => cases h
  simpa using hfirst

theorem param_of_pattern (hpattern : e.isPattern) (h : e.PatternBack indent) :
    e.ParamBack indent := by
  intro lead d b n target rest htarget hlength hrest
  rw [element_of_isPattern hpattern] at hlength ⊢
  have hread := htarget _ _ _ hlength fun fuel hfuel => h lead d b fuel rest hfuel
  refine here_gives.bind ((eat_passes (ellipsis_of_isPattern hpattern _ _ _)).bind ?_)
  rw [if_neg Bool.false_ne_true]
  refine here_gives.bind (hread.bind ((eat_passes (eq_of_reach hrest.1)).bind ?_))
  exact Leads.refl _ _

theorem param_spread {s : Span} {a : Expr} (hpattern : a.isPattern) (h : a.PatternBack indent) :
    (Expr.spread s a).ParamBack indent := by
  intro lead d b n target rest htarget hlength hrest
  have hsplit : (Expr.spread s a).element indent lead ++ rest =
      .symbol lead .ellipsis :: (a.printed indent .joined ++ rest) := by
    rw [Expr.element, Expr.fenced, if_neg (by simp [Expr.strength]), Expr.printed,
      ← Expr.element, element_of_isPattern hpattern]
    rfl
  rw [hsplit] at hlength ⊢
  have hread := htarget _ _ _ (by simp at hlength ⊢; omega) fun fuel hfuel =>
    h .joined d b fuel rest hfuel
  refine here_gives.bind ((eat_gives rfl).bind (hread.bind ((spanFrom_gives _).bind ?_)))
  exact Leads.refl _ _

theorem param_default {s : Span} {target value : Expr} (hpattern : target.isPattern)
    (htarget : target.PatternBack indent) (hvalue : value.Back indent) :
    (Expr.assign s .assign target value).ParamBack indent := by
  intro lead d b n reader rest hreader hlength hrest
  have hsplit : (Expr.assign s .assign target value).element indent lead ++ rest =
      target.printed indent lead ++ .symbol .spaced .eq ::
        (value.fenced .assignment (value.printed indent) .spaced ++ rest) := by
    have hfenced : target.fenced .call (target.printed indent) lead = target.printed indent lead := by
      rw [Expr.fenced, if_neg]
      rw [strength_of_isPattern hpattern]
      decide
    rw [Expr.element, Expr.fenced, if_neg (by simp [Expr.strength]), Expr.printed, hfenced]
    simp [AssignOp.symbol]
  rw [hsplit] at hlength ⊢
  have hread := hreader _ _ _ hlength fun fuel hfuel => htarget lead d b fuel _ hfuel
  have hdefault := (hvalue.fenced .assignment .spaced).assignment (Expr.le_profileAt (by decide))
    false d b rest (by simp) hrest
  refine here_gives.bind ((eat_passes (ellipsis_of_isPattern hpattern _ _ _)).bind ?_)
  rw [if_neg Bool.false_ne_true]
  refine here_gives.bind (hread.bind ((eat_gives rfl).bind (hdefault.bind ?_)))
  exact (spanFrom_gives _).bind (Leads.refl _ _)

theorem paramsWith_gives {params : List Expr} {k n : Nat} {target : Parser Expr}
    (hfit : AllFit (visitAll k params)) (h : ∀ p ∈ params, p.ParamBack indent)
    (htarget : ReadsPatterns (level d b) n target) (lead : Spacing) (rest : List Printed)
    (hn : (printedAll indent params .joined ++ .symbol .joined .rparen :: rest).length ≤ n) :
    Gives (paramsWith (level d b) target)
      (.symbol lead .lparen :: (printedAll indent params .joined ++ .symbol .joined .rparen :: rest))
      (relabelAll .plain params) rest := by
  rw [printedAll_eq] at hn ⊢
  rw [relabelAll_eq]
  refine bracketed_gives _ _ (by decide) n params .joined ?_ ?_ hn
  · intro p hp lead us hlength hus
    exact h p hp lead d b n target us htarget hlength (hus.stops (by decide))
  · intro p hp lead
    obtain ⟨t, us, htokens, ht⟩ := element_eq_cons (hfit.of_mem_all hp) indent lead
    exact ⟨t, us, htokens, ht _ rfl (by decide)⟩

theorem params_gives {params : List Expr} {k : Nat} (hfit : AllFit (visitAll k params))
    (h : ∀ p ∈ params, p.ParamBack indent) (lead : Spacing) (d b : Nat) (rest : List Printed) :
    Gives (Parser.params (level d b))
      (.symbol lead .lparen :: (printedAll indent params .joined ++ .symbol .joined .rparen :: rest))
      (relabelAll .plain params) rest :=
  paramsWith_gives hfit h (readsPatterns_bindingTarget _ _) lead rest (Nat.le_refl _)

/-! ## Functions -/

/-- The statements between braces are read back. -/
def BlockBack (indent : Nat) (body : List Stmt) : Prop :=
  ∀ lead d b rest, Gives (block (level d b))
    (inBraces indent body (printedLines (indent + 1) body) lead ++ rest) (relabelBody .plain body)
    rest

section
variable {params : List Expr} {body : List Stmt} {k : Nat}

theorem functionRest_gives (hfit : AllFit (visitAll k params))
    (hparams : ∀ p ∈ params, p.ParamBack indent) (hbody : BlockBack indent body) (d b : Nat)
    (rest : List Printed) :
    Gives (functionRest (level d b)) (printedFunction indent params body ++ rest)
      (relabelAll .plain params, relabelBody .plain body) rest := by
  rw [printedFunction_append]
  exact (params_gives hfit hparams .joined d b _).bind ((hbody .spaced d b rest).bind (Leads.refl _ _))

theorem methodValue_gives {target : Parser Expr} {n : Nat} {s : Span}
    (hfit : AllFit (visitAll k params)) (hparams : ∀ p ∈ params, p.ParamBack indent)
    (hbody : BlockBack indent body) (htarget : ReadsPatterns (level d b) n target)
    (rest : List Printed) (hn : (printedFunction indent params body ++ rest).length ≤ n) :
    Gives (methodValue (level d b) target) (printedFunction indent params body ++ rest)
      ((Expr.function s none params body).relabel .plain) rest := by
  rw [printedFunction_append] at hn ⊢
  have hread := paramsWith_gives hfit hparams htarget .joined
    (inBraces indent body (printedLines (indent + 1) body) .spaced ++ rest)
    (by rw [List.length_cons] at hn; omega)
  refine here_gives.bind (hread.bind ((hbody .spaced d b rest).bind ((spanFrom_gives _).bind ?_)))
  exact Leads.refl _ _

theorem functionName?_gives {name : Option String} (hreserved : ∀ n, name = some n → isReserved n = false)
    (hliteral : ∀ n, name = some n → isLiteralWord n = false) (us : List Printed) :
    Gives functionName? ((name.map (.name .spaced)).toList ++ .symbol .joined .lparen :: us) name
      (.symbol .joined .lparen :: us) := by
  cases name with
  | none =>
    refine peek_gives.bind ?_
    exact Leads.refl _ _
  | some name =>
    have hword : (Printed.name .spaced name).token.isAnyWord = true := by
      simp [Token.isAnyWord, Token.word?, wordBody_eq (hliteral name rfl)]
    have hname : (Printed.name .spaced name).token.name? = some name := by
      simp [Token.name?, Token.word?, wordBody_eq (hliteral name rfl), hreserved name rfl]
    refine peek_gives.bind ?_
    rw [Option.map_some, Option.toList_some, List.singleton_append, ahead_cons, hword, if_pos rfl]
    refine peek_gives.bind ?_
    rw [ahead_cons, hname]
    exact (advance_gives _).bind (Leads.refl _ _)

theorem function_back {s : Span} {name : Option String}
    (hfit : (Expr.function s name params body).FitAt d)
    (hparams : ∀ p ∈ params, p.ParamBack indent) (hbody : BlockBack indent body) :
    (Expr.function s name params body).Back indent := by
  obtain ⟨⟨hshaped, hfaithful⟩, hinside⟩ := allFit_expr.1 hfit
  rw [Expr.inside] at hinside
  refine primary_back hfit rfl (by simp [Expr.first]) fun lead d b rest _ => ?_
  have hsplit : (Expr.function s name params body).printed indent lead ++ rest =
      .keyword lead "function" :: ((name.map (.name .spaced)).toList ++
        (printedFunction indent params body ++ rest)) := by
    rw [Expr.printed, printedFunction]
    simp
  rw [hsplit]
  have hstar : (ahead ((name.map (.name .spaced)).toList ++
      (printedFunction indent params body ++ rest))).isSymbol .star = false := by
    cases name with
    | none => rfl
    | some name => simp [wordBody_ne_symbol]
  have hname := functionName?_gives hshaped.1 hfaithful
    (printedAll indent params .joined ++ .symbol .joined .rparen ::
      (inBraces indent body (printedLines (indent + 1) body) .spaced ++ rest))
  rw [← printedFunction_append] at hname
  have hread := functionRest_gives (allFit_append.1 hinside).1 hparams hbody d b rest
  refine peek_gives.bind (here_gives.bind ((advance_gives _).bind ?_))
  refine (eat_passes hstar).bind (hname.bind (hread.bind ((spanFrom_gives _).bind ?_)))
  exact Leads.refl _ _

/-! ## Arrow functions -/

/-- The body of an arrow function is read back. -/
def ArrowBody.Back (indent : Nat) : ArrowBody → Prop
  | .expression value => value.Back indent
  | .block body => BlockBack indent body

theorem arrowAhead_arrow {ts : List Printed} (hbalanced : Balanced ts) (l l' : Spacing)
    (us : List Printed) :
    arrowAhead (asTokens (.symbol l .lparen ::
      (ts ++ .symbol l' .rparen :: .symbol .spaced .arrow :: us))) = true := by
  have hclose : afterClose 0 (asTokens (.symbol l .lparen ::
      (ts ++ .symbol l' .rparen :: .symbol .spaced .arrow :: us))) =
        some (asTokens (.symbol .spaced .arrow :: us)) := by
    have hopen : afterClose 0 (asTokens (.symbol l .lparen ::
        (ts ++ .symbol l' .rparen :: .symbol .spaced .arrow :: us))) =
          afterClose 1 (asTokens ts ++
            asTokens (.symbol l' .rparen :: .symbol .spaced .arrow :: us)) := by
      rw [asTokens_cons, asTokens_append, afterClose]
      rfl
    rw [hopen, hbalanced]
    rfl
  unfold arrowAhead
  rw [hclose]
  rfl

theorem arrow_back {s : Span} {body : ArrowBody} (hfit : (Expr.arrow s params body).FitAt d)
    (hparams : ∀ p ∈ params, p.ParamBack indent) (hbody : body.Back indent) :
    (Expr.arrow s params body).Back indent := by
  obtain ⟨⟨hshaped, hfaithful⟩, hinside⟩ := allFit_expr.1 hfit
  rw [Expr.inside] at hinside
  intro lead
  refine .ofAssignment ?_ (by simp [Expr.profile, Expr.strength]; decide)
  intro noIn d b rest hin hrest
  have hsplit : (Expr.arrow s params body).printed indent lead ++ rest =
      .symbol lead .lparen :: (printedAll indent params .joined ++
        .symbol .joined .rparen :: .symbol .spaced .arrow :: (body.printed indent ++ rest)) := by
    rw [Expr.printed]
    simp
  rw [hsplit]
  refine assignment_leads (fun d b => get_leads (here_gives.bind ?_)) d b
  have hasync : asyncArrowAhead (reading (.symbol lead .lparen :: (printedAll indent params .joined ++
      .symbol .joined .rparen :: .symbol .spaced .arrow :: (body.printed indent ++ rest)))) = false :=
    asyncArrowAhead_cons fun h => by cases h
  have harrow := arrowAhead_arrow (printedAll_balanced indent params .joined) lead .joined
    (body.printed indent ++ rest)
  rw [hasync, if_neg Bool.false_ne_true]
  simp only [reading, harrow, if_true]
  have hread := params_gives (allFit_append.1 hinside).1 hparams lead d b
    (.symbol .spaced .arrow :: (body.printed indent ++ rest))
  refine peek_gives.bind (hread.bind ((expect_gives _ _).bind ((check_gives _).bind ?_)))
  cases body with
  | block body =>
    have hbrace : (ahead ((ArrowBody.block body).printed indent ++ rest)).isSymbol .lbrace = true :=
      rfl
    rw [hbrace, if_pos rfl]
    refine (hbody .spaced d b rest).bind ((Gives.pure _ _).bind ((spanFrom_gives _).bind ?_))
    exact Leads.refl _ _
  | expression value =>
    have hvalueFit := (allFit_append.1 hinside).2
    have hordinary := hshaped.2 value rfl
    have hbrace : (ahead ((ArrowBody.expression value).printed indent ++ rest)).isSymbol .lbrace =
        false := by
      rw [ArrowBody.printed]
      split
      · rfl
      · rw [Expr.fenced]
        split
        next => rfl
        next hobject hle =>
          obtain ⟨tail, htail⟩ := value.printed_eq_cons indent .spaced
          rw [htail, List.cons_append, ahead_cons, token_isSymbol]
          have hfirst : value.first ≠ .symbol .lbrace :=
            (hfaithful.resolve_left hobject).resolve_left hle
          simpa using hfirst
    have hvalue : Gives ((level d b).assignment noIn)
        ((ArrowBody.expression value).printed indent ++ rest) (value.relabel .plain) rest := by
      rw [ArrowBody.printed]
      split
      next =>
        exact (Reads.fence (hbody .joined).sequence (value.balanced _ _) .spaced).assignment
          (by decide) noIn d b rest (fun _ => rfl) hrest
      next hobject =>
        refine (hbody.fenced .assignment .spaced).assignment (Expr.le_profileAt (by decide)) noIn d b
          rest (fun h => ?_) hrest
        have hhides := hin h
        simp only [Expr.profile, Expr.hidesIn, hobject, Bool.false_or, Bool.or_eq_true,
          decide_eq_true_eq] at hhides
        exact Expr.profileAt_hidesIn hhides
    rw [hbrace, if_neg Bool.false_ne_true]
    refine hvalue.bind ((Gives.pure _ _).bind ((spanFrom_gives _).bind ?_))
    exact Leads.refl _ _

end

end WidgetLint.Script
