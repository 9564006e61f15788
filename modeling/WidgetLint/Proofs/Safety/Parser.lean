import WidgetLint.Proofs.Safety.Lexer
import WidgetLint.Script.Parser

/-!
# The parser stays in its tokens

The parser looks ahead by an index into all tokens (`Tokens.ahead?_eq`) and cuts the spelling of an
unexpected token out of its text (`Token.complaint?_eq`); neither leaves the list or the text. Only
the budget stops the parser: the number of levels does not matter once it suffices for the budget
(`level_eq_of_le`).
-/

namespace WidgetLint.Script

open Text

/-! ## Looking ahead -/

/-- All tokens of a text, the one for its end included. -/
def Tokens.all (tokens : Tokens) : List Token :=
  tokens.items ++ [tokens.last]

/-- The token `n` places after the one at an index, by its own index, which stays in the list. -/
def Tokens.ahead? (tokens : Tokens) (index n : Nat) : Option Token := do
  let final ← minus? tokens.all.length 1
  tokens.all[min (index + n) final]?

theorem Tokens.ahead?_eq (tokens : Tokens) (index n : Nat) (prevEnd : Position) :
    tokens.ahead? index n =
      some (Input.ahead ⟨tokens.items.drop index, tokens.last, prevEnd⟩ n) := by
  have hlength : tokens.all.length = tokens.items.length + 1 := List.length_append
  rw [ahead?, hlength, minus?_eq (Nat.le_add_left _ _), Nat.add_sub_cancel, Option.bind_eq_bind,
    Option.bind_some, Input.ahead, List.getElem?_drop]
  by_cases h : index + n < tokens.items.length
  · rw [Nat.min_eq_left (Nat.le_of_lt h), all, List.getElem?_append_left h,
      List.getElem?_eq_getElem h]
    rfl
  · rw [Nat.min_eq_right (Nat.le_of_not_lt h), all, List.getElem?_append_right (Nat.le_refl _),
      List.getElem?_eq_none (Nat.le_of_not_lt h)]
    simp

/-! ## Spellings of tokens -/

/-- The spelling of a token stands in the text between the two ends of its span. -/
def Token.CutFrom (text : List Char) (origin : Position) (t : Token) : Prop :=
  ∃ before behind, text = before ++ t.lexeme.toList ++ behind ∧
    t.span.start = origin.after before ∧ t.span.stop = origin.after (before ++ t.lexeme.toList)

/-- A lexer stands somewhere in a text. -/
def Lexer.StandsIn (text : List Char) (origin : Position) (l : Lexer) : Prop :=
  ∃ before, text = before ++ l.cursor.rest ∧ l.cursor.position = origin.after before

section
variable {text : List Char} {origin : Position} {l after : Lexer} {t : Token}

theorem Lexer.StandsIn.drop (h : l.StandsIn text origin) {m : Lexer} {n : Nat}
    (hm : m.cursor = l.cursor.drop n) : m.StandsIn text origin := by
  obtain ⟨before, htext, hposition⟩ := h
  refine ⟨before ++ l.cursor.rest.take n, ?_, ?_⟩
  · rw [hm, Cursor.drop, List.append_assoc, List.take_append_drop, htext]
  · rw [hm, Cursor.drop, hposition, Position.after_append]

theorem Lexer.readToken_cut (h : l.StandsIn text origin) (hread : l.readToken = (.ok t, after)) :
    t.CutFrom text origin ∧ after.StandsIn text origin := by
  unfold readToken at hread
  split at hread
  · rename_i size _ _
    cases hread
    refine ⟨?_, h.drop rfl⟩
    obtain ⟨before, htext, hposition⟩ := h
    refine ⟨before, l.cursor.rest.drop size, ?_, hposition, ?_⟩
    · rw [String.toList_ofList, List.append_assoc, List.take_append_drop, htext]
    · rw [String.toList_ofList, Position.after_append, ← hposition]
      rfl
  · cases hread

theorem Lexer.next_cut (h : l.StandsIn text origin) (hnext : l.next = (.ok t, after)) :
    t.CutFrom text origin ∧ after.StandsIn text origin := by
  unfold next at hnext
  dsimp only at hnext
  split at hnext
  · exact readToken_cut (h.drop rfl) hnext
  · cases hnext

theorem Lexer.tokensFrom_cut {fuel : Nat} {tokens : Tokens} (h : l.StandsIn text origin)
    (htokens : l.tokensFrom fuel = .ok tokens) : ∀ t ∈ tokens.all, t.CutFrom text origin := by
  induction fuel generalizing l tokens with
  | zero => cases htokens
  | succ fuel ih =>
    rw [tokensFrom] at htokens
    split at htokens
    · cases htokens
    · rename_i hnext
      obtain ⟨hcut, hafter⟩ := next_cut h hnext
      split at htokens
      · cases htokens
        exact List.forall_mem_cons.2 ⟨hcut, by simp⟩
      · split at htokens
        · rename_i hrest
          cases htokens
          exact List.forall_mem_cons.2 ⟨hcut, ih hafter hrest⟩
        · cases htokens

/-- The spelling of a token, cut out of the text. -/
def Token.spelling? (text : List Char) (origin : Position) (t : Token) : Option String := do
  let start ← minus? t.span.start.offset origin.offset
  let stop ← minus? t.span.stop.offset origin.offset
  let part ← slice? text start stop
  return String.ofList part

/-- The complaint about a token, with its spelling cut out of the text. -/
def Token.complaint? (text : List Char) (origin : Position) (t : Token) : Option ScriptError := do
  let cause ← match t.body with
    | .eof => some .unexpectedEnd
    | .word name =>
      if isReserved name then some (.unexpectedKeyword name)
      else (t.spelling? text origin).map .unexpectedToken
    | _ => (t.spelling? text origin).map .unexpectedToken
  return ⟨cause, t.span.start⟩

theorem Token.CutFrom.spelling?_eq (h : t.CutFrom text origin) :
    t.spelling? text origin = some t.lexeme := by
  obtain ⟨before, behind, htext, hstart, hstop⟩ := h
  have hfirst : t.span.start.offset = origin.offset + byteSize before := by
    rw [hstart, Position.offset_after]
  have hlast : t.span.stop.offset =
      origin.offset + (byteSize before + byteSize t.lexeme.toList) := by
    rw [hstop, Position.offset_after, byteSize_append]
  rw [spelling?, hfirst, hlast, minus?_eq (Nat.le_add_right _ _), minus?_eq (Nat.le_add_right _ _),
    Nat.add_sub_cancel_left, Nat.add_sub_cancel_left, htext]
  simp only [Option.bind_eq_bind, Option.bind_some, slice?_append rfl rfl, String.ofList_toList]
  rfl

/-- **The spelling of an unexpected token is cut out of the text.** -/
theorem Token.complaint?_eq {text : String} {tokens : Tokens}
    (h : tokenize text origin = .ok tokens) (ht : t ∈ tokens.all) :
    t.complaint? text.toList origin = some t.complaint := by
  have hcut : t.CutFrom text.toList origin :=
    Lexer.tokensFrom_cut ⟨[], rfl, rfl⟩ h t ht
  unfold complaint? complaint
  rw [hcut.spelling?_eq]
  cases t.body with
  | word name =>
    dsimp only
    split
    · rfl
    · rfl
  | _ => rfl

end

namespace Parser

/-! ## The budget -/

section
variable {α β σ : Type}

theorem bind_eq_ok {p : Parser α} {k : α → Parser β} {i j : Input} {b : β}
    (h : (p >>= k) i = .ok (b, j)) : ∃ a m, p i = .ok (a, m) ∧ k a m = .ok (b, j) := by
  change ((p i).bind fun x => k x.1 x.2) = .ok (b, j) at h
  cases hp : p i with
  | error e =>
    rw [hp] at h
    cases h
  | ok x =>
    rw [hp] at h
    exact ⟨x.1, x.2, rfl, h⟩

end

variable {lower lower' : Nat → Level} {start : Position} {links : List Symbol} {noIn : Bool}
  {least b n : Nat} {e : Expr} {i j : Input} {state : Nat × Expr}

theorem link_eq_ok {α : Type} {next : Nat → Parser α} {a : α}
    (h : link b next i = .ok (a, j)) : linkCost ≤ b ∧ next (b - linkCost) i = .ok (a, j) := by
  unfold link at h
  split at h
  · cases h
  · exact ⟨Nat.le_of_not_lt ‹_›, h⟩

theorem chainStep_spends (h : chainStep lower start links (b, e) i = .ok (.inl state, j)) :
    state.1 + linkCost = b := by
  obtain ⟨t, m, -, h⟩ := bind_eq_ok h
  cases hbody : t.body with
  | symbol s =>
    rw [hbody] at h
    dsimp only at h
    by_cases hs : links.contains s
    · rw [if_pos hs] at h
      obtain ⟨hprice, h⟩ := link_eq_ok h
      obtain ⟨found, k, -, h⟩ := bind_eq_ok h
      cases h
      exact Nat.sub_add_cancel hprice
    · rw [if_neg hs] at h
      cases h
  | _ =>
    rw [hbody] at h
    cases h

theorem binaryStep_spends (h : binaryStep lower noIn least start (b, e) i = .ok (.inl state, j)) :
    state.1 + linkCost = b := by
  obtain ⟨t, m, -, h⟩ := bind_eq_ok h
  cases hop : binaryOp? noIn t with
  | none =>
    rw [hop] at h
    cases h
  | some op =>
    rw [hop] at h
    dsimp only at h
    by_cases hleast : op.precedence ≤ least
    · rw [if_pos hleast] at h
      cases h
    · rw [if_neg hleast] at h
      obtain ⟨hprice, h⟩ := link_eq_ok h
      obtain ⟨_, k, -, h⟩ := bind_eq_ok h
      obtain ⟨right, k', -, h⟩ := bind_eq_ok h
      obtain ⟨s, k'', -, h⟩ := bind_eq_ok h
      cases h
      exact Nat.sub_add_cancel hprice

/-! ## Levels -/

section
variable {α σ : Type}

theorem iterateUpTo_congr {U : σ → Prop} {step step' : σ → Parser (σ ⊕ α)}
    (hsame : ∀ s, U s → step s = step' s)
    (hkeeps : ∀ s i t j, U s → step s i = .ok (.inl t, j) → U t) (fuel : Nat) {s : σ} (hs : U s) :
    iterateUpTo step fuel s = iterateUpTo step' fuel s := by
  induction fuel generalizing s with
  | zero => rfl
  | succ fuel ih =>
    funext i
    show ((step s i).bind fun x => _) = ((step' s i).bind fun x => _)
    rw [← hsame s hs]
    cases hrun : step s i with
    | error error => rfl
    | ok x =>
      obtain ⟨t | a, j⟩ := x
      · exact congrFun (ih (hkeeps s i t j hs hrun)) j
      · rfl

/-- What holds at the start, is kept by every step and passes to the result holds of the result. -/
theorem iterateUpTo_state {U : σ → Prop} {S : α → Prop} {step : σ → Parser (σ ⊕ α)}
    (hstep : ∀ s i x j, U s → step s i = .ok (x, j) → Sum.elim U S x) {fuel : Nat} {s : σ} {a : α}
    {i j : Input} (hs : U s) (h : iterateUpTo step fuel s i = .ok (a, j)) : S a := by
  induction fuel generalizing s i with
  | zero => cases h
  | succ fuel ih =>
    obtain ⟨x, m, hrun, h⟩ := bind_eq_ok h
    have hx := hstep s i x m hs hrun
    cases x with
    | inl t => exact ih hx h
    | inr b =>
      cases h
      exact hx

theorem iterate_congr {U : σ → Prop} {step step' : σ → Parser (σ ⊕ α)}
    (hsame : ∀ s, U s → step s = step' s)
    (hkeeps : ∀ s i t j, U s → step s i = .ok (.inl t, j) → U t) {s : σ} (hs : U s) :
    iterate step s = iterate step' s := by
  funext i
  exact congrFun (iterateUpTo_congr hsame hkeeps _ hs) i

end

theorem bind_congr_of_ok {α β : Type} {p : Parser α} {k l : α → Parser β}
    (h : ∀ i a j, p i = .ok (a, j) → k a = l a) : (p >>= k) = (p >>= l) := by
  funext i
  show ((p i).bind fun x => k x.1 x.2) = ((p i).bind fun x => l x.1 x.2)
  cases hp : p i with
  | error e => rfl
  | ok x => exact congrFun (h i x.1 x.2 hp) x.2

theorem chainStep_ends (h : chainStep lower start links (b, e) i = .ok (.inr state, j)) :
    state = (b, e) := by
  obtain ⟨t, m, -, h⟩ := bind_eq_ok h
  cases hbody : t.body with
  | symbol s =>
    rw [hbody] at h
    dsimp only at h
    by_cases hs : links.contains s
    · rw [if_pos hs] at h
      obtain ⟨-, h⟩ := link_eq_ok h
      obtain ⟨found, k, -, h⟩ := bind_eq_ok h
      cases h
    · rw [if_neg hs] at h
      cases h
      rfl
  | _ =>
    rw [hbody] at h
    cases h
    rfl

theorem chain_le (h : iterate (chainStep lower start links) (b, e) i = .ok (state, j)) :
    state.1 ≤ b := by
  refine iterateUpTo_state (U := fun s => s.1 ≤ b) (S := fun s => s.1 ≤ b) (fun s i x j hs hrun => ?_)
    (Nat.le_refl b) h
  cases x with
  | inl t =>
    have := chainStep_spends hrun
    show t.1 ≤ b
    omega
  | inr t =>
    rw [chainStep_ends hrun]
    exact hs

theorem link_congr {α : Type} {next next' : Nat → Parser α}
    (h : next (b - linkCost) = next' (b - linkCost)) : link b next = link b next' := by
  unfold link
  rw [h]

section
variable {budget : Nat} (hsame : ∀ b ≤ budget, lower b = lower' b)
include hsame

theorem chain_congr (hb : b ≤ budget) :
    iterate (chainStep lower start links) (b, e) =
      iterate (chainStep lower' start links) (b, e) := by
  refine iterate_congr (U := fun s => s.1 ≤ budget) (fun s hs => ?_) (fun s i t j hs hrun => ?_) hb
  · obtain ⟨b, e⟩ := s
    refine bind_congr fun t => ?_
    split
    · split
      · exact link_congr (by rw [hsame _ (Nat.le_trans (Nat.sub_le _ _) hs)])
      · rfl
    · rfl
  · have := chainStep_spends hrun
    omega

theorem newRest_congr (hb : b ≤ budget) : newRest lower b start = newRest lower' b start := by
  unfold newRest
  simp only [chain_congr hsame hb, hsame b hb]
  -- the arguments are read with what the chain left of the budget
  have hrest (callee : Expr) := bind_congr_of_ok
    (p := iterate (chainStep lower' start [.dot, .lbracket]) (b, callee))
    (k := fun x => do
      let arguments ← if ← check .lparen then arguments (lower x.1) else pure []
      return Expr.new (← spanFrom start) x.2 arguments)
    (l := fun x => do
      let arguments ← if ← check .lparen then arguments (lower' x.1) else pure []
      return Expr.new (← spanFrom start) x.2 arguments)
    fun i x j hrun => by rw [hsame x.1 ((chain_le hrun).trans hb)]
  simp only [hrest]

theorem constructionAt_congr (hb : b ≤ budget) :
    constructionAt lower b = constructionAt lower' b := by
  unfold constructionAt
  simp only [newRest_congr hsame hb]

theorem callMember_congr (hb : b ≤ budget) : callMember lower b = callMember lower' b := by
  unfold callMember
  simp only [chain_congr hsame hb, hsame b hb]

theorem unaryAt_congr (hb : b ≤ budget) : unaryAt lower b = unaryAt lower' b := by
  unfold unaryAt postfixed
  simp only [callMember_congr hsame hb, hsame b hb]

theorem binaryAt_congr (hb : b ≤ budget) (noIn : Bool) (least : Nat) :
    binaryAt lower b noIn least = binaryAt lower' b noIn least := by
  unfold binaryAt
  rw [hsame b hb]
  refine bind_congr fun start => bind_congr fun left => ?_
  refine iterate_congr (U := fun s => s.1 ≤ budget) (fun s hs => ?_) (fun s i t j hs hrun => ?_) hb
  · obtain ⟨b, e⟩ := s
    refine bind_congr fun t => ?_
    split
    · rfl
    · split
      · rfl
      · exact link_congr (by rw [hsame _ (Nat.le_trans (Nat.sub_le _ _) hs)])
  · have := binaryStep_spends hrun
    omega

end

/-- **Only the budget stops the parser**: two numbers of levels that suffice for a budget read the
same. -/
theorem level_eq_of_le {m n budget : Nat} (hm : budget / nestCost ≤ m)
    (hn : budget / nestCost ≤ n) : level m budget = level n budget := by
  induction m generalizing n budget with
  | zero =>
    have hlow : budget < nestCost := by
      unfold nestCost at hm ⊢
      omega
    cases n with
    | zero => rfl
    | succ n => rw [level, level, if_pos hlow]
  | succ m ih =>
    by_cases hlow : budget < nestCost
    · cases n with
      | zero => rw [level, level, if_pos hlow]
      | succ n => rw [level, level, if_pos hlow, if_pos hlow]
    · obtain ⟨n, rfl⟩ : ∃ n', n = n' + 1 :=
        ⟨n - 1, by unfold nestCost at hlow hn; omega⟩
      have hsame : ∀ b ≤ budget - nestCost, level m b = level n b := fun b hb =>
        ih (by unfold nestCost at hlow hm hb ⊢; omega) (by unfold nestCost at hlow hn hb ⊢; omega)
      rw [level, level, if_neg hlow, if_neg hlow]
      simp only [hsame _ (Nat.le_refl _), binaryAt_congr hsame (Nat.le_refl _),
        unaryAt_congr hsame (Nat.le_refl _), constructionAt_congr hsame (Nat.le_refl _)]

end Parser

end WidgetLint.Script
