import WidgetLint.Proofs.Printing.Front
import WidgetLint.Proofs.Script.Relabel

/-!
# Reading expressions level by level

The grammar reads an expression through a tower of levels, from comma expressions down to chains of
accesses. What an expression with a given strength is read as at each level is collected in `Reads`;
a level that the expression does not use hands on what the level below it reads, as long as no token
follows that it would go on with (`reach`).
-/

namespace WidgetLint.Script

open Text

/-- The relabelling that forgets all positions and reads a key that is a word as a name. -/
def Relabeling.plain : Relabeling :=
  ⟨fun _ => .first, fun value => if isWordText value then .ident value else .string value⟩

namespace Parser

variable {ts us rest : List Printed} {e : Expr} {noIn : Bool} {d b least : Nat}

/-! ## What goes on with an expression -/

/-- The punctuators of accesses and calls. -/
def allLinks : List Symbol :=
  [.dot, .questionDot, .lbracket, .lparen]

/-- The strength of the loosest expressions that a punctuator cannot go on with. -/
def Symbol.reach (breaks : Bool) (s : Symbol) : Strength :=
  if allLinks.contains s then .call
  else if (UpdateOp.ofSymbol? s).isSome && !breaks then .postfixed
  else match BinaryOp.ofSymbol? s with
    | some op => op.strength
    | none =>
      if s = .question then .conditional
      else if (AssignOp.ofSymbol? s).isSome || s = .arrow then .assignment
      else if s = .comma then .sequence
      else .any

/-- The strength of the expression that a token makes of the operand before it; zero if it does not
go on with an operand. The word `function` goes on with the name `async`. -/
def reach (noIn : Bool) (t : Token) : Strength :=
  match t.body with
  | .symbol s => Symbol.reach t.newlineBefore s
  | .word name =>
    if name = "function" then .primary
    else ((BinaryOp.ofWord? noIn name).map BinaryOp.strength).getD .any
  | _ => .any

theorem function_of_reach {t : Token} (h : reach noIn t < .primary) :
    t.isWord "function" = false := by
  refine Bool.eq_false_iff.2 fun hnot => ?_
  have hbody : t.body = .word "function" := by simpa [Token.isWord] using hnot
  simp only [reach, hbody, if_true] at h
  exact absurd h (by decide)

theorem links_of_reach {t : Token} {s : Symbol} (h : reach noIn t < .call) (ht : t.body = .symbol s) :
    allLinks.contains s = false := by
  simp only [reach, ht, Symbol.reach] at h
  split at h
  next => exact absurd h (by decide)
  next hnot => exact Bool.eq_false_iff.2 hnot

theorem updateOp?_of_reach {t : Token} (h : reach noIn t < .postfixed) :
    updateOp? t = none ∨ t.newlineBefore = true := by
  cases hbody : t.body with
  | symbol s =>
    simp only [reach, hbody, Symbol.reach] at h
    split at h
    · exact absurd h (by decide)
    · split at h
      · exact absurd h (by decide)
      · rename_i hnot
        cases hop : UpdateOp.ofSymbol? s with
        | none => exact .inl (by simp [updateOp?, hbody, hop])
        | some op => exact .inr (by simpa [hop] using hnot)
  | _ => exact .inl (by simp [updateOp?, hbody])

theorem binaryOp?_of_reach {t : Token} (h : reach noIn t < Strength.binaryBase + least + 1)
    {op : BinaryOp} (hop : binaryOp? noIn t = some op) : op.precedence ≤ least := by
  cases hbody : t.body with
  | symbol s =>
    have hs : BinaryOp.ofSymbol? s = some op := by simpa [binaryOp?, hbody] using hop
    simp only [reach, hbody, Symbol.reach] at h
    have hlink : allLinks.contains s = false := by
      cases s <;> first | rfl | cases hs
    have hupdate : UpdateOp.ofSymbol? s = none := by
      cases s <;> first | rfl | cases hs
    simp only [hlink, hupdate, hs, Bool.false_eq_true, if_false, Option.isSome_none,
      Bool.false_and] at h
    have hless : 3 + op.precedence < 3 + least + 1 := h
    omega
  | word name =>
    have hname : BinaryOp.ofWord? noIn name = some op := by simpa [binaryOp?, hbody] using hop
    have hfunction : name ≠ "function" := by
      rintro rfl
      exact absurd hname (by simp [BinaryOp.ofWord?])
    simp only [reach, hbody, hname, if_neg hfunction, Option.map_some, Option.getD_some] at h
    have hless : 3 + op.precedence < 3 + least + 1 := h
    omega
  | _ => simp [binaryOp?, hbody] at hop

theorem question_of_reach {t : Token} (h : reach noIn t < .conditional) :
    t.isSymbol .question = false := by
  refine Bool.eq_false_iff.2 fun hnot => ?_
  have hbody : t.body = .symbol .question := by simpa [Token.isSymbol] using hnot
  simp only [reach, hbody] at h
  exact absurd h (by simp [Symbol.reach, allLinks, UpdateOp.ofSymbol?, BinaryOp.ofSymbol?])

theorem assignOp?_of_reach {t : Token} (h : reach noIn t < .assignment) : assignOp? t = none := by
  cases hbody : t.body with
  | symbol s =>
    simp only [reach, hbody] at h
    revert h
    cases s <;> simp [assignOp?, hbody, AssignOp.ofSymbol?, Symbol.reach, allLinks,
      UpdateOp.ofSymbol?, BinaryOp.ofSymbol?]
  | _ => simp [assignOp?, hbody]

theorem noArrow_of_reach (h : reach noIn (ahead ts) < .assignment) : NoArrow ts := by
  refine Bool.eq_false_iff.2 fun hnot => ?_
  have hbody : (ahead ts).body = .symbol .arrow := by simpa [Token.isSymbol] using hnot
  simp only [reach, hbody] at h
  exact absurd h (by simp [Symbol.reach, allLinks, UpdateOp.ofSymbol?, BinaryOp.ofSymbol?])

theorem comma_of_reach {t : Token} (h : reach noIn t < .sequence) : t.isSymbol .comma = false := by
  refine Bool.eq_false_iff.2 fun hnot => ?_
  have hbody : t.body = .symbol .comma := by simpa [Token.isSymbol] using hnot
  simp only [reach, hbody] at h
  exact absurd h (by
    simp [Symbol.reach, allLinks, UpdateOp.ofSymbol?, BinaryOp.ofSymbol?, AssignOp.ofSymbol?])

/-! ## Levels -/

/-- What reading an expression at the levels of the grammar depends on. -/
structure Profile where
  strength : Strength
  /-- No operator `in` stands outside of brackets. -/
  hidesIn : Bool
  /-- A binary operator that makes an expression of this strength goes on with the last operand. -/
  bound : Strength
  /-- The expression is a chain of accesses by the given punctuators. -/
  chains : List Symbol → Bool

/-- An operand, or the word `new` and what follows it, is read. -/
def Heads (sub : Level) (ts : List Printed) (e : Expr) (us : List Printed) : Prop :=
  (ahead ts).isWord "new" = true ∧ Gives sub.construction ts e us ∨
    (ahead ts).isWord "new" = false ∧ Gives (primary sub) ts e us

theorem Heads.leads {α : Type} {sub : Level} {k : Expr → Parser α} {q : Parser α}
    (h : Heads sub ts e us) (hk : Leads (k e) us q rest) :
    Leads (do if ← checkWord "new" then sub.construction >>= k else primary sub >>= k) ts q
      rest := by
  refine (checkWord_gives "new").bind ?_
  rcases h with ⟨hnew, h⟩ | ⟨hnew, h⟩
  · rw [if_pos hnew]
    exact h.bind hk
  · rw [if_neg (by simp [hnew])]
    exact h.bind hk

/-- The chain of accesses is read, and reading may go on with further links. -/
def ReadsChain (p : Profile) (ts : List Printed) (e : Expr) : Prop :=
  ∀ links, p.chains links → ∀ noIn d b rest, reach noIn (ahead rest) < .primary →
    ∃ first mid b' fuel,
      Heads (level d b) (ts ++ rest) first mid ∧ rest.length < fuel ∧
        Leads (iterateUpTo (chainStep (level d) .first links) (mid.length + 1) (b, first)) mid
          (iterateUpTo (chainStep (level d) .first links) fuel (b', e)) rest

def ReadsUnary (ts : List Printed) (e : Expr) : Prop :=
  ∀ noIn d b rest, reach noIn (ahead rest) < .postfixed →
    Gives (level d b).unary (ts ++ rest) e rest

def ReadsBinary (p : Profile) (ts : List Printed) (e : Expr) : Prop :=
  ∀ (noIn : Bool) least d b rest, (noIn → p.hidesIn) → Strength.binaryBase + least < p.strength →
    reach noIn (ahead rest) < p.bound → ∃ b' fuel, rest.length < fuel ∧
      Leads (binaryAt (level d) b noIn least) (ts ++ rest)
        (iterateUpTo (binaryStep (level d) noIn least .first) fuel (b', e)) rest

def ReadsConditional (p : Profile) (ts : List Printed) (e : Expr) : Prop :=
  ∀ (noIn : Bool) d b rest, (noIn → p.hidesIn) → reach noIn (ahead rest) < .conditional →
    Gives (conditional (level d b) noIn) (ts ++ rest) e rest

/-- No token comes next that goes on with an expression of at least the given strength. -/
def Stops (noIn : Bool) (strength : Strength) (rest : List Printed) : Prop :=
  reach noIn (ahead rest) < strength ∧ arrowAhead (asTokens rest) = false

def ReadsAssignment (p : Profile) (ts : List Printed) (e : Expr) : Prop :=
  ∀ (noIn : Bool) d b rest, (noIn → p.hidesIn) → Stops noIn .assignment rest →
    Gives ((level d b).assignment noIn) (ts ++ rest) e rest

def ReadsSequence (p : Profile) (ts : List Printed) (e : Expr) : Prop :=
  ∀ (noIn : Bool) d b rest, (noIn → p.hidesIn) → Stops noIn .sequence rest →
    Gives (sequence (level d b) noIn) (ts ++ rest) e rest

/-- The expression is read at every level that its strength allows. -/
structure Reads (p : Profile) (ts : List Printed) (e : Expr) : Prop where
  chain : Strength.call ≤ p.strength → ReadsChain p ts e
  unary : Strength.unary ≤ p.strength → ReadsUnary ts e
  binary : Strength.conditional < p.strength → ReadsBinary p ts e
  conditional : Strength.conditional < p.strength → ReadsConditional p ts e
  assignment : Strength.assignment ≤ p.strength → ReadsAssignment p ts e
  sequence : ReadsSequence p ts e

/-! ## From level to level -/

section
variable {p : Profile}

theorem chainStep_stops {links : List Symbol} (hlinks : ∀ s ∈ links, s ∈ allLinks)
    (hreach : reach noIn (ahead rest) < .call) (start : Position) (b : Nat) (e : Expr) :
    Gives (chainStep (level d) start links (b, e)) rest (.inr (b, e)) rest := by
  refine peek_gives.bind ?_
  split
  next s hbody =>
    have hall := links_of_reach hreach hbody
    have hnot : links.contains s = false := by
      refine Bool.eq_false_iff.2 fun h => ?_
      have hmem := hlinks s (by simpa using h)
      rw [List.contains_iff_mem.2 hmem] at hall
      cases hall
    rw [hnot]
    exact Leads.refl _ _
  next => exact Leads.refl _ _

theorem ReadsChain.callMember (h : ReadsChain p ts e) (hall : p.chains allLinks)
    (hreach : reach noIn (ahead rest) < .call) (d b : Nat) :
    Gives (callMember (level d) b) (ts ++ rest) e rest := by
  obtain ⟨first, mid, b', fuel, hhead, hfuel, hchain⟩ :=
    h allLinks hall noIn d b rest (Nat.lt_trans hreach (by decide))
  refine here_gives.bind (hhead.leads ?_)
  refine Leads.bind (iterate_leads hchain) ?_
  refine Gives.bind (iterateUpTo_ends hfuel (chainStep_stops (fun _ h => h) hreach _ _ _)) ?_
  exact Leads.refl _ _

theorem ReadsChain.postfixed (h : ReadsChain p ts e) (hall : p.chains allLinks)
    (hreach : reach noIn (ahead rest) < .postfixed) (d b : Nat) :
    Gives (postfixed (level d) b) (ts ++ rest) e rest := by
  have hcall : reach noIn (ahead rest) < .call := Nat.lt_trans hreach (by decide)
  refine here_gives.bind ((h.callMember hall hcall d b).bind (peek_gives.bind ?_))
  rcases updateOp?_of_reach hreach with hop | hline
  · rw [hop]
    exact Leads.refl _ _
  · rw [hline]
    split
    next hfalse => cases hfalse
    next => exact Leads.refl _ _

/-- The token begins no operand with an operator before it. -/
def NoOperator (t : Token) : Prop :=
  unaryOp? t = none ∧ updateOp? t = none

theorem ReadsChain.unary (h : ReadsChain p ts e) (hall : p.chains allLinks)
    (hfirst : ∀ rest, NoOperator (ahead (ts ++ rest))) : ReadsUnary ts e := by
  intro noIn d b rest hreach
  refine unary_leads (fun d b => ?_) d b
  refine here_gives.bind (peek_gives.bind ?_)
  rw [(hfirst rest).1, (hfirst rest).2]
  exact h.postfixed hall hreach d b

theorem ReadsUnary.binary (h : ReadsUnary ts e) (hbound : p.bound = .postfixed) :
    ReadsBinary p ts e := by
  intro noIn least d b rest _ _ hreach
  rw [hbound] at hreach
  refine ⟨b, rest.length + 1, Nat.lt_succ_self _, ?_⟩
  exact here_gives.bind ((h noIn d b rest hreach).bind (iterate_leads (Leads.refl _ _)))

theorem binaryStep_stops (hreach : reach noIn (ahead rest) < Strength.binaryBase + least + 1)
    (start : Position) (b : Nat) (e : Expr) :
    Gives (binaryStep (level d) noIn least start (b, e)) rest (.inr e) rest := by
  refine peek_gives.bind ?_
  split
  next => exact Leads.refl _ _
  next op hop =>
    rw [if_pos (binaryOp?_of_reach hreach hop)]
    exact Leads.refl _ _

theorem ReadsBinary.gives (h : ReadsBinary p ts e) (noIn : Bool) (least d b : Nat)
    (rest : List Printed) (hin : noIn → p.hidesIn)
    (hstrength : Strength.binaryBase + least < p.strength)
    (hbound : reach noIn (ahead rest) < p.bound)
    (hreach : reach noIn (ahead rest) < Strength.binaryBase + least + 1) :
    Gives ((level d b).binary noIn least) (ts ++ rest) e rest := by
  refine binary_leads (fun d b => ?_) d b
  obtain ⟨b', fuel, hfuel, hchain⟩ := h noIn least d b rest hin hstrength hbound
  exact hchain.trans (iterateUpTo_ends hfuel (binaryStep_stops hreach _ _ _))

theorem ReadsBinary.conditional (h : ReadsBinary p ts e)
    (hstrength : Strength.conditional < p.strength) (hbound : Strength.conditional < p.bound) :
    ReadsConditional p ts e := by
  intro noIn d b rest hin hreach
  have hread : Gives ((level d b).binary noIn 0) (ts ++ rest) e rest :=
    h.gives noIn 0 d b rest hin hstrength (Nat.lt_trans hreach hbound) (Nat.lt_succ_of_lt hreach)
  refine here_gives.bind (hread.bind ((eat_passes (question_of_reach hreach)).bind ?_))
  exact Leads.refl _ _

theorem get_leads {α : Type} {k : Input → Parser α} {q : Parser α}
    (h : Leads (k (reading ts)) ts q us) : Leads (get >>= k) ts q us :=
  h

theorem plainAssignment_gives {sub : Level} (hreach : reach noIn (ahead rest) < .assignment)
    (h : Gives (Parser.conditional sub noIn) ts e rest) :
    Gives (plainAssignment sub noIn) ts e rest := by
  refine here_gives.bind (h.bind (peek_gives.bind ?_))
  rw [assignOp?_of_reach hreach]
  exact Leads.refl _ _

theorem assignment_gives (hcalm : Calm ts) (hrest : Stops noIn .assignment rest)
    (h : ∀ d b, Gives (plainAssignment (level d b) noIn) (ts ++ rest) e rest) (d b : Nat) :
    Gives ((level d b).assignment noIn) (ts ++ rest) e rest := by
  refine assignment_leads (fun d b => ?_) d b
  obtain ⟨harrow, hasync⟩ := hcalm rest ⟨noArrow_of_reach hrest.1, hrest.2⟩
  refine get_leads (here_gives.bind ?_)
  have hinput : (reading (ts ++ rest)).rest = asTokens (ts ++ rest) := rfl
  rw [hasync, if_neg Bool.false_ne_true, hinput, harrow, if_neg Bool.false_ne_true]
  exact h d b

theorem ReadsConditional.assignment (h : ReadsConditional p ts e) (hcalm : Calm ts) :
    ReadsAssignment p ts e := by
  intro noIn d b rest hin hrest
  refine assignment_gives hcalm hrest (fun d b => plainAssignment_gives hrest.1 ?_) d b
  exact h noIn d b rest hin (Nat.lt_trans hrest.1 (by decide))

theorem Stops.mono {s s' : Strength} (h : Stops noIn s rest) (hle : s ≤ s') :
    Stops noIn s' rest :=
  ⟨Nat.lt_of_lt_of_le h.1 hle, h.2⟩

theorem ReadsAssignment.sequence (h : ReadsAssignment p ts e) : ReadsSequence p ts e := by
  intro noIn d b rest hin hrest
  have hread := h noIn d b rest hin (hrest.mono (by decide))
  refine here_gives.bind (hread.bind ((check_gives .comma).bind ?_))
  rw [comma_of_reach hrest.1]
  exact Leads.refl _ _

theorem Reads.ofChain (h : ReadsChain p ts e) (hstrength : Strength.call ≤ p.strength)
    (hall : p.chains allLinks) (hbound : p.bound = .postfixed)
    (hfirst : ∀ rest, NoOperator (ahead (ts ++ rest))) (hcalm : Calm ts) : Reads p ts e := by
  have htight : Strength.conditional < p.strength := Nat.lt_of_lt_of_le (by decide) hstrength
  have hunary := h.unary hall hfirst
  have hbinary := hunary.binary hbound
  have hconditional := hbinary.conditional htight (by rw [hbound]; decide)
  have hassignment := hconditional.assignment hcalm
  exact ⟨fun _ => h, fun _ => hunary, fun _ => hbinary, fun _ => hconditional,
    fun _ => hassignment, hassignment.sequence⟩

theorem Reads.ofUnary (h : ReadsUnary ts e) (hloose : p.strength < .call)
    (hstrength : Strength.conditional < p.strength) (hbound : p.bound = .postfixed)
    (hcalm : Calm ts) : Reads p ts e := by
  have hbinary : ReadsBinary p ts e := h.binary hbound
  have hconditional := hbinary.conditional hstrength (by rw [hbound]; decide)
  have hassignment := hconditional.assignment hcalm
  exact ⟨fun hle => absurd hloose (Nat.not_lt.2 hle), fun _ => h, fun _ => hbinary,
    fun _ => hconditional, fun _ => hassignment, hassignment.sequence⟩

theorem Reads.ofBinary (h : ReadsBinary p ts e) (hloose : p.strength < .unary)
    (hstrength : Strength.conditional < p.strength) (hbound : Strength.conditional < p.bound)
    (hcalm : Calm ts) : Reads p ts e := by
  have hconditional := h.conditional hstrength hbound
  have hassignment := hconditional.assignment hcalm
  exact ⟨fun hle => absurd (Nat.lt_trans hloose (by decide)) (Nat.not_lt.2 hle),
    fun hle => absurd hloose (Nat.not_lt.2 hle), fun _ => h, fun _ => hconditional,
    fun _ => hassignment, hassignment.sequence⟩

theorem Reads.ofAssignment (h : ReadsAssignment p ts e) (hloose : p.strength ≤ .conditional) :
    Reads p ts e :=
  ⟨fun hle => absurd (Nat.le_trans hle hloose) (by decide),
    fun hle => absurd (Nat.le_trans hle hloose) (by decide),
    fun hlt => absurd (Nat.lt_of_lt_of_le hlt hloose) (by decide),
    fun hlt => absurd (Nat.lt_of_lt_of_le hlt hloose) (by decide), fun _ => h, h.sequence⟩

theorem Reads.ofSequence (h : ReadsSequence p ts e) (hloose : p.strength ≤ .sequence) :
    Reads p ts e :=
  ⟨fun hle => absurd (Nat.le_trans hle hloose) (by decide),
    fun hle => absurd (Nat.le_trans hle hloose) (by decide),
    fun hlt => absurd (Nat.lt_of_lt_of_le hlt hloose) (by decide),
    fun hlt => absurd (Nat.lt_of_lt_of_le hlt hloose) (by decide),
    fun hle => absurd (Nat.le_trans hle hloose) (by decide), h⟩

end

/-! ## Expressions in parentheses -/

/-- The profile of an expression in parentheses. -/
def Profile.closed : Profile :=
  ⟨.primary, true, .postfixed, fun _ => true⟩

theorem arrowAhead_symbol {l : Spacing} {s : Symbol} (h : s ≠ .lparen) (rest : List Printed) :
    arrowAhead (asTokens (.symbol l s :: rest)) = false := by
  simp [arrowAhead, Token.isAnyWord, Token.word?, h]

/-- The punctuators that end expressions. -/
def closers : List Symbol :=
  [.rparen, .rbracket, .rbrace, .semicolon, .colon]

theorem stops_close {l : Spacing} {s : Symbol} (h : s ∈ closers) :
    Stops noIn .sequence (.symbol l s :: rest) := by
  refine ⟨?_, arrowAhead_symbol ?_ rest⟩
  · have hreach : Symbol.reach l.breaks s = .any := by
      revert h
      cases s <;> first | exact fun _ => rfl | simp [closers]
    show Symbol.reach l.breaks s < .sequence
    rw [hreach]
    decide
  · rintro rfl
    exact absurd h (by decide)

theorem stops_comma {l : Spacing} : Stops noIn .assignment (.symbol l .comma :: rest) :=
  ⟨show Symbol.reach l.breaks .comma < .assignment from Nat.lt_succ_self _,
    arrowAhead_symbol (by decide) rest⟩

theorem stops_nil : Stops noIn .sequence [] :=
  ⟨Nat.lt_succ_self _, rfl⟩

theorem ReadsChain.ofPrimary {p : Profile} (hnew : ∀ rest, (ahead (ts ++ rest)).isWord "new" = false)
    (h : ∀ d b rest, (ahead rest).isWord "function" = false →
      Gives (primary (level d b)) (ts ++ rest) e rest) : ReadsChain p ts e :=
  fun _ _ _ d b rest hreach =>
    ⟨e, rest, b, rest.length + 1, .inr ⟨hnew rest, h d b rest (function_of_reach hreach)⟩,
      Nat.lt_succ_self _, Leads.refl _ _⟩

theorem primary_fence {p : Profile} {tokens : Spacing → List Printed}
    (h : ReadsSequence p (tokens .joined) e) (lead : Spacing) (d b : Nat) (rest : List Printed) :
    Gives (primary (level d b)) (fence tokens lead ++ rest) e rest := by
  have hsplit : fence tokens lead ++ rest =
      .symbol lead .lparen :: (tokens .joined ++ .symbol .joined .rparen :: rest) := by
    simp [fence]
  rw [hsplit]
  refine peek_gives.bind ?_
  have hread := h false d b (.symbol .joined .rparen :: rest) (by simp) (stops_close (by decide))
  exact (expect_gives _ _).bind (hread.bind ((expect_gives _ _).bind (Leads.refl _ _)))

theorem Reads.fence {p : Profile} {tokens : Spacing → List Printed}
    (h : ReadsSequence p (tokens .joined) e) (hbalanced : Balanced (tokens .joined))
    (lead : Spacing) : Reads .closed (fence tokens lead) e := by
  refine .ofChain (.ofPrimary (fun _ => rfl) fun d b rest _ => primary_fence h lead d b rest) ?_
    rfl rfl ?_ ?_
  · decide
  · exact fun rest => ⟨rfl, rfl⟩
  · exact calm_fence hbalanced lead

end Parser

end WidgetLint.Script
