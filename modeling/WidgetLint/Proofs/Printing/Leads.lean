import WidgetLint.Proofs.Printing.Balanced
import WidgetLint.Script.Parser

/-!
# Reading printed tokens

`Gives p ts a us` says that a reader of printed tokens takes them from `ts` to `us` and returns `a`,
unless the budget is spent before. `Leads p ts q us` says more generally that reading on comes down
to running `q` at `us`; loops are followed with it. Nothing is known about the places of printed
tokens, so all of them are the first one.
-/

namespace WidgetLint.Script.Parser

open Text

variable {α β σ : Type} {p q r : Parser α} {ts us vs : List Printed} {a : α}

/-! ## Outcomes -/

/-- The token for the end of a printed text. -/
def endToken : Token :=
  ⟨.eof, "", ⟨.first, .first⟩, false⟩

/-- The input before printed tokens. -/
def reading (ts : List Printed) : Input :=
  ⟨asTokens ts, endToken, .first⟩

/-- The complaint that the budget is spent. -/
def tooDeep : ScriptError :=
  ⟨.nestedTooDeep, .first⟩

/-- Running `p` at `ts` comes down to running `q` at `us`, unless the budget is spent. -/
def Leads (p : Parser α) (ts : List Printed) (q : Parser α) (us : List Printed) : Prop :=
  p (reading ts) = q (reading us) ∨ p (reading ts) = .error tooDeep

/-- Running `p` at `ts` returns `a` and leaves `us`, unless the budget is spent. -/
def Gives (p : Parser α) (ts : List Printed) (a : α) (us : List Printed) : Prop :=
  Leads p ts (pure a) us

theorem Leads.refl (p : Parser α) (ts : List Printed) : Leads p ts p ts :=
  .inl rfl

theorem Leads.trans (h : Leads p ts q us) (h' : Leads q us r vs) : Leads p ts r vs := by
  rcases h with h | h
  · rcases h' with h' | h'
    · exact .inl (h.trans h')
    · exact .inr (h.trans h')
  · exact .inr h

theorem Leads.bind {k : α → Parser β} {s : Parser β} (h : Leads p ts q us)
    (hk : Leads (q >>= k) us s vs) : Leads (p >>= k) ts s vs := by
  have hbind (p : Parser α) (i : Input) :
      (p >>= k) i = (p i).bind fun x => k x.1 x.2 := rfl
  rcases h with h | h
  · have hrun : (p >>= k) (reading ts) = (q >>= k) (reading us) := by
      rw [hbind, hbind, h]
    exact Leads.trans (.inl hrun) hk
  · refine .inr ?_
    rw [hbind, h]
    rfl

theorem Gives.pure (a : α) (ts : List Printed) : Gives (Pure.pure a) ts a ts :=
  .inl rfl

theorem Gives.bind {k : α → Parser β} {s : Parser β} (h : Gives p ts a us)
    (hk : Leads (k a) us s vs) : Leads (p >>= k) ts s vs :=
  Leads.bind h (by rw [pure_bind]; exact hk)

theorem Gives.map {f : α → β} (h : Gives p ts a us) : Gives (f <$> p) ts (f a) us := by
  rw [map_eq_pure_bind]
  exact h.bind (Leads.refl _ _)

theorem leads_tooDeep : Leads (fail .nestedTooDeep : Parser α) ts q us := by
  refine .inr ?_
  cases ts <;> rfl

/-! ## Single tokens -/

/-- The token to be read next. -/
def ahead (ts : List Printed) : Token :=
  (reading ts).current

@[simp] theorem ahead_nil : ahead [] = endToken := rfl

@[simp] theorem ahead_cons (t : Printed) : ahead (t :: ts) = t.token := rfl

@[simp] theorem token_body (t : Printed) : t.token.body = t.body := rfl

@[simp] theorem token_newlineBefore (t : Printed) : t.token.newlineBefore = t.spacing.breaks := rfl

@[simp] theorem token_isSymbol (t : Printed) (s : Symbol) :
    t.token.isSymbol s = (t.body == .symbol s) := rfl

@[simp] theorem token_isWord (t : Printed) (name : String) :
    t.token.isWord name = (t.body == .word name) := rfl

@[simp] theorem endToken_isSymbol (s : Symbol) : endToken.isSymbol s = false := rfl

@[simp] theorem endToken_isWord (name : String) : endToken.isWord name = false := rfl

@[simp] theorem body_symbol (l : Spacing) (s : Symbol) : (Printed.symbol l s).body = .symbol s := rfl

@[simp] theorem body_keyword (l : Spacing) (name : String) :
    (Printed.keyword l name).body = .word name := rfl

@[simp] theorem body_name (l : Spacing) (name : String) :
    (Printed.name l name).body = wordBody name name.toList := rfl

theorem peek_gives : Gives peek ts (ahead ts) ts :=
  .inl rfl

theorem peekSecond_gives (t : Printed) : Gives peekSecond (t :: ts) (ahead ts) (t :: ts) := by
  refine .inl ?_
  cases ts <;> rfl

theorem advance_gives (t : Printed) : Gives advance (t :: ts) () ts :=
  .inl rfl

theorem here_gives : Gives here ts .first ts := by
  refine .inl ?_
  cases ts <;> rfl

theorem spanFrom_gives (start : Position) : Gives (spanFrom start) ts ⟨start, .first⟩ ts :=
  .inl rfl

theorem atEnd_gives : Gives atEnd ts ((ahead ts).body == .eof) ts :=
  .inl rfl

theorem check_gives (s : Symbol) : Gives (check s) ts ((ahead ts).isSymbol s) ts :=
  .inl rfl

theorem checkWord_gives (name : String) : Gives (checkWord name) ts ((ahead ts).isWord name) ts :=
  .inl rfl

theorem eat_gives {t : Printed} {s : Symbol} (h : t.body = .symbol s) :
    Gives (eat s) (t :: ts) true ts := by
  refine (check_gives s).bind ?_
  rw [if_pos (by simp [h])]
  exact (advance_gives t).bind (Leads.refl _ _)

theorem eat_passes {s : Symbol} (h : (ahead ts).isSymbol s = false) : Gives (eat s) ts false ts := by
  refine (check_gives s).bind ?_
  rw [if_neg (by simp [h])]
  exact Leads.refl _ _

theorem eatWord_gives {t : Printed} {name : String} (h : t.body = .word name) :
    Gives (eatWord name) (t :: ts) true ts := by
  refine (checkWord_gives name).bind ?_
  rw [if_pos (by simp [h])]
  exact (advance_gives t).bind (Leads.refl _ _)

theorem eatWord_passes {name : String} (h : (ahead ts).isWord name = false) :
    Gives (eatWord name) ts false ts := by
  refine (checkWord_gives name).bind ?_
  rw [if_neg (by simp [h])]
  exact Leads.refl _ _

theorem expect_gives (l : Spacing) (s : Symbol) :
    Gives (expect s) (.symbol l s :: ts) () ts :=
  (eat_gives rfl).bind (Leads.refl _ _)

theorem expectWord_gives (l : Spacing) (name : String) :
    Gives (expectWord name) (.keyword l name :: ts) () ts :=
  (eatWord_gives rfl).bind (Leads.refl _ _)

/-! ## Repetition -/

/-- The items that a reader returns one after the other, each of which takes a token. -/
inductive ManyReads (item : Parser (Option α)) :
    List Printed → List α → List Printed → Prop
  | done {ts us : List Printed} : Gives item ts none us → ManyReads item ts [] us
  | more {ts us vs : List Printed} {a : α} {as : List α} : Gives item ts (some a) us →
    us.length < ts.length → ManyReads item us as vs → ManyReads item ts (a :: as) vs

theorem manyUpTo_gives {item : Parser (Option α)} {as : List α} (h : ManyReads item ts as us)
    {fuel : Nat} (hfuel : ts.length < fuel) : Gives (manyUpTo item fuel) ts as us := by
  induction h generalizing fuel with
  | done hitem =>
    cases fuel with
    | zero => omega
    | succ fuel => exact hitem.bind (Leads.refl _ _)
  | more hitem hless _ ih =>
    cases fuel with
    | zero => omega
    | succ fuel => exact hitem.bind ((ih (by omega)).bind (Leads.refl _ _))

theorem many_gives {item : Parser (Option α)} {as : List α} (h : ManyReads item ts as us) :
    Gives (many item) ts as us := by
  have hlength : (reading ts).rest.length = ts.length := by simp [reading, asTokens]
  have hrun : many item (reading ts) = manyUpTo item (ts.length + 1) (reading ts) := by
    rw [← hlength]
    rfl
  exact Leads.trans (.inl hrun) (manyUpTo_gives h (by omega))

theorem iterate_leads {step : σ → Parser (σ ⊕ α)} {s : σ}
    (h : Leads (iterateUpTo step (ts.length + 1) s) ts q us) :
    Leads (iterate step s) ts q us := by
  have hlength : (reading ts).rest.length = ts.length := by simp [reading, asTokens]
  have hrun : iterate step s (reading ts) = iterateUpTo step (ts.length + 1) s (reading ts) := by
    rw [← hlength]
    rfl
  exact Leads.trans (.inl hrun) h

theorem iterateUpTo_goesOn {step : σ → Parser (σ ⊕ α)} {s s' : σ} {fuel : Nat}
    (hstep : Gives (step s) ts (.inl s') us) :
    Leads (iterateUpTo step (fuel + 1) s) ts (iterateUpTo step fuel s') us :=
  hstep.bind (Leads.refl _ _)

theorem iterateUpTo_ends {step : σ → Parser (σ ⊕ α)} {s : σ} {fuel : Nat}
    (hfuel : ts.length < fuel) (hstep : Gives (step s) ts (.inr a) us) :
    Gives (iterateUpTo step fuel s) ts a us := by
  cases fuel with
  | zero => omega
  | succ fuel => exact hstep.bind (Leads.refl _ _)

theorem link_leads {budget : Nat} {next : Nat → Parser α}
    (h : Leads (next (budget - linkCost)) ts q us) : Leads (link budget next) ts q us := by
  unfold link
  split
  · exact leads_tooDeep
  · exact h

/-! ## Levels -/

section
variable {noIn : Bool} {least : Nat}

theorem level_cases (part : Level → Parser α) (at_ : Nat → Nat → Parser α)
    (hexhausted : part .exhausted = fail .nestedTooDeep)
    (hlevel : ∀ d b, ¬b < nestCost → part (level (d + 1) b) = at_ d (b - nestCost))
    (h : ∀ d b, Leads (at_ d b) ts q us) (d b : Nat) : Leads (part (level d b)) ts q us := by
  cases d with
  | zero =>
    rw [level, hexhausted]
    exact leads_tooDeep
  | succ d =>
    by_cases hb : b < nestCost
    · rw [level, if_pos hb, hexhausted]
      exact leads_tooDeep
    · rw [hlevel d b hb]
      exact h _ _

theorem statement_leads {q : Parser Stmt} (h : ∀ d b, Leads (statementAt (level d b)) ts q us)
    (d b : Nat) : Leads (level d b).statement ts q us :=
  level_cases LevelOf.statement (fun d b => statementAt (level d b)) rfl
    (fun d b hb => by rw [level, if_neg hb]) h d b

theorem assignment_leads {q : Parser Expr}
    (h : ∀ d b, Leads (assignmentAt (level d b) noIn) ts q us) (d b : Nat) :
    Leads ((level d b).assignment noIn) ts q us :=
  level_cases (·.assignment noIn) (fun d b => assignmentAt (level d b) noIn) rfl
    (fun d b hb => by rw [level, if_neg hb]) h d b

theorem binary_leads {q : Parser Expr}
    (h : ∀ d b, Leads (binaryAt (level d) b noIn least) ts q us) (d b : Nat) :
    Leads ((level d b).binary noIn least) ts q us :=
  level_cases (·.binary noIn least) (fun d b => binaryAt (level d) b noIn least) rfl
    (fun d b hb => by rw [level, if_neg hb]) h d b

theorem unary_leads {q : Parser Expr} (h : ∀ d b, Leads (unaryAt (level d) b) ts q us)
    (d b : Nat) : Leads (level d b).unary ts q us :=
  level_cases LevelOf.unary (fun d b => unaryAt (level d) b) rfl
    (fun d b hb => by rw [level, if_neg hb]) h d b

theorem construction_leads {q : Parser Expr}
    (h : ∀ d b, Leads (constructionAt (level d) b) ts q us) (d b : Nat) :
    Leads (level d b).construction ts q us :=
  level_cases LevelOf.construction (fun d b => constructionAt (level d) b) rfl
    (fun d b hb => by rw [level, if_neg hb]) h d b

end

end WidgetLint.Script.Parser
