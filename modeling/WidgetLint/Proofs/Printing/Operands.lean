import WidgetLint.Proofs.Printing.Operators

/-!
# Reading operands back

Names, literals, and chains of accesses and calls are read back if the keys and arguments in them
are.
-/

namespace WidgetLint.Script

open Text WidgetLint.Script.Parser

variable {e base : Expr} {indent d b : Nat} {lead : Spacing} {ts us rest : List Printed}

/-! ## Single tokens -/

theorem Expr.bound_of_call_le (h : Strength.call ≤ e.strength) : e.bound = .postfixed := by
  cases e with
  | binary s op left right =>
    have hless : op.strength < .call := by cases op <;> decide
    exact absurd h (Nat.not_le.2 hless)
  | _ => rfl

/-- An operand without operators, accesses or calls is read back if the grammar's rule for such
operands reads it. -/
theorem primary_back (hfit : e.FitAt d) (hstrength : e.strength = .primary)
    (hnew : e.first ≠ .word "new")
    (h : ∀ lead d b rest, (ahead rest).isWord "function" = false →
      Gives (primary (level d b)) (e.printed indent lead ++ rest) (e.relabel .plain) rest) :
    e.Back indent := by
  intro lead
  have hcall : Strength.call ≤ e.strength := by rw [hstrength]; decide
  refine .ofChain (.ofPrimary (fun rest => ?_) (h lead)) hcall e.chains_all
    (Expr.bound_of_call_le hcall) (noOperator_printed hfit hcall)
    (Expr.calm e hfit ?_ (Expr.isArrow_of_lt ?_))
  · obtain ⟨tail, htail⟩ := e.printed_eq_cons indent lead
    rw [htail, List.cons_append, ahead_cons, token_isWord]
    simpa using hnew
  · rw [hstrength]; decide
  · rw [hstrength]; decide

theorem atom_gives (make : Span → Expr) (t : Printed) :
    Gives (atom make) (t :: rest) (make ⟨.first, .first⟩) rest :=
  here_gives.bind ((advance_gives t).bind ((spanFrom_gives _).bind (Leads.refl _ _)))

/-- Whether an expression is a literal or the word `this`. -/
def Expr.isLiteral : Expr → Bool
  | .number .. | .string .. | .template .. | .regex .. | .boolean .. | .null _ | .this _ => true
  | _ => false

theorem literal_back (hfit : e.FitAt d) (h : e.isLiteral) : e.Back indent := by
  have hprimary (lead : Spacing) (d b : Nat) (rest : List Printed) :
      Gives (primary (level d b)) (e.printed indent lead ++ rest) (e.relabel .plain) rest := by
    cases e with
    | this s =>
      rw [Expr.printed]
      exact peek_gives.bind (here_gives.bind (atom_gives _ _))
    | number | string | template | regex | boolean | null =>
      rw [Expr.printed]
      exact peek_gives.bind (atom_gives _ _)
    | _ => cases h
  refine primary_back hfit ?_ ?_ fun lead d b rest _ => hprimary lead d b rest
  · cases e <;> first | rfl | cases h
  · clear hprimary hfit
    revert h
    cases e <;> simp [Expr.isLiteral, Expr.first]

theorem ne_of_isReserved {name word : String} (h : isReserved name = false)
    (hword : isReserved word = true) : name ≠ word := by
  rintro rfl
  rw [h] at hword
  cases hword

theorem asyncFunctionAhead_gives (t : Printed) (h : (ahead ts).isWord "function" = false) :
    Gives asyncFunctionAhead (t :: ts) false (t :: ts) := by
  refine (peekSecond_gives t).bind ?_
  rw [h]
  exact Leads.refl _ _

theorem ident_back {s : Span} {name : String} (hfit : (Expr.ident s name).FitAt d)
    (hordinary : (Expr.ident s name).isOrdinary) : (Expr.ident s name).Back indent := by
  obtain ⟨⟨hshaped, hfaithful⟩, -⟩ := allFit_expr.1 hfit
  have hnew : name ≠ "new" := by simpa [Expr.isOrdinary] using hordinary
  have hreserved : isReserved name = false := hshaped.resolve_right hnew
  have hbody : wordBody name name.toList = .word name := wordBody_eq hfaithful
  refine primary_back hfit rfl ?_ fun lead d b rest hfunction => ?_
  · rw [Expr.first, hbody]
    simpa using hnew
  · rw [Expr.printed, Printed.name, hbody]
    refine peek_gives.bind (here_gives.bind ?_)
    rw [if_neg (ne_of_isReserved hreserved (by decide)),
      if_neg (ne_of_isReserved hreserved (by decide))]
    refine (asyncFunctionAhead_gives _ hfunction).bind ?_
    rw [Bool.and_false, if_neg Bool.false_ne_true, hreserved, if_neg Bool.false_ne_true]
    exact atom_gives _ _

/-! ## Accesses and calls -/

theorem memberName?_wordBody (name : String) :
    (wordBody name name.toList).memberName? = some name := by
  unfold wordBody
  split
  next h => simp [TokenBody.memberName?, h]
  next =>
    split
    next h => simp [TokenBody.memberName?, h]
    next =>
      split
      next h => simp [TokenBody.memberName?, h]
      next => simp [TokenBody.memberName?]

theorem memberName_gives (lead : Spacing) (name : String) :
    Gives memberName (.name lead name :: rest) (name, ⟨.first, .first⟩) rest := by
  refine here_gives.bind (peek_gives.bind ?_)
  rw [ahead_cons, token_body, body_name, memberName?_wordBody]
  exact (advance_gives _).bind ((spanFrom_gives _).bind (Leads.refl _ _))

theorem Parser.ReadsChain.link {p p' : Profile} {s : Symbol} {l : Spacing} {more : List Printed}
    {base e : Expr} (h : ReadsChain p ts base)
    (hlinks : ∀ links, p'.chains links → p.chains links ∧ links.contains s) (hs : s ∈ allLinks)
    (hlink : ∀ noIn d b rest, reach noIn (ahead rest) < .primary →
      Gives (chainLink (level d b) .first base s) (.symbol l s :: (more ++ rest)) e rest) :
    ReadsChain p' (ts ++ .symbol l s :: more) e := by
  intro links hchains noIn d b rest hreach
  obtain ⟨hbase, hcontains⟩ := hlinks links hchains
  have hnext : reach noIn (Printed.symbol l s).token < .primary := by
    have hcall : reach noIn (Printed.symbol l s).token = .call := by
      simp [reach, Symbol.reach, hs]
    rw [hcall]
    decide
  obtain ⟨first, mid, b', fuel, hhead, hfuel, hchain⟩ :=
    h links hbase noIn d b (.symbol l s :: (more ++ rest)) hnext
  simp only [List.length_cons, List.length_append] at hfuel
  obtain ⟨fuel, rfl⟩ : ∃ n, fuel = n + 1 := ⟨fuel - 1, by omega⟩
  rw [List.append_assoc, List.cons_append]
  refine ⟨first, mid, b' - linkCost, fuel, hhead, by omega, hchain.trans ?_⟩
  refine iterateUpTo_goesOn (peek_gives.bind ?_)
  rw [ahead_cons, token_body, body_symbol]
  simp only [hcontains, if_true]
  refine link_leads ((hlink noIn d _ rest hreach).bind ?_)
  exact Leads.refl _ _

/-- What is left to show for an access or a call: how its link is read. -/
theorem chain_back {s : Symbol} {more : List Printed} {least : Strength} (hfit : e.FitAt d)
    (hfront : e.front = some (base, least)) (hstrength : Strength.call ≤ e.strength)
    (hback : e.back indent = .symbol .joined s :: more) (hs : s ∈ allLinks)
    (hchains : ∀ links, e.chains links →
      links.contains s ∧ (base.strength < least ∨ base.chains links))
    (hbase : base.Back indent)
    (hlink : ∀ noIn d b rest, reach noIn (ahead rest) < .primary →
      Gives (chainLink (level d b) .first (base.relabel .plain) s)
        (.symbol .joined s :: (more ++ rest)) (e.relabel .plain) rest) :
    e.Back indent := by
  intro lead
  have hle : Strength.call ≤ least := by
    unfold Expr.front at hfront
    split at hfront <;> cases hfront
    case h_2 op right =>
      have hless : op.strength < .call := by cases op <;> decide
      exact absurd hstrength (Nat.not_le.2 hless)
    case h_5 => split <;> decide
    all_goals first | exact absurd hstrength (by simp [Expr.strength]; decide) | decide
  have hcall : Strength.call ≤ (base.profileAt least).strength := by
    rw [Expr.profileAt]
    split
    next => decide
    next hnot => exact Nat.le_trans hle (Nat.le_of_not_lt hnot)
  have hchain : ReadsChain e.profile (e.printed indent lead) (e.relabel .plain) := by
    rw [Expr.printed_front hfront, hback]
    exact ((hbase.fenced least lead).chain hcall).link
      (fun links h => ⟨Expr.profileAt_chains (hchains links h).2, (hchains links h).1⟩) hs hlink
  exact .ofChain hchain hstrength e.chains_all (Expr.bound_of_call_le hstrength)
    (noOperator_printed hfit hstrength)
    (Expr.calm e hfit (Nat.lt_of_lt_of_le (by decide) hstrength)
      (Expr.isArrow_of_lt (Nat.lt_of_lt_of_le (by decide) hstrength)))

theorem dot_back {s nameSpan : Span} {optional : Bool} {name : String}
    (hfit : (Expr.dot s base optional name nameSpan).FitAt d) (hbase : base.Back indent) :
    (Expr.dot s base optional name nameSpan).Back indent := by
  have hchains (links : List Symbol) (h : (Expr.dot s base optional name nameSpan).chains links) :
      links.contains (if optional then .questionDot else .dot) ∧
        (base.strength < (if base.isNumber then Strength.primary + 1 else .call) ∨
          base.chains links) := by
    simp only [Expr.chains, Bool.and_eq_true, Bool.or_eq_true, decide_eq_true_eq] at h
    refine ⟨h.1, ?_⟩
    rcases h.2 with (hnumber | hless) | hchains
    · rw [if_pos hnumber]
      exact .inl (Expr.lt_primary_of_isNumber hnumber)
    · refine .inl (Nat.lt_of_lt_of_le hless ?_)
      split <;> decide
    · exact .inr hchains
  refine chain_back hfit rfl (by simp [Expr.strength]; decide) rfl (by cases optional <;> decide)
    hchains hbase ?_
  intro noIn d b rest _
  cases optional with
  | false =>
    refine (advance_gives _).bind ((memberName_gives _ _).bind ((spanFrom_gives _).bind ?_))
    exact Leads.refl _ _
  | true =>
    have hparen : (Printed.name .joined name).token.isSymbol .lparen = false := by
      simp [wordBody_ne_symbol]
    have hbracket : (Printed.name .joined name).token.isSymbol .lbracket = false := by
      simp [wordBody_ne_symbol]
    refine (advance_gives _).bind ((check_gives _).bind ?_)
    rw [List.singleton_append, ahead_cons, hparen, if_neg Bool.false_ne_true]
    refine (check_gives _).bind ?_
    rw [ahead_cons, hbracket, if_neg Bool.false_ne_true]
    refine (memberName_gives _ _).bind ((spanFrom_gives _).bind ?_)
    exact Leads.refl _ _

theorem indexKey_gives {key : Expr} (hkey : key.Back indent) (d b : Nat) :
    Gives (indexKey (level d b))
      (.symbol .joined .lbracket :: (key.printed indent .joined ++ .symbol .joined .rbracket :: rest))
      (key.relabel .plain) rest := by
  have hread := (hkey .joined).sequence false d b (.symbol .joined .rbracket :: rest)
    (fun h => nomatch h) (stops_close (by decide))
  refine (expect_gives _ _).bind (hread.bind ((expect_gives _ _).bind ?_))
  exact Leads.refl _ _

theorem index_back {s : Span} {optional : Bool} {key : Expr}
    (hfit : (Expr.index s base optional key).FitAt d) (hbase : base.Back indent)
    (hkey : key.Back indent) : (Expr.index s base optional key).Back indent := by
  have hchains (links : List Symbol) (h : (Expr.index s base optional key).chains links) :
      links.contains (if optional then .questionDot else .lbracket) ∧
        (base.strength < .call ∨ base.chains links) := by
    simpa only [Expr.chains, Bool.and_eq_true, Bool.or_eq_true, decide_eq_true_eq] using h
  cases optional with
  | false =>
    refine chain_back hfit rfl (by simp [Expr.strength]; decide) rfl (by decide) hchains hbase ?_
    intro noIn d b rest _
    rw [List.append_assoc]
    refine (check_gives _).bind ?_
    rw [ahead_cons, token_isSymbol, body_symbol, if_pos (by simp)]
    exact (indexKey_gives hkey d b).bind ((spanFrom_gives _).bind (Leads.refl _ _))
  | true =>
    have hback : (Expr.index s base true key).back indent = .symbol .joined .questionDot ::
        (.symbol .joined .lbracket :: (key.printed indent .joined ++ [Printed.symbol .joined .rbracket])) :=
      rfl
    refine chain_back hfit rfl (by simp [Expr.strength]; decide) hback (by decide) hchains hbase ?_
    intro noIn d b rest _
    refine (advance_gives _).bind ((check_gives _).bind ?_)
    rw [List.cons_append, List.append_assoc, ahead_cons, token_isSymbol, body_symbol,
      if_neg (by simp)]
    refine (check_gives _).bind ?_
    rw [ahead_cons, token_isSymbol, body_symbol, if_pos (by simp)]
    exact (indexKey_gives hkey d b).bind ((spanFrom_gives _).bind (Leads.refl _ _))

def ArgumentsBack (indent : Nat) (arguments : List Expr) : Prop :=
  ∀ d b rest, Gives (Parser.arguments (level d b))
    (.symbol .joined .lparen ::
      (printedAll indent arguments .joined ++ .symbol .joined .rparen :: rest))
    (relabelAll .plain arguments) rest

theorem call_back {s : Span} {callee : Expr} {optional : Bool} {arguments : List Expr}
    (hfit : (Expr.call s callee optional arguments).FitAt d) (hcallee : callee.Back indent)
    (harguments : ArgumentsBack indent arguments) :
    (Expr.call s callee optional arguments).Back indent := by
  have hchains (links : List Symbol) (h : (Expr.call s callee optional arguments).chains links) :
      links.contains (if optional then .questionDot else .lparen) ∧
        (callee.strength < .call ∨ callee.chains links) := by
    simpa only [Expr.chains, Bool.and_eq_true, Bool.or_eq_true, decide_eq_true_eq] using h
  cases optional with
  | false =>
    refine chain_back hfit rfl (Nat.le_refl _) rfl (by decide) hchains hcallee ?_
    intro noIn d b rest _
    rw [List.append_assoc]
    exact (harguments d b rest).bind ((spanFrom_gives _).bind (Leads.refl _ _))
  | true =>
    have hback : (Expr.call s callee true arguments).back indent = .symbol .joined .questionDot ::
        (.symbol .joined .lparen ::
          (printedAll indent arguments .joined ++ [Printed.symbol .joined .rparen])) := rfl
    refine chain_back hfit rfl (Nat.le_refl _) hback (by decide) hchains hcallee ?_
    intro noIn d b rest _
    refine (advance_gives _).bind ((check_gives _).bind ?_)
    rw [List.cons_append, List.append_assoc, ahead_cons, token_isSymbol, body_symbol,
      if_pos (by simp)]
    exact (harguments d b rest).bind ((spanFrom_gives _).bind (Leads.refl _ _))

/-! ## The word `new` -/

theorem fenced_opens (hfit : e.FitAt d) (hspread : ∀ s a, e ≠ .spread s a) (least : Strength)
    (indent : Nat) (lead : Spacing) (us : List Printed) :
    (ahead (e.fenced least (e.printed indent) lead ++ us)).body.opens := by
  rw [Expr.fenced]
  split
  · rfl
  · obtain ⟨tail, htail⟩ := e.printed_eq_cons indent lead
    rw [htail]
    exact e.first_opens hfit hspread

theorem isSymbol_of_opens {t : Token} {s : Symbol} (h : t.body.opens)
    (hs : (TokenBody.symbol s).opens = false) : t.isSymbol s = false := by
  refine Bool.eq_false_iff.2 fun hnot => ?_
  have hbody : t.body = .symbol s := by simpa [Token.isSymbol] using hnot
  rw [hbody, hs] at h
  cases h

theorem chainStep_passes {links : List Symbol} {s : Symbol} {l : Spacing}
    (h : links.contains s = false) (start : Position) (b : Nat) (e : Expr) :
    Gives (chainStep (level d) start links (b, e)) (.symbol l s :: rest) (.inr (b, e))
      (.symbol l s :: rest) := by
  refine peek_gives.bind ?_
  rw [ahead_cons, token_body, body_symbol]
  simp only [h, Bool.false_eq_true, if_false]
  exact Leads.refl _ _

/-- What starts with the word `new` is read back if the rule for it reads it. -/
theorem construction_back (hfit : e.FitAt d) (hstrength : e.strength = .member)
    (hfirst : e.first = .word "new")
    (h : ∀ lead d b rest,
      Gives (level d b).construction (e.printed indent lead ++ rest) (e.relabel .plain) rest) :
    e.Back indent := by
  intro lead
  have hcall : Strength.call ≤ e.strength := by rw [hstrength]; decide
  refine .ofChain ?_ hcall e.chains_all (Expr.bound_of_call_le hcall)
    (noOperator_printed hfit hcall)
    (Expr.calm e hfit (by rw [hstrength]; decide) (Expr.isArrow_of_lt (by rw [hstrength]; decide)))
  intro links _ noIn d b rest _
  refine ⟨e.relabel .plain, rest, b, rest.length + 1, .inl ⟨?_, h lead d b rest⟩,
    Nat.lt_succ_self _, Leads.refl _ _⟩
  obtain ⟨tail, htail⟩ := e.printed_eq_cons indent lead
  rw [htail, List.cons_append, ahead_cons, token_isWord, hfirst]
  simp

theorem new_back {s : Span} {callee : Expr} {arguments : List Expr}
    (hfit : (Expr.new s callee arguments).FitAt d) (hcallee : callee.Back indent)
    (harguments : ArgumentsBack indent arguments) :
    (Expr.new s callee arguments).Back indent := by
  obtain ⟨⟨hshaped, hfaithful⟩, hinside⟩ := allFit_expr.1 hfit
  rw [Expr.inside] at hinside
  have hcalleeFit := (allFit_append.1 hinside).1
  refine construction_back hfit rfl rfl fun lead d b rest => ?_
  have hsplit : (Expr.new s callee arguments).printed indent lead ++ rest =
      .keyword lead "new" :: (callee.fenced .member (callee.printed indent) .spaced ++
        .symbol .joined .lparen ::
          (printedAll indent arguments .joined ++ .symbol .joined .rparen :: rest)) := by
    rw [Expr.printed]
    simp
  rw [hsplit]
  refine construction_leads (fun d b => here_gives.bind ((advance_gives _).bind ?_)) d b
  have hopens := fenced_opens hcalleeFit (Expr.isOrdinary.ne_spread hshaped.1) .member indent .spaced
    (.symbol .joined .lparen ::
      (printedAll indent arguments .joined ++ .symbol .joined .rparen :: rest))
  refine (eat_passes (isSymbol_of_opens hopens rfl)).bind ?_
  rw [if_neg Bool.false_ne_true]
  -- The callee ends at the parenthesis that opens the arguments.
  obtain ⟨first, mid, b', fuel, hhead, hfuel, hchain⟩ :=
    (hcallee.fenced .member .spaced).chain
      (Nat.le_trans (by decide) (Expr.le_profileAt (by decide))) [.dot, .lbracket]
      (Expr.profileAt_chains hfaithful) false d b
      (.symbol .joined .lparen ::
        (printedAll indent arguments .joined ++ .symbol .joined .rparen :: rest))
      (show Strength.call < Strength.primary by decide)
  refine hhead.leads (Leads.bind (iterate_leads hchain) ?_)
  refine Gives.bind (iterateUpTo_ends hfuel (chainStep_passes (by decide) _ _ _)) ?_
  refine (check_gives _).bind ?_
  rw [ahead_cons, token_isSymbol, body_symbol, if_pos (by simp)]
  exact (harguments d b' rest).bind ((spanFrom_gives _).bind (Leads.refl _ _))

theorem newTarget_back {s s' nameSpan : Span} {name : String}
    (hfit : (Expr.dot s (.ident s' "new") false name nameSpan).FitAt d) :
    (Expr.dot s (.ident s' "new") false name nameSpan).Back indent := by
  refine construction_back hfit rfl ?_ fun lead d b rest => ?_
  · simp [Expr.first, Expr.isNumber, Expr.strength, wordBody]
    rfl
  · have hsplit : (Expr.dot s (.ident s' "new") false name nameSpan).printed indent lead ++ rest =
        .keyword lead "new" :: .symbol .joined .dot :: .name .joined name :: rest := by
      rw [Expr.printed_front rfl]
      rfl
    rw [hsplit]
    refine construction_leads (fun d b => here_gives.bind ((advance_gives _).bind ?_)) d b
    refine (eat_gives rfl).bind ((spanFrom_gives _).bind ((memberName_gives _ _).bind ?_))
    exact (spanFrom_gives _).bind (Leads.refl _ _)

end WidgetLint.Script
