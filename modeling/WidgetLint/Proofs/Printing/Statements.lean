import WidgetLint.Proofs.Printing.Objects

/-!
# Reading statements back

Every printed statement ends with a semicolon or a brace, so a reader knows where it ends without
looking at line breaks. What remains is that the first tokens of a statement tell its kind, and that
a branch without an alternative is not followed by the alternative of another one.
-/

namespace WidgetLint.Script

open Text WidgetLint.Script.Parser

variable {e : Expr} {indent d b k : Nat} {lead : Spacing} {ts us rest : List Printed}

/-! ## Kinds of statements -/

/-- What follows a statement is not taken for a part of it. -/
def Stmt.Precedes (s : Stmt) (rest : List Printed) : Prop :=
  (s.endsOpen → (ahead rest).isWord "else" = false) ∧ (ahead rest).isWord "finally" = false

/-- The printed statement is read back as itself, up to positions and quoted names. -/
def Stmt.Back (indent : Nat) (s : Stmt) : Prop :=
  ∀ lead d b rest, s.Precedes rest →
    Gives (level d b).statement (s.printed indent lead ++ rest) (s.relabel .plain) rest

theorem statement_word {t : Printed} {name : String} (make : Span → Stmt)
    (ht : t.body = .word name)
    (h : ∀ d b, Gives (wordStatement (level d b) name) (t :: ts) make rest) (d b : Nat) :
    Gives (level d b).statement (t :: ts) (make ⟨.first, .first⟩) rest := by
  refine statement_leads (fun d b => here_gives.bind (peek_gives.bind ?_)) d b
  rw [ahead_cons, token_body, ht]
  exact (h d b).bind ((spanFrom_gives _).bind (Leads.refl _ _))

theorem declarationKind?_none {t : Printed} {name : String} (ht : t.body = .word name)
    (hvar : name ≠ "var") (hconst : name ≠ "const")
    (hlet : name = "let" → ((ahead ts).isAnyWord || (ahead ts).isSymbol .lbracket ||
      (ahead ts).isSymbol .lbrace) = false) :
    Gives declarationKind? (t :: ts) none (t :: ts) := by
  have hisWord (word : String) : t.token.isWord word = (name == word) := by
    rw [token_isWord, ht]
    exact Bool.eq_iff_iff.2 (by simp)
  refine peek_gives.bind ((peekSecond_gives t).bind ?_)
  rw [ahead_cons, hisWord, hisWord, hisWord]
  rw [if_neg (by simpa using hvar), if_neg (by simpa using hconst)]
  by_cases hname : name = "let"
  · rw [if_pos (by simpa using hname), hlet hname]
    exact Leads.refl _ _
  · rw [if_neg (by simpa using hname)]
    exact Leads.refl _ _

theorem statement_keyword (word : String) (p : Level → Parser (Span → Stmt))
    (make : Span → Stmt) (hvar : word ≠ "var") (hconst : word ≠ "const") (hlet : word ≠ "let")
    (hword : ∀ sub : Level, wordStatement sub word = (do
      match ← declarationKind? with
      | some kind => declaration sub kind
      | none => p sub))
    (h : ∀ d b, Gives (p (level d b)) (.keyword lead word :: ts) make rest) (d b : Nat) :
    Gives (level d b).statement (.keyword lead word :: ts) (make ⟨.first, .first⟩) rest := by
  refine statement_word make rfl (fun d b => ?_) d b
  rw [hword]
  exact (declarationKind?_none rfl hvar hconst fun h => absurd h hlet).bind (h d b)

theorem parenthesized_gives (h : e.Back indent) (lead : Spacing) (d b : Nat)
    (rest : List Printed) :
    Gives (parenthesized (level d b)) (fence (e.printed indent) lead ++ rest) (e.relabel .plain)
      rest := by
  have hsplit : fence (e.printed indent) lead ++ rest =
      .symbol lead .lparen :: (e.printed indent .joined ++ .symbol .joined .rparen :: rest) := by
    simp [fence]
  have hread := (h .joined).sequence false d b (.symbol .joined .rparen :: rest) (by simp)
    (stops_close (by decide))
  rw [hsplit]
  exact (expect_gives _ _).bind (hread.bind ((expect_gives _ _).bind (Leads.refl _ _)))

theorem endStatement_gives (lead : Spacing) :
    Gives endStatement (.symbol lead .semicolon :: rest) () rest :=
  (eat_gives rfl).bind (Leads.refl _ _)

/-! ## Expressions as statements -/

theorem expressionStatement_gives {p : Profile} (h : ReadsSequence p ts (e.relabel .plain)) (d b : Nat)
    (rest : List Printed) :
    Gives (expressionStatement (level d b)) (ts ++ .symbol .joined .semicolon :: rest)
      (fun span => .expression span (e.relabel .plain)) rest := by
  have hread := h false d b (.symbol .joined .semicolon :: rest) (fun h => nomatch h)
    (stops_close (by decide))
  exact hread.bind ((endStatement_gives _).bind (Leads.refl _ _))

theorem Expr.startsWith_first (e : Expr) (indent : Nat) :
    (e.render indent).startsWith e.first.spelling := by
  obtain ⟨tail, htail⟩ := e.printed_eq_cons indent .joined
  have hspells := e.spells indent .joined
  rw [htail] at hspells
  rw [String.startsWith_string_iff]
  refine ⟨written tail, ?_⟩
  simpa [written, Printed.chars, Spacing.chars] using hspells

theorem first_of_not_startsStatement (h : startsStatement (e.render indent) = false) :
    e.first ≠ .symbol .lbrace ∧ e.first ≠ .word "function" := by
  have hstarts := e.startsWith_first indent
  simp only [startsStatement, Bool.or_eq_false_iff] at h
  refine ⟨fun hfirst => ?_, fun hfirst => ?_⟩
  · rw [hfirst] at hstarts
    exact absurd hstarts (by rw [TokenBody.spelling, Symbol.text, h.1]; simp)
  · rw [hfirst] at hstarts
    exact absurd hstarts (by rw [TokenBody.spelling, h.2]; simp)

theorem statement_other {t : Printed} (make : Span → Stmt) (hbrace : t.body ≠ .symbol .lbrace)
    (hsemicolon : t.body ≠ .symbol .semicolon) (hword : ∀ name, t.body ≠ .word name)
    (h : ∀ d b, Gives (expressionStatement (level d b)) (t :: ts) make rest) (d b : Nat) :
    Gives (level d b).statement (t :: ts) (make ⟨.first, .first⟩) rest := by
  refine statement_leads (fun d b => here_gives.bind (peek_gives.bind ?_)) d b
  rw [ahead_cons, token_body]
  split
  next heq => exact absurd heq hbrace
  next heq => exact absurd heq hsemicolon
  next name heq => exact absurd heq (hword name)
  next => exact (h d b).bind ((spanFrom_gives _).bind (Leads.refl _ _))

theorem wordStatement_operand {name : String}
    (h : name ∈ ["this", "new", "typeof", "void", "delete"]) (sub : Level) :
    wordStatement sub name = (do
      match ← declarationKind? with
      | some kind => declaration sub kind
      | none => labeledOrExpression sub name) := by
  simp only [List.mem_cons, List.not_mem_nil, or_false] at h
  rcases h with rfl | rfl | rfl | rfl | rfl <;> rfl

theorem wordStatement_name {name : String} (h : isReserved name = false)
    (hasync : name ≠ "async") (sub : Level) :
    wordStatement sub name = (do
      match ← declarationKind? with
      | some kind => declaration sub kind
      | none => labeledOrExpression sub name) := by
  unfold wordStatement
  congr
  funext kind
  cases kind with
  | some kind => rfl
  | none =>
    simp only
    split
    case h_2 => exact absurd rfl hasync
    case h_14 => rfl
    all_goals exact absurd h (by decide)

theorem labeledOrExpression_gives {t : Printed} {name : String} {make : Span → Stmt}
    (h : (ahead ts).isSymbol .colon = false ∨ isReserved name = true)
    (hread : Gives (expressionStatement (level d b)) (t :: ts) make rest) :
    Gives (labeledOrExpression (level d b) name) (t :: ts) make rest := by
  refine (peekSecond_gives t).bind ?_
  rw [if_neg]
  · exact hread
  · rcases h with h | h <;> simp [h]

/-- A name with which an expression begins, and what follows it, announce nothing else. -/
theorem wordStatement_gives {t : Printed} {name : String} {make : Span → Stmt}
    (hreserved : isReserved name = false) (ht : t.body = .word name)
    (hcolon : (ahead ts).isSymbol .colon = false)
    (hfunction : (ahead ts).isWord "function" = false)
    (hlet : name = "let" → ((ahead ts).isAnyWord || (ahead ts).isSymbol .lbracket ||
      (ahead ts).isSymbol .lbrace) = false)
    (hread : Gives (expressionStatement (level d b)) (t :: ts) make rest) :
    Gives (wordStatement (level d b) name) (t :: ts) make rest := by
  have hkind := declarationKind?_none ht (ne_of_isReserved hreserved (by decide))
    (ne_of_isReserved hreserved (by decide)) hlet
  by_cases hasync : name = "async"
  · subst hasync
    refine hkind.bind ((asyncFunctionAhead_gives t hfunction).bind ?_)
    rw [if_neg Bool.false_ne_true]
    exact labeledOrExpression_gives (.inl hcolon) hread
  · rw [wordStatement_name hreserved hasync]
    exact hkind.bind (labeledOrExpression_gives (.inl hcolon) hread)

/-- What goes on with a name is neither a colon nor the word `function` nor a brace. -/
theorem goesOn_next {t : Printed} (h : t.body.goesOn) :
    t.token.isSymbol .colon = false ∧ t.token.isWord "function" = false ∧
      t.body ≠ .symbol .lbrace := by
  refine ⟨?_, ?_, ?_⟩
  · refine Bool.eq_false_iff.2 fun hnot => ?_
    rw [show t.body = .symbol .colon by simpa using hnot] at h
    cases h
  · refine Bool.eq_false_iff.2 fun hnot => ?_
    rw [show t.body = .word "function" by simpa using hnot] at h
    exact absurd h (by decide)
  · intro hbody
    rw [hbody] at h
    cases h

theorem expression_back {s : Span} {value : Expr} (hfit : (Stmt.expression s value).FitAt d)
    (h : value.Back indent) : (Stmt.expression s value).Back indent := by
  obtain ⟨⟨hshaped, hfaithful⟩, hvalue⟩ := allFit_stmt.1 hfit
  intro lead d b rest _
  let make : Span → Stmt := fun span => .expression span (value.relabel .plain)
  rw [Stmt.printed, List.append_assoc, List.singleton_append]
  split
  next =>
    have hread := (Reads.fence (h .joined).sequence (value.balanced _ _) lead).sequence
    exact statement_other make (by simp) (by simp) (by simp)
      (fun d b => expressionStatement_gives hread d b rest) d b
  next hstarts =>
    have hfirst := first_of_not_startsStatement (Bool.eq_false_iff.2 hstarts)
    have hopens := value.first_opens hvalue (Expr.isOrdinary.ne_spread hshaped)
    have hread (d b : Nat) := expressionStatement_gives (h lead).sequence d b rest
    by_cases hword : ∃ name, value.first = .word name
    · obtain ⟨name, hfirstName⟩ := hword
      by_cases hreserved : isReserved name
      · obtain ⟨tail, htail⟩ := value.printed_eq_cons indent lead
        rw [htail, List.cons_append] at hread ⊢
        refine statement_word make (t := ⟨lead, value.first⟩) hfirstName (fun d b => ?_) d b
        have hname : name ∈ ["this", "new", "typeof", "void", "delete"] := by
          rw [hfirstName] at hopens hfirst
          simp only [TokenBody.opens, hreserved] at hopens
          simp at hopens hfirst ⊢
          rcases hopens with h | h | h | h | h | h
          all_goals simp_all
        rw [wordStatement_operand hname]
        refine (declarationKind?_none (t := ⟨lead, value.first⟩) hfirstName ?_ ?_ ?_).bind
          (labeledOrExpression_gives (.inr hreserved) (hread d b))
        all_goals
          rintro rfl
          exact absurd hname (by decide)
      · have hreserved : isReserved name = false := Bool.eq_false_iff.2 hreserved
        obtain ⟨us, hus, hcases⟩ := value.second hvalue hfirstName hreserved indent lead
          (.symbol .joined .semicolon :: rest)
        rw [hus] at hread ⊢
        refine statement_word make rfl (fun d b => ?_) d b
        rcases hcases with ⟨rfl, -⟩ | ⟨t, more, rfl, hgoes, hlet⟩
        · exact wordStatement_gives hreserved rfl rfl rfl (fun _ => rfl) (hread d b)
        · have hnext := goesOn_next hgoes
          exact wordStatement_gives hreserved rfl hnext.1 hnext.2.1
            (fun hname => by simp [hlet hname hfaithful, hnext.2.2]) (hread d b)
    · obtain ⟨tail, htail⟩ := value.printed_eq_cons indent lead
      rw [htail, List.cons_append] at hread ⊢
      refine statement_other make hfirst.1 ?_ (fun name h => hword ⟨name, h⟩) hread d b
      intro hsemicolon
      rw [show value.first = _ from hsemicolon] at hopens
      cases hopens

/-! ## Declarations -/

def Declarator.Back (indent : Nat) (declarator : Declarator) : Prop :=
  ∀ (noIn : Bool) d b rest, (noIn → ∀ target value, declarator = .mk target (some value) →
      value.strength < .assignment ∨ value.hidesIn) → Stops noIn .assignment rest →
    Gives (Parser.declarator (level d b) noIn) (declarator.printed indent ++ rest)
      (declarator.relabel .plain) rest

theorem declarator_back {target : Expr} {value : Option Expr} (htarget : target.PatternBack indent)
    (hvalue : ∀ e, value = some e → e.Back indent) : (Declarator.mk target value).Back indent := by
  intro noIn d b rest hin hrest
  have hread (us : List Printed) : Gives (bindingTarget (level d b))
      (target.printed indent .spaced ++ us) (target.relabel .plain) us :=
    readsPatterns_bindingTarget _ _ _ _ _ (Nat.le_refl _)
      fun fuel hfuel => htarget .spaced d b fuel us hfuel
  cases value with
  | none =>
    rw [Declarator.printed]
    exact (hread rest).bind ((eat_passes (eq_of_reach hrest.1)).bind (Leads.refl _ _))
  | some value =>
    have hassigned := ((hvalue value rfl).fenced .assignment .spaced).assignment
      (Expr.le_profileAt (by decide)) noIn d b rest
      (fun h => Expr.profileAt_hidesIn (hin h target value rfl)) hrest
    rw [Declarator.printed, List.append_assoc, List.cons_append]
    exact (hread _).bind ((eat_gives rfl).bind (hassigned.bind (Leads.refl _ _)))

/-- The tokens of variables that follow another one after a comma. -/
def declaratorsTail (indent : Nat) (ds : List Declarator) : List Printed :=
  if ds.isEmpty then [] else .symbol .joined .comma :: printedDeclarators indent ds

theorem printedDeclarators_cons (indent : Nat) (declarator : Declarator) (ds : List Declarator) :
    printedDeclarators indent (declarator :: ds) =
      declarator.printed indent ++ declaratorsTail indent ds := by
  cases ds with
  | nil => simp [printedDeclarators, declaratorsTail]
  | cons next ds => simp [printedDeclarators, declaratorsTail]

/-- No value of a declaration shows the operator `in`. -/
def HideIn (ds : List Declarator) : Prop :=
  ∀ target value, .mk target (some value) ∈ ds → value.strength < .assignment ∨ value.hidesIn

theorem stops_declaratorsTail {noIn : Bool} (hrest : Stops noIn .sequence rest)
    (indent : Nat) (ds : List Declarator) :
    Stops noIn .assignment (declaratorsTail indent ds ++ rest) := by
  cases ds with
  | nil => exact hrest.mono (by decide)
  | cons next ds => exact stops_comma

theorem declarators_read {noIn : Bool} (hrest : Stops noIn .sequence rest) (d b : Nat)
    (ds : List Declarator) (h : ∀ declarator ∈ ds, declarator.Back indent)
    (hin : noIn → HideIn ds) :
    ManyReads (do
      if ← eat .comma then return some (← Parser.declarator (level d b) noIn) else return none)
      (declaratorsTail indent ds ++ rest) (relabelDeclarators .plain ds) rest := by
  induction ds with
  | nil =>
    refine .done ((eat_passes (comma_of_reach hrest.1)).bind ?_)
    exact Leads.refl _ _
  | cons declarator ds ih =>
    have hsplit : declaratorsTail indent (declarator :: ds) ++ rest = .symbol .joined .comma ::
        (declarator.printed indent ++ (declaratorsTail indent ds ++ rest)) := by
      rw [declaratorsTail, if_neg (by simp), printedDeclarators_cons]
      simp
    have hread := h declarator (by simp) noIn d b (declaratorsTail indent ds ++ rest)
      (fun hn target value heq => hin hn target value (by simp [heq]))
      (stops_declaratorsTail hrest indent ds)
    rw [hsplit]
    refine .more ((eat_gives rfl).bind (hread.bind (Leads.refl _ _))) ?_
      (ih (fun declarator hd => h declarator (by simp [hd]))
        fun hn target value hmem => hin hn target value (by simp [hmem]))
    simp only [List.length_cons, List.length_append]
    omega

theorem declarators_gives (noIn : Bool) {ds : List Declarator} (hne : ds ≠ [])
    (h : ∀ declarator ∈ ds, declarator.Back indent) (hin : noIn → HideIn ds) (t : Printed)
    (d b : Nat) (rest : List Printed) (hrest : Stops noIn .sequence rest) :
    Gives (declarators (level d b) noIn) (t :: (printedDeclarators indent ds ++ rest))
      (relabelDeclarators .plain ds) rest := by
  match ds, hne with
  | declarator :: ds, _ =>
    have hread := h declarator (by simp) noIn d b (declaratorsTail indent ds ++ rest)
      (fun hn target value heq => hin hn target value (by simp [heq]))
      (stops_declaratorsTail hrest indent ds)
    have hothers := many_gives (declarators_read hrest d b ds
      (fun declarator hd => h declarator (by simp [hd]))
      fun hn target value hmem => hin hn target value (by simp [hmem]))
    rw [printedDeclarators_cons, List.append_assoc]
    exact (advance_gives t).bind (hread.bind (hothers.bind (Leads.refl _ _)))

theorem AllFit.of_mem_declarators {ds : List Declarator} {target : Expr} {value : Option Expr}
    (h : AllFit (visitDeclarators d ds)) (hmem : .mk target value ∈ ds) :
    target.FitAt d ∧ ∀ e, value = some e → e.FitAt d := by
  induction ds with
  | nil => cases hmem
  | cons declarator ds ih =>
    obtain ⟨target', value'⟩ := declarator
    rw [visitDeclarators] at h
    obtain ⟨hfirst, hds⟩ := allFit_append.1 h
    obtain ⟨htarget, hvalue⟩ := allFit_append.1 hfirst
    rcases List.mem_cons.1 hmem with heq | hmem
    · cases heq
      refine ⟨htarget, ?_⟩
      rintro e rfl
      exact hvalue
    · exact ih hds hmem

theorem printedDeclarators_first {ds : List Declarator} (hne : ds ≠ [])
    (hshaped : ∀ declarator ∈ ds, declarator.Shaped)
    (hfit : AllFit (visitDeclarators k ds)) (indent : Nat) (us : List Printed) :
    ((ahead (printedDeclarators indent ds ++ us)).isAnyWord ||
      (ahead (printedDeclarators indent ds ++ us)).isSymbol .lbracket ||
        (ahead (printedDeclarators indent ds ++ us)).isSymbol .lbrace) = true := by
  match ds, hne with
  | .mk target value :: ds, _ =>
    have hprinted : ∃ tail, printedDeclarators indent (.mk target value :: ds) ++ us =
        ⟨.spaced, target.first⟩ :: tail := by
      obtain ⟨tail, htail⟩ := target.printed_eq_cons indent .spaced
      rw [printedDeclarators_cons]
      cases value with
      | none => exact ⟨_, by rw [Declarator.printed, htail]; rfl⟩
      | some value => exact ⟨_, by rw [Declarator.printed, htail]; rfl⟩
    obtain ⟨tail, htail⟩ := hprinted
    have hpattern := (hshaped (.mk target value) (by simp)).1
    have htargetFit := (hfit.of_mem_declarators (List.mem_cons_self ..)).1
    rw [htail, ahead_cons]
    cases target with
    | ident s name =>
      have hbody := wordBody_eq (allFit_expr.1 htargetFit).1.2
      simp [Expr.first, hbody, Token.isAnyWord, Token.word?]
    | array | object => simp [Expr.first]
    | _ => cases hpattern

theorem declarationKind?_some {kind : VarKind} (h : ((ahead ts).isAnyWord ||
    (ahead ts).isSymbol .lbracket || (ahead ts).isSymbol .lbrace) = true) (lead : Spacing) :
    Gives declarationKind? (.keyword lead kind.text :: ts) (some kind)
      (.keyword lead kind.text :: ts) := by
  refine peek_gives.bind ((peekSecond_gives _).bind ?_)
  cases kind with
  | var => exact Leads.refl _ _
  | const => exact Leads.refl _ _
  | letting =>
    rw [ahead_cons, h]
    exact Leads.refl _ _

theorem declaration_back {s : Span} {kind : VarKind} {ds : List Declarator}
    (hfit : (Stmt.declaration s kind ds).FitAt d) (h : ∀ declarator ∈ ds, declarator.Back indent) :
    (Stmt.declaration s kind ds).Back indent := by
  obtain ⟨⟨hshaped, -⟩, hinside⟩ := allFit_stmt.1 hfit
  intro lead d b rest _
  have hfirst := printedDeclarators_first hshaped.1 hshaped.2 hinside indent
    (.symbol .joined .semicolon :: rest)
  rw [Stmt.printed, List.cons_append, List.append_assoc, List.singleton_append]
  refine statement_word (fun span => .declaration span kind (relabelDeclarators .plain ds)) rfl
    (fun d b => ?_) d b
  refine (declarationKind?_some hfirst lead).bind ?_
  have hread := declarators_gives false hshaped.1 h (fun h => nomatch h)
    (.keyword lead kind.text) d b (.symbol .joined .semicolon :: rest) (stops_close (by decide))
  exact hread.bind ((endStatement_gives _).bind (Leads.refl _ _))

theorem functionStatement_back {s : Span} {name : String} {params : List Expr} {body : List Stmt}
    (hfit : (Stmt.function s name params body).FitAt d)
    (hparams : ∀ p ∈ params, p.ParamBack indent) (hbody : BlockBack indent body) :
    (Stmt.function s name params body).Back indent := by
  obtain ⟨⟨hshaped, hfaithful⟩, hinside⟩ := allFit_stmt.1 hfit
  rw [Stmt.inside] at hinside
  intro lead d b rest _
  have hsplit : (Stmt.function s name params body).printed indent lead ++ rest =
      .keyword lead "function" :: .name .spaced name ::
        (printedFunction indent params body ++ rest) := by
    rw [Stmt.printed, printedFunction]
    simp
  rw [hsplit]
  refine statement_keyword "function" (fun sub => advance >>= fun _ => functionDeclaration sub)
    (fun span => .function span name (relabelAll .plain params) (relabelBody .plain body))
    (by decide) (by decide) (by decide) (fun _ => rfl) (fun d b => (advance_gives _).bind ?_) d b
  have hstar : (ahead (.name .spaced name :: (printedFunction indent params body ++ rest))).isSymbol
      .star = false := by
    simp [wordBody_ne_symbol]
  have hreserved (n : String) (h : some name = some n) : isReserved n = false := by
    cases h
    exact hshaped.1
  have hliteral (n : String) (h : some name = some n) : isLiteralWord n = false := by
    cases h
    exact hfaithful
  have hname := functionName?_gives hreserved hliteral
    (printedAll indent params .joined ++ .symbol .joined .rparen ::
      (inBraces indent body (printedLines (indent + 1) body) .spaced ++ rest))
  rw [← printedFunction_append] at hname
  have hread := functionRest_gives (allFit_append.1 hinside).1 hparams hbody d b rest
  exact (eat_passes hstar).bind (hname.bind (hread.bind (Leads.refl _ _)))

/-! ## Jumps -/

theorem return_back {s : Span} {value : Option Expr} (hfit : (Stmt.returning s value).FitAt d)
    (h : ∀ e, value = some e → e.Back indent) : (Stmt.returning s value).Back indent := by
  obtain ⟨⟨hshaped, -⟩, hinside⟩ := allFit_stmt.1 hfit
  intro lead d b rest _
  rw [Stmt.printed, List.cons_append, List.append_assoc, List.singleton_append]
  refine statement_keyword "return" returnStatement
    (fun span => .returning span (relabelOption .plain value)) (by decide) (by decide) (by decide)
    (fun _ => rfl) (fun d b => (advance_gives _).bind ?_) d b
  cases value with
  | none =>
    refine Gives.bind (a := true) (peek_gives.bind (Leads.refl _ _)) ?_
    rw [if_pos rfl]
    exact (Gives.pure _ _).bind ((endStatement_gives _).bind (Leads.refl _ _))
  | some value =>
    have hread := (h value rfl .spaced).sequence false d b (.symbol .joined .semicolon :: rest)
      (fun h => nomatch h) (stops_close (by decide))
    obtain ⟨tail, htail⟩ := value.printed_eq_cons indent .spaced
    have hopens := value.first_opens hinside (Expr.isOrdinary.ne_spread (hshaped value rfl))
    have hend : Gives atStatementEnd (printedOption indent (some value) ++
        .symbol .joined .semicolon :: rest) false (printedOption indent (some value) ++
        .symbol .joined .semicolon :: rest) := by
      refine peek_gives.bind ?_
      rw [printedOption, htail, List.cons_append, ahead_cons]
      rw [isSymbol_of_opens (t := (Printed.mk .spaced value.first).token) hopens rfl,
        isSymbol_of_opens (t := (Printed.mk .spaced value.first).token) hopens rfl]
      have heof : value.first ≠ .eof := by
        intro heof
        rw [heof] at hopens
        cases hopens
      simp only [token_body, token_newlineBefore, Spacing.breaks, Bool.or_false, Bool.false_or]
      rw [beq_eq_false_iff_ne.2 heof]
      exact Leads.refl _ _
    refine hend.bind ?_
    rw [if_neg Bool.false_ne_true]
    exact hread.map.bind ((endStatement_gives _).bind (Leads.refl _ _))

theorem jump_back (make : Span → Option String → Stmt) (word : String) {s : Span}
    {label : Option String} (hvar : word ≠ "var") (hconst : word ≠ "const") (hlet : word ≠ "let")
    (hword : ∀ sub : Level, wordStatement sub word = (do
      match ← declarationKind? with
      | some kind => declaration sub kind
      | none => jumpStatement make))
    (hprinted : ∀ lead, (make s label).printed indent lead = printedJump word label lead)
    (hplain : (make s label).relabel .plain = make ⟨.first, .first⟩ label)
    (hreserved : ∀ n, label = some n → isReserved n = false)
    (hliteral : ∀ n, label = some n → isLiteralWord n = false) : (make s label).Back indent := by
  intro lead d b rest _
  rw [hprinted, hplain, printedJump, List.cons_append, List.append_assoc, List.singleton_append]
  refine statement_keyword word (fun _ => jumpStatement make) (fun span => make span label) hvar
    hconst hlet hword
    (fun d b => (advance_gives _).bind ?_) d b
  cases label with
  | none =>
    refine Gives.bind (a := none) (peek_gives.bind (Leads.refl _ _)) ?_
    exact (endStatement_gives _).bind (Leads.refl _ _)
  | some name =>
    have hname : (Printed.name .spaced name).token.name? = some name := by
      simp [Token.name?, Token.word?, wordBody_eq (hliteral name rfl), hreserved name rfl]
    have hlabel : Gives jumpLabel? (.name .spaced name :: .symbol .joined .semicolon :: rest)
        (some name) (.symbol .joined .semicolon :: rest) := by
      refine peek_gives.bind ?_
      rw [ahead_cons, hname]
      exact (advance_gives _).bind (Leads.refl _ _)
    exact hlabel.bind ((endStatement_gives _).bind (Leads.refl _ _))

theorem throw_back {s : Span} {value : Expr} (h : value.Back indent) :
    (Stmt.throwing s value).Back indent := by
  intro lead d b rest _
  have hread (d b : Nat) := (h .spaced).sequence false d b (.symbol .joined .semicolon :: rest)
    (fun h => nomatch h) (stops_close (by decide))
  obtain ⟨tail, htail⟩ := value.printed_eq_cons indent .spaced
  rw [Stmt.printed, List.cons_append, List.append_assoc, List.singleton_append]
  refine statement_keyword "throw" throwStatement
    (fun span => .throwing span (value.relabel .plain)) (by decide) (by decide) (by decide)
    (fun _ => rfl) (fun d b => (advance_gives _).bind (peek_gives.bind ?_)) d b
  have hline : (ahead (value.printed indent .spaced ++
      .symbol .joined .semicolon :: rest)).newlineBefore = false := by
    rw [htail]
    rfl
  rw [hline, if_neg Bool.false_ne_true]
  exact (hread d b).bind ((endStatement_gives _).bind (Leads.refl _ _))

end WidgetLint.Script
