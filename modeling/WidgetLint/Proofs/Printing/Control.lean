import WidgetLint.Proofs.Printing.Statements

/-!
# Reading blocks, branches and loops back

Statements that hold other statements are read back if those are. What follows a statement inside
another one is a closing brace, the next statement, or a word that belongs to the outer one.
-/

namespace WidgetLint.Script

open Text WidgetLint.Script.Parser

variable {e : Expr} {indent d b k : Nat} {lead : Spacing} {ts us rest : List Printed}

/-! ## First tokens of statements -/

/-- Whether a token may begin a statement. -/
def TokenBody.beginsStatement (body : TokenBody) : Bool :=
  body != .symbol .rbrace && body != .eof &&
    !(["else", "finally", "case", "default"].any fun word => body == .word word)

theorem beginsStatement_of_opens {body : TokenBody} (h : body.opens) : body.beginsStatement := by
  cases body with
  | symbol s => cases s <;> first | rfl | cases h
  | eof => cases h
  | word name =>
    have hname (word : String) (hword : (TokenBody.word word).opens = false) : name ≠ word := by
      rintro rfl
      rw [h] at hword
      cases hword
    simp [TokenBody.beginsStatement, hname "else" (by decide), hname "finally" (by decide),
      hname "case" (by decide), hname "default" (by decide)]
  | _ => rfl

theorem beginsStatement_name {name : String} (h : isReserved name = false) :
    (wordBody name name.toList).beginsStatement :=
  beginsStatement_of_opens (opens_wordBody (.inl h))

theorem Stmt.printed_eq_cons {s : Stmt} (hfit : s.FitAt d) (indent : Nat) (lead : Spacing) :
    ∃ t us, s.printed indent lead = t :: us ∧ t.body.beginsStatement := by
  obtain ⟨⟨hshaped, -⟩, hinside⟩ := allFit_stmt.1 hfit
  cases s with
  | expression s value =>
    rw [Stmt.printed]
    split
    · exact ⟨_, _, rfl, rfl⟩
    · obtain ⟨tail, htail⟩ := value.printed_eq_cons indent lead
      have hopens := value.first_opens hinside (Expr.isOrdinary.ne_spread hshaped)
      exact ⟨_, _, by rw [htail]; rfl, beginsStatement_of_opens hopens⟩
  | declaration s kind declarators =>
    exact ⟨_, _, rfl, by cases kind <;> simp [VarKind.text, TokenBody.beginsStatement]⟩
  | labeled s label body => exact ⟨_, _, rfl, beginsStatement_name hshaped⟩
  | block | empty => exact ⟨_, _, rfl, rfl⟩
  | _ => exact ⟨_, _, rfl, by simp [TokenBody.beginsStatement]⟩

/-- A statement can be followed by a statement, a closing brace, or a word of a statement around
it. -/
theorem precedes_of_begins {s : Stmt} {t : Printed} (h : t.body.beginsStatement) :
    s.Precedes (t :: us) := by
  simp only [TokenBody.beginsStatement, Bool.and_eq_true, List.any_cons, List.any_nil,
    Bool.not_eq_true', Bool.or_eq_false_iff, Bool.or_false] at h
  exact ⟨fun _ => h.2.1, h.2.2.1⟩

theorem precedes_symbol {s : Stmt} {l : Spacing} {symbol : Symbol} :
    s.Precedes (.symbol l symbol :: us) :=
  ⟨fun _ => rfl, rfl⟩

theorem precedes_word {s : Stmt} {l : Spacing} {word : String} (helse : word ≠ "else")
    (hfinally : word ≠ "finally") : s.Precedes (.keyword l word :: us) :=
  ⟨fun _ => by simpa using helse, by simpa using hfinally⟩

/-! ## Blocks -/

theorem AllFit.of_mem_body {body : List Stmt} {s : Stmt} (h : AllFit (visitBody d body))
    (hs : s ∈ body) : s.FitAt d := by
  induction body with
  | nil => cases hs
  | cons next body ih =>
    rw [visitBody] at h
    obtain ⟨hnext, hbody⟩ := allFit_append.1 h
    rcases List.mem_cons.1 hs with rfl | hs
    · exact hnext
    · exact ih hbody hs

/-- Statements on lines of their own can follow a statement, if what follows them can. -/
theorem precedes_lines {s : Stmt} {body : List Stmt} (hfit : AllFit (visitBody d body))
    (hrest : s.Precedes rest) (indent : Nat) : s.Precedes (printedLines indent body ++ rest) := by
  cases body with
  | nil => exact hrest
  | cons next body =>
    obtain ⟨t, us, hprinted, hbegins⟩ :=
      Stmt.printed_eq_cons (hfit.of_mem_body (List.mem_cons_self ..)) indent (.line indent)
    rw [printedLines, hprinted]
    exact precedes_of_begins hbegins

/-- The statements of a block are read one after the other, given how the reader knows their
end. -/
theorem lines_read {item : Parser (Option Stmt)} {body : List Stmt} (d b : Nat)
    (hfit : AllFit (visitBody k body)) (h : ∀ s ∈ body, s.Back indent)
    (hrest : ∀ s : Stmt, s.Precedes rest) (hend : Gives item rest none rest)
    (hitem : ∀ t us, t.body.beginsStatement → ∀ s vs, Gives (level d b).statement (t :: us) s vs →
      Gives item (t :: us) (some s) vs) :
    ManyReads item (printedLines indent body ++ rest) (relabelBody .plain body) rest := by
  induction body with
  | nil => exact .done hend
  | cons s body ih =>
    have hbody : AllFit (visitBody k body) := by
      rw [visitBody] at hfit
      exact (allFit_append.1 hfit).2
    have hs := hfit.of_mem_body (List.mem_cons_self ..)
    obtain ⟨t, us, hprinted, hbegins⟩ := Stmt.printed_eq_cons hs indent (.line indent)
    have hread := h s (by simp) (.line indent) d b (printedLines indent body ++ rest)
      (precedes_lines hbody (hrest s) indent)
    rw [printedLines, List.append_assoc]
    rw [hprinted, List.cons_append] at hread ⊢
    refine .more (hitem _ _ hbegins _ _ hread) ?_ (ih hbody fun s hs => h s (by simp [hs]))
    simp only [List.length_cons, List.length_append]
    omega

theorem block_back {body : List Stmt} (hfit : AllFit (visitBody k body))
    (h : ∀ s ∈ body, s.Back (indent + 1)) : BlockBack indent body := by
  intro lead d b rest
  have hsplit : inBraces indent body (printedLines (indent + 1) body) lead ++ rest =
      .symbol lead .lbrace :: (printedLines (indent + 1) body ++
        .symbol (if body.isEmpty then .joined else .line indent) .rbrace :: rest) := by
    simp [inBraces]
  rw [hsplit]
  refine (expect_gives _ _).bind ((many_gives (lines_read d b hfit h ?_ ?_ ?_)).bind ?_)
  · exact fun s => precedes_symbol
  · exact (check_gives _).bind (Leads.refl _ _)
  · intro t us hbegins s vs hread
    have hbrace : t.token.isSymbol .rbrace = false := by
      simp only [TokenBody.beginsStatement, Bool.and_eq_true, bne_iff_ne] at hbegins
      simpa using hbegins.1.1
    have heof : (t.token.body == .eof) = false := by
      simp only [TokenBody.beginsStatement, Bool.and_eq_true, bne_iff_ne] at hbegins
      simpa using hbegins.1.2
    refine (check_gives _).bind ?_
    rw [ahead_cons, hbrace, if_neg Bool.false_ne_true]
    refine atEnd_gives.bind ?_
    rw [ahead_cons, heof, if_neg Bool.false_ne_true]
    exact hread.bind (Leads.refl _ _)
  · exact (advance_gives _).bind (Leads.refl _ _)

theorem blockStatement_back {s : Span} {body : List Stmt} (h : BlockBack indent body) :
    (Stmt.block s body).Back indent := by
  intro lead d b rest _
  rw [Stmt.printed]
  refine statement_leads (fun d b => here_gives.bind (peek_gives.bind ?_)) d b
  exact (h lead d b rest).bind ((Gives.pure _ _).bind ((spanFrom_gives _).bind (Leads.refl _ _)))

theorem empty_back {s : Span} : (Stmt.empty s).Back indent := by
  intro lead d b rest _
  rw [Stmt.printed]
  refine statement_leads (fun d b => here_gives.bind (peek_gives.bind ?_)) d b
  exact (advance_gives _).bind ((Gives.pure _ _).bind ((spanFrom_gives _).bind (Leads.refl _ _)))

theorem debugger_back {s : Span} : (Stmt.debugger s).Back indent := by
  intro lead d b rest _
  rw [Stmt.printed]
  refine statement_keyword "debugger" (fun _ => do
      advance
      endStatement
      return fun span => .debugger span) (fun span => .debugger span) (by decide) (by decide)
    (by decide) (fun _ => rfl) (fun d b => (advance_gives _).bind ?_) d b
  exact (endStatement_gives _).bind (Leads.refl _ _)

theorem labeled_back {s : Span} {label : String} {body : Stmt}
    (hfit : (Stmt.labeled s label body).FitAt d) (h : body.Back indent) :
    (Stmt.labeled s label body).Back indent := by
  obtain ⟨⟨hreserved, hliteral⟩, -⟩ := allFit_stmt.1 hfit
  intro lead d b rest hrest
  rw [Stmt.printed, Printed.name, wordBody_eq hliteral]
  refine statement_word (fun span => .labeled span label (body.relabel .plain)) rfl
    (fun d b => ?_) d b
  have hkind : Gives declarationKind?
      (⟨lead, .word label⟩ :: .symbol .joined .colon :: (body.printed indent .spaced ++ rest)) none
      (⟨lead, .word label⟩ :: .symbol .joined .colon :: (body.printed indent .spaced ++ rest)) :=
    declarationKind?_none rfl (ne_of_isReserved hreserved (by decide))
      (ne_of_isReserved hreserved (by decide)) fun _ => rfl
  have hlabeled : Gives (labeledOrExpression (level d b) label)
      (⟨lead, .word label⟩ :: .symbol .joined .colon :: (body.printed indent .spaced ++ rest))
      (fun span => .labeled span label (body.relabel .plain)) rest := by
    refine (peekSecond_gives _).bind ?_
    rw [ahead_cons, token_isSymbol, body_symbol, hreserved, if_pos (by simp)]
    refine (advance_gives _).bind ((advance_gives _).bind ((h .spaced d b rest ?_).bind ?_))
    · exact hrest
    · exact Leads.refl _ _
  by_cases hasync : label = "async"
  · subst hasync
    refine hkind.bind ((asyncFunctionAhead_gives _ rfl).bind ?_)
    rw [if_neg Bool.false_ne_true]
    exact hlabeled
  · rw [wordStatement_name hreserved hasync]
    exact hkind.bind hlabeled

/-! ## Branches -/

theorem branch_back {s : Span} {test : Expr} {whenTrue : Stmt} {whenFalse : Option Stmt}
    (hfit : (Stmt.branch s test whenTrue whenFalse).FitAt d) (htest : test.Back indent)
    (htrue : whenTrue.Back indent) (hfalse : ∀ s, whenFalse = some s → s.Back indent) :
    (Stmt.branch s test whenTrue whenFalse).Back indent := by
  obtain ⟨⟨hshaped, -⟩, -⟩ := allFit_stmt.1 hfit
  intro lead d b rest hrest
  rw [Stmt.printed, List.cons_append, List.append_assoc, List.append_assoc]
  refine statement_keyword "if" ifStatement (fun span => .branch span (test.relabel .plain)
      (whenTrue.relabel .plain) (relabelElse .plain whenFalse)) (by decide) (by decide) (by decide)
    (fun _ => rfl) (fun d b => (advance_gives _).bind ?_) d b
  refine (parenthesized_gives htest .spaced d b _).bind ?_
  cases whenFalse with
  | none =>
    refine (htrue .spaced d b _ ⟨fun _ => hrest.1 rfl, hrest.2⟩).bind ?_
    exact (eatWord_passes (hrest.1 rfl)).bind (Leads.refl _ _)
  | some other =>
    have hclosed := hshaped.2 rfl
    refine (htrue .spaced d b _ ⟨fun h => ?_, rfl⟩).bind ((eatWord_gives rfl).bind ?_)
    · rw [hclosed] at h
      cases h
    · exact (hfalse other rfl .spaced d b rest hrest).bind (Leads.refl _ _)

/-! ## Loops -/

theorem while_back {s : Span} {test : Expr} {body : Stmt} (htest : test.Back indent)
    (hbody : body.Back indent) : (Stmt.whileLoop s test body).Back indent := by
  intro lead d b rest hrest
  rw [Stmt.printed, List.cons_append, List.append_assoc]
  refine statement_keyword "while" whileStatement (fun span => .whileLoop span (test.relabel .plain)
      (body.relabel .plain)) (by decide) (by decide) (by decide) (fun _ => rfl)
    (fun d b => (advance_gives _).bind ?_) d b
  refine (parenthesized_gives htest .spaced d b _).bind ((hbody .spaced d b rest hrest).bind ?_)
  exact Leads.refl _ _

theorem doWhile_back {s : Span} {test : Expr} {body : Stmt} (htest : test.Back indent)
    (hbody : body.Back indent) : (Stmt.doWhile s body test).Back indent := by
  intro lead d b rest _
  have hsplit : (Stmt.doWhile s body test).printed indent lead ++ rest =
      .keyword lead "do" :: (body.printed indent .spaced ++ .keyword .spaced "while" ::
        (fence (test.printed indent) .spaced ++ .symbol .joined .semicolon :: rest)) := by
    rw [Stmt.printed]
    simp
  rw [hsplit]
  refine statement_keyword "do" doStatement (fun span => .doWhile span (body.relabel .plain)
      (test.relabel .plain)) (by decide) (by decide) (by decide) (fun _ => rfl)
    (fun d b => (advance_gives _).bind ?_) d b
  refine (hbody .spaced d b _ (precedes_word (by decide) (by decide))).bind ?_
  refine (expectWord_gives _ _).bind ((parenthesized_gives htest .spaced d b _).bind ?_)
  exact (eat_gives rfl).bind (Leads.refl _ _)

/-- What stands first in the head of a loop is read back. -/
def ForInit.Back (indent : Nat) : ForInit → Prop
  | .declaration _ declarators => ∀ declarator ∈ declarators, declarator.Back indent
  | .expression value => value.Back indent

theorem declarationKind?_expression {value : Expr} (hfit : value.FitAt k)
    (hordinary : value.isOrdinary) (hlooks : value.looksDeclared = false) (indent : Nat)
    (lead : Spacing)
    (hlet : value.isLet → ((ahead rest).isAnyWord || (ahead rest).isSymbol .lbracket ||
      (ahead rest).isSymbol .lbrace) = false) :
    Gives declarationKind? (value.printed indent lead ++ rest) none
      (value.printed indent lead ++ rest) := by
  have hopens := value.first_opens hfit (Expr.isOrdinary.ne_spread hordinary)
  by_cases hword : ∃ name, value.first = .word name
  · obtain ⟨name, hname⟩ := hword
    have hne (word : String) (h : (TokenBody.word word).opens = false) : name ≠ word := by
      rintro rfl
      rw [hname, h] at hopens
      cases hopens
    by_cases hreserved : isReserved name
    · obtain ⟨tail, htail⟩ := value.printed_eq_cons indent lead
      rw [htail, List.cons_append]
      refine declarationKind?_none (t := ⟨lead, value.first⟩) hname (hne "var" (by decide))
        (hne "const" (by decide)) ?_
      rintro rfl
      exact absurd hreserved (by decide)
    · obtain ⟨us, hus, hcases⟩ :=
        value.second hfit hname (Bool.eq_false_iff.2 hreserved) indent lead rest
      rw [hus]
      refine declarationKind?_none rfl (hne "var" (by decide)) (hne "const" (by decide)) ?_
      rintro rfl
      rcases hcases with ⟨rfl, s, rfl⟩ | ⟨t, more, rfl, hgoes, hnext⟩
      · exact hlet rfl
      · simp [hnext rfl hlooks, (goesOn_next hgoes).2.2]
  · obtain ⟨tail, htail⟩ := value.printed_eq_cons indent lead
    have hnot (word : String) : (Printed.mk lead value.first).token.isWord word = false := by
      refine Bool.eq_false_iff.2 fun h => hword ⟨word, by simpa using h⟩
    rw [htail, List.cons_append]
    refine peek_gives.bind ((peekSecond_gives _).bind ?_)
    rw [ahead_cons, hnot, hnot, hnot]
    exact Leads.refl _ _

/-- What stands first in the head of a loop is read back, before what is no part of it. -/
theorem forInit_gives {init : ForInit} (hfit : AllFit (init.inside k)) (hshaped : init.Shaped)
    (hfaithful : init.Faithful) (h : init.Back indent) (d b : Nat) (rest : List Printed)
    (hrest : Stops true .sequence rest)
    (hlet : ∀ value, init = .expression value → value.isLet → ((ahead rest).isAnyWord ||
      (ahead rest).isSymbol .lbracket || (ahead rest).isSymbol .lbrace) = false) :
    Gives (forInit (level d b)) (init.printed indent ++ rest) (init.relabel .plain) rest := by
  cases init with
  | declaration kind declarators =>
    have hfirst := printedDeclarators_first hshaped.1 hshaped.2 hfit indent rest
    have hread := declarators_gives true hshaped.1 h (fun _ => hfaithful)
      (.keyword .joined kind.text) d b rest hrest
    rw [ForInit.printed, List.cons_append]
    exact (declarationKind?_some hfirst .joined).bind (hread.bind (Leads.refl _ _))
  | expression value =>
    have hread := (h .joined).sequence true d b rest (fun _ => hfaithful.1) hrest
    have hkind := declarationKind?_expression hfit hshaped hfaithful.2 indent .joined
      (hlet value rfl)
    rw [ForInit.printed]
    exact hkind.bind (hread.bind (Leads.refl _ _))

theorem ForInit.printed_first {init : ForInit} (hfit : AllFit (init.inside k))
    (hshaped : init.Shaped) (indent : Nat) (us : List Printed) :
    (ahead (init.printed indent ++ us)).isSymbol .semicolon = false := by
  cases init with
  | declaration kind declarators => rfl
  | expression value =>
    have hopens := value.first_opens hfit (Expr.isOrdinary.ne_spread hshaped)
    obtain ⟨tail, htail⟩ := value.printed_eq_cons indent .joined
    rw [ForInit.printed, htail, List.cons_append]
    exact isSymbol_of_opens hopens rfl

theorem unlessAt_gives {value : Option Expr} {s : Symbol} (hfit : AllFit (visitOptional k value))
    (hordinary : ∀ e, value = some e → e.isOrdinary) (h : ∀ e, value = some e → e.Back indent)
    (hs : s ∈ closers) (d b : Nat) (rest : List Printed) :
    Gives (unlessAt (level d b) s) (printedOption indent value ++ .symbol .joined s :: rest)
      (relabelOption .plain value) (.symbol .joined s :: rest) := by
  cases value with
  | none =>
    refine (check_gives s).bind ?_
    rw [printedOption, List.nil_append, ahead_cons, token_isSymbol, body_symbol, if_pos (by simp)]
    exact Leads.refl _ _
  | some value =>
    have hopens := value.first_opens hfit (Expr.isOrdinary.ne_spread (hordinary value rfl))
    obtain ⟨tail, htail⟩ := value.printed_eq_cons indent .spaced
    have hnot : (ahead (value.printed indent .spaced ++ .symbol .joined s :: rest)).isSymbol s =
        false := by
      rw [htail]
      refine isSymbol_of_opens hopens ?_
      revert hs
      cases s <;> first | exact fun _ => rfl | decide
    have hread := (h value rfl .spaced).sequence false d b (.symbol .joined s :: rest)
      (fun h => nomatch h) (stops_close hs)
    refine (check_gives s).bind ?_
    rw [printedOption, hnot, if_neg Bool.false_ne_true]
    exact hread.bind (Leads.refl _ _)

theorem forLoopRest_gives (init : Option ForInit) {test update : Option Expr} {body : Stmt}
    (htestFit : AllFit (visitOptional k test)) (hupdateFit : AllFit (visitOptional k update))
    (htestOrdinary : ∀ e, test = some e → e.isOrdinary)
    (hupdateOrdinary : ∀ e, update = some e → e.isOrdinary)
    (htest : ∀ e, test = some e → e.Back indent) (hupdate : ∀ e, update = some e → e.Back indent)
    (hbody : body.Back indent) (d b : Nat) (hrest : body.Precedes rest) :
    Gives (forLoopRest (level d b) (relabelInit .plain init))
      (.symbol .joined .semicolon :: (printedOption indent test ++
        .symbol .joined .semicolon :: (printedOption indent update ++
          .symbol .joined .rparen :: (body.printed indent .spaced ++ rest))))
      (fun span => .forLoop span (relabelInit .plain init) (relabelOption .plain test)
        (relabelOption .plain update) (body.relabel .plain)) rest := by
  refine (expect_gives _ _).bind ?_
  refine (unlessAt_gives htestFit htestOrdinary htest (by decide) d b _).bind ?_
  refine (expect_gives _ _).bind ?_
  refine (unlessAt_gives hupdateFit hupdateOrdinary hupdate (by decide) d b _).bind ?_
  exact (expect_gives _ _).bind ((hbody .spaced d b rest hrest).bind (Leads.refl _ _))

theorem forLoop_back {s : Span} {init : Option ForInit} {test update : Option Expr} {body : Stmt}
    (hfit : (Stmt.forLoop s init test update body).FitAt d)
    (hinit : ∀ i, init = some i → i.Back indent) (htest : ∀ e, test = some e → e.Back indent)
    (hupdate : ∀ e, update = some e → e.Back indent) (hbody : body.Back indent) :
    (Stmt.forLoop s init test update body).Back indent := by
  obtain ⟨⟨hshaped, hfaithful⟩, hinside⟩ := allFit_stmt.1 hfit
  rw [Stmt.inside] at hinside
  obtain ⟨hparts, -⟩ := allFit_append.1 hinside
  obtain ⟨hparts, hupdateFit⟩ := allFit_append.1 hparts
  obtain ⟨hinitFit, htestFit⟩ := allFit_append.1 hparts
  intro lead d b rest hrest
  have hsplit : (Stmt.forLoop s init test update body).printed indent lead ++ rest =
      .keyword lead "for" :: .symbol .spaced .lparen :: (printedInit indent init ++
        .symbol .joined .semicolon :: (printedOption indent test ++
          .symbol .joined .semicolon :: (printedOption indent update ++
            .symbol .joined .rparen :: (body.printed indent .spaced ++ rest)))) := by
    rw [Stmt.printed]
    simp
  rw [hsplit]
  refine statement_keyword "for" forStatement (fun span => .forLoop span (relabelInit .plain init)
      (relabelOption .plain test) (relabelOption .plain update) (body.relabel .plain)) (by decide)
    (by decide) (by decide) (fun _ => rfl)
    (fun d b => (advance_gives _).bind ((expect_gives _ _).bind ((check_gives _).bind ?_))) d b
  have hread (init : Option ForInit) := forLoopRest_gives init htestFit hupdateFit
    hshaped.2.1 hshaped.2.2 htest hupdate hbody d b hrest
  cases init with
  | none => exact hread none
  | some init =>
    have hinitShaped := hshaped.1 init rfl
    rw [printedInit, ForInit.printed_first hinitFit hinitShaped, if_neg Bool.false_ne_true]
    refine (forInit_gives hinitFit hinitShaped (hfaithful init rfl) (hinit init rfl) d b _
      (stops_close (by decide)) fun _ _ _ => rfl).bind (peek_gives.bind ?_)
    exact hread (some init)

theorem forEach_back {s : Span} {left : ForInit} {right : Expr} {body : Stmt} {of : Bool}
    (hfit : (Stmt.forEach s left right body of).FitAt d) (hleft : left.Back indent)
    (hright : right.Back indent) (hbody : body.Back indent) :
    (Stmt.forEach s left right body of).Back indent := by
  obtain ⟨⟨hshaped, hfaithful⟩, hinside⟩ := allFit_stmt.1 hfit
  rw [Stmt.inside] at hinside
  obtain ⟨hparts, -⟩ := allFit_append.1 hinside
  obtain ⟨hleftFit, -⟩ := allFit_append.1 hparts
  intro lead d b rest hrest
  have hsplit : (Stmt.forEach s left right body of).printed indent lead ++ rest =
      .keyword lead "for" :: .symbol .spaced .lparen :: (left.printed indent ++
        .keyword .spaced (if of then "of" else "in") :: (right.printed indent .spaced ++
          .symbol .joined .rparen :: (body.printed indent .spaced ++ rest))) := by
    rw [Stmt.printed]
    simp
  have hstops (us : List Printed) : Stops true .sequence (.keyword .spaced
      (if of then "of" else "in") :: (right.printed indent .spaced ++ us)) := by
    refine ⟨?_, arrowAhead_cons (by simp) (noArrow_printed right us)⟩
    cases of <;> exact Nat.lt_succ_self _
  rw [hsplit]
  refine statement_keyword "for" forStatement (fun span => .forEach span (left.relabel .plain)
      (right.relabel .plain) (body.relabel .plain) of) (by decide) (by decide) (by decide)
    (fun _ => rfl)
    (fun d b => (advance_gives _).bind ((expect_gives _ _).bind ((check_gives _).bind ?_))) d b
  rw [ForInit.printed_first hleftFit hshaped.1, if_neg Bool.false_ne_true]
  refine (forInit_gives hleftFit hshaped.1 hfaithful.1 hleft d b _ (hstops _) ?_).bind
    (peek_gives.bind ?_)
  · intro value heq hlet
    rw [hfaithful.2.1 value heq] at hlet
    cases hlet
  have hclose (us : List Printed) : Stops false .sequence (.symbol .joined .rparen :: us) :=
    stops_close (by decide)
  have hbody := hbody .spaced d b rest hrest
  cases of with
  | true =>
    have hread := (hright .spaced).assignment (hfaithful.2.2 rfl) false d b
      (.symbol .joined .rparen :: (body.printed indent .spaced ++ rest)) (fun h => nomatch h)
      ((hclose _).mono (by decide))
    refine (checkWord_gives _).bind ((advance_gives _).bind (hread.bind ?_))
    exact (expect_gives _ _).bind (hbody.bind (Leads.refl _ _))
  | false =>
    have hread := (hright .spaced).sequence false d b
      (.symbol .joined .rparen :: (body.printed indent .spaced ++ rest)) (fun h => nomatch h)
      (hclose _)
    refine (checkWord_gives _).bind ((advance_gives _).bind (hread.bind ?_))
    exact (expect_gives _ _).bind (hbody.bind (Leads.refl _ _))

/-! ## Handlers and switches -/

def Handler.Back (indent : Nat) : Handler → Prop
  | .mk param body => (∀ e, param = some e → e.PatternBack indent) ∧ BlockBack indent body

theorem handlerParam?_gives {param : Option Expr} {body : List Stmt}
    (h : ∀ e, param = some e → e.PatternBack indent) (d b : Nat) (rest : List Printed) :
    Gives (handlerParam? (level d b)) ((Handler.mk param body).printed indent ++ rest)
      (relabelOption .plain param)
      (inBraces indent body (printedLines (indent + 1) body) .spaced ++ rest) := by
  cases param with
  | none =>
    rw [Handler.printed]
    exact (eat_passes rfl).bind (Leads.refl _ _)
  | some param =>
    have hsplit : (Handler.mk (some param) body).printed indent ++ rest =
        .symbol .spaced .lparen :: (param.printed indent .joined ++ .symbol .joined .rparen ::
          (inBraces indent body (printedLines (indent + 1) body) .spaced ++ rest)) := by
      rw [Handler.printed]
      simp [fence]
    have hread := readsPatterns_bindingTarget (level d b) _ _ _ _ (Nat.le_refl _)
      fun fuel hfuel => h param rfl .joined d b fuel (.symbol .joined .rparen ::
        (inBraces indent body (printedLines (indent + 1) body) .spaced ++ rest)) hfuel
    rw [hsplit]
    exact (eat_gives rfl).bind (hread.bind ((expect_gives _ _).bind (Leads.refl _ _)))

theorem finalizer_gives {α : Type} {finalizer : Option (List Stmt)}
    (h : ∀ body, finalizer = some body → BlockBack indent body) (d b : Nat)
    {k : Option (List Stmt) → Parser α} {q : Parser α}
    (hrest : (ahead rest).isWord "finally" = false)
    (hk : Leads (k (relabelFinalizer .plain finalizer)) rest q us) :
    Leads (do
      if ← eatWord "finally" then (some <$> block (level d b)) >>= k else pure none >>= k)
      (printedFinalizer indent finalizer ++ rest) q us := by
  cases finalizer with
  | none =>
    refine (eatWord_passes hrest).bind ?_
    exact (Gives.pure _ _).bind hk
  | some body =>
    rw [printedFinalizer, List.cons_append]
    exact (eatWord_gives rfl).bind ((h body rfl .spaced d b rest).map.bind hk)

theorem try_back {s : Span} {body : List Stmt} {handler : Option Handler}
    {finalizer : Option (List Stmt)} (hfit : (Stmt.trying s body handler finalizer).FitAt d)
    (hbody : BlockBack indent body) (hhandler : ∀ h, handler = some h → h.Back indent)
    (hfinalizer : ∀ body, finalizer = some body → BlockBack indent body) :
    (Stmt.trying s body handler finalizer).Back indent := by
  obtain ⟨⟨hshaped, -⟩, -⟩ := allFit_stmt.1 hfit
  intro lead d b rest hrest
  rw [Stmt.printed, List.cons_append, List.append_assoc, List.append_assoc]
  refine statement_keyword "try" tryStatement (fun span => .trying span (relabelBody .plain body)
      (relabelHandler .plain handler) (relabelFinalizer .plain finalizer)) (by decide) (by decide)
    (by decide) (fun _ => rfl)
    (fun d b => (advance_gives _).bind ((hbody .spaced d b _).bind ?_)) d b
  cases handler with
  | none =>
    have hcatch : (ahead (printedHandler indent none ++
        (printedFinalizer indent finalizer ++ rest))).isWord "catch" = false := by
      cases finalizer with
      | none => rcases hshaped.1 with h | h <;> cases h
      | some body => rfl
    refine (eatWord_passes hcatch).bind ((Gives.pure _ _).bind ?_)
    refine finalizer_gives hfinalizer d b hrest.2 ?_
    cases finalizer with
    | none => rcases hshaped.1 with h | h <;> cases h
    | some body => exact Leads.refl _ _
  | some handler =>
    obtain ⟨param, handlerBody⟩ := handler
    obtain ⟨hparam, hblock⟩ := hhandler _ rfl
    rw [printedHandler, List.cons_append]
    refine (eatWord_gives rfl).bind ((handlerParam?_gives hparam d b _).bind ?_)
    refine (hblock .spaced d b _).bind ((Gives.pure _ _).bind ?_)
    refine finalizer_gives hfinalizer d b hrest.2 ?_
    exact Leads.refl _ _

def Case.Back (indent : Nat) : Case → Prop
  | .mk test body => (∀ e, test = some e → e.Back indent) ∧ ∀ s ∈ body, s.Back (indent + 1)

/-- What follows the statements of a part of a switch: another part, or the closing brace. -/
def EndsCase (rest : List Printed) : Prop :=
  ∃ t us, rest = t :: us ∧
    (t.body = .symbol .rbrace ∨ t.body = .word "case" ∨ t.body = .word "default")

theorem caseBody_gives {body : List Stmt} (hfit : AllFit (visitBody k body))
    (h : ∀ s ∈ body, s.Back indent) (hrest : EndsCase rest) (d b : Nat) :
    Gives (caseBody (level d b)) (printedLines indent body ++ rest) (relabelBody .plain body)
      rest := by
  obtain ⟨t, us, rfl, ht⟩ := hrest
  refine many_gives (lines_read d b hfit h ?_ ?_ ?_)
  · intro s
    rcases ht with ht | ht | ht <;> exact ⟨fun _ => by simp [ht], by simp [ht]⟩
  · refine peek_gives.bind ?_
    rw [ahead_cons, if_pos]
    · exact Leads.refl _ _
    · rcases ht with ht | ht | ht <;> simp [ht]
  · intro t us hbegins s vs hread
    simp only [TokenBody.beginsStatement, Bool.and_eq_true, bne_iff_ne, List.any_cons,
      List.any_nil, Bool.not_eq_true', Bool.or_eq_false_iff, Bool.or_false] at hbegins
    have heof : (t.token.body == .eof) = false := by simpa using hbegins.1.2
    refine peek_gives.bind ?_
    rw [ahead_cons, if_neg, heof, if_neg Bool.false_ne_true]
    · exact hread.bind (Leads.refl _ _)
    · simp only [token_isSymbol, token_isWord, hbegins.2.2.2.1, hbegins.2.2.2.2, Bool.or_false]
      simpa using hbegins.1.1

theorem case_gives {test : Option Expr} {body : List Stmt} (hfit : AllFit (visitBody k body))
    (h : (Case.mk test body).Back indent) (hrest : EndsCase rest) (d b : Nat) :
    Gives (do
      if ← eat .rbrace then return none
      let test ← caseTest (level d b)
      expect .colon
      return some (Case.mk test (← caseBody (level d b))))
      ((Case.mk test body).printed indent ++ rest) (some ((Case.mk test body).relabel .plain))
      rest := by
  have hbody := caseBody_gives hfit h.2 hrest d b
  cases test with
  | none =>
    have hsplit : (Case.mk none body).printed indent ++ rest = .keyword (.line indent) "default" ::
        .symbol .joined .colon :: (printedLines (indent + 1) body ++ rest) := by
      rw [Case.printed]
      rfl
    have htest : Gives (caseTest (level d b)) (.keyword (.line indent) "default" ::
        .symbol .joined .colon :: (printedLines (indent + 1) body ++ rest)) none
        (.symbol .joined .colon :: (printedLines (indent + 1) body ++ rest)) := by
      refine (eatWord_passes rfl).bind ?_
      rw [if_neg Bool.false_ne_true]
      exact (eatWord_gives rfl).bind (Leads.refl _ _)
    rw [hsplit]
    refine (eat_passes rfl).bind ?_
    rw [if_neg Bool.false_ne_true]
    exact htest.bind ((expect_gives _ _).bind (hbody.bind (Leads.refl _ _)))
  | some test =>
    have hsplit : (Case.mk (some test) body).printed indent ++ rest =
        .keyword (.line indent) "case" :: (test.printed indent .spaced ++
          .symbol .joined .colon :: (printedLines (indent + 1) body ++ rest)) := by
      rw [Case.printed]
      simp
    have hread := (h.1 test rfl .spaced).sequence false d b
      (.symbol .joined .colon :: (printedLines (indent + 1) body ++ rest)) (fun h => nomatch h)
      (stops_close (by decide))
    rw [hsplit]
    refine (eat_passes rfl).bind ?_
    rw [if_neg Bool.false_ne_true]
    refine Gives.bind ((eatWord_gives rfl).bind (hread.bind (Leads.refl _ _))) ?_
    exact (expect_gives _ _).bind (hbody.bind (Leads.refl _ _))

theorem endsCase_cases {cases : List Case} (hrest : EndsCase rest) (indent : Nat) :
    EndsCase (printedCases indent cases ++ rest) := by
  match cases with
  | [] => exact hrest
  | .mk none body :: others => exact ⟨_, _, rfl, .inr (.inr rfl)⟩
  | .mk (some test) body :: others => exact ⟨_, _, rfl, .inr (.inl rfl)⟩

theorem AllFit.of_mem_cases {cases : List Case} {test : Option Expr} {body : List Stmt}
    (h : AllFit (visitCases d cases)) (hmem : .mk test body ∈ cases) :
    AllFit (visitOptional d test) ∧ AllFit (visitBody d body) := by
  induction cases with
  | nil => cases hmem
  | cons c cases ih =>
    obtain ⟨test', body'⟩ := c
    rw [visitCases] at h
    obtain ⟨hfirst, hcases⟩ := allFit_append.1 h
    rcases List.mem_cons.1 hmem with heq | hmem
    · cases heq
      exact allFit_append.1 hfirst
    · exact ih hcases hmem

theorem cases_read {cases : List Case} (hfit : AllFit (visitCases k cases))
    (h : ∀ c ∈ cases, c.Back indent) (d b : Nat) (l : Spacing) (rest : List Printed) :
    ManyReads (do
      if ← eat .rbrace then return none
      let test ← caseTest (level d b)
      expect .colon
      return some (Case.mk test (← caseBody (level d b))))
      (printedCases indent cases ++ .symbol l .rbrace :: rest) (relabelCases .plain cases)
      rest := by
  induction cases with
  | nil => exact .done ((eat_gives rfl).bind (Leads.refl _ _))
  | cons c cases ih =>
    obtain ⟨test, body⟩ := c
    have hends : EndsCase (printedCases indent cases ++ .symbol l .rbrace :: rest) :=
      endsCase_cases ⟨_, _, rfl, .inl rfl⟩ indent
    have hread := case_gives (hfit.of_mem_cases (List.mem_cons_self ..)).2
      (h _ (List.mem_cons_self ..)) hends d b
    have hlength : 0 < ((Case.mk test body).printed indent).length := by
      cases test <;> simp [Case.printed]
    rw [printedCases, List.append_assoc]
    refine .more hread ?_ (ih ?_ fun c hc => h c (by simp [hc]))
    · simp only [List.length_append]
      omega
    · rw [visitCases] at hfit
      exact (allFit_append.1 hfit).2

theorem switch_back {s : Span} {subject : Expr} {cases : List Case}
    (hfit : (Stmt.switch s subject cases).FitAt d) (hsubject : subject.Back indent)
    (hcases : ∀ c ∈ cases, c.Back (indent + 1)) : (Stmt.switch s subject cases).Back indent := by
  obtain ⟨-, hinside⟩ := allFit_stmt.1 hfit
  rw [Stmt.inside] at hinside
  have hcasesFit := (allFit_append.1 hinside).2
  intro lead d b rest _
  have hsplit : (Stmt.switch s subject cases).printed indent lead ++ rest =
      .keyword lead "switch" :: (fence (subject.printed indent) .spaced ++
        .symbol .spaced .lbrace :: (printedCases (indent + 1) cases ++
          .symbol (.line indent) .rbrace :: rest)) := by
    rw [Stmt.printed]
    simp
  rw [hsplit]
  refine statement_keyword "switch" switchStatement (fun span => .switch span
      (subject.relabel .plain) (relabelCases .plain cases)) (by decide) (by decide) (by decide)
    (fun _ => rfl) (fun d b => (advance_gives _).bind ?_) d b
  refine (parenthesized_gives hsubject .spaced d b _).bind ((expect_gives _ _).bind ?_)
  exact (many_gives (cases_read hcasesFit hcases d b _ rest)).bind (Leads.refl _ _)

end WidgetLint.Script
