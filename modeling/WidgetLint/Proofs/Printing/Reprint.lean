import WidgetLint.Proofs.Printing.ParsedStmt

/-!
# Printing what was parsed

**What was parsed is parsed back from its printed text** (`parseExpression_reprint`,
`parseProgram_reprint`), as far as the printer keeps the parentheses that the grammar needs
(`Node.Faithful`) and its slashes are read as they were printed. That the tree was read from a text
takes the place of all other conditions: its nodes are shaped as the grammar shapes them, and they
can be written, since a token of a text can be written again.
-/

namespace WidgetLint.Script

open Text WidgetLint.Script.Parser

/-! ## First tokens -/

theorem fitsSlash_of_opens {body : TokenBody} (h : body.opens) : body.fitsSlash true = true := by
  cases body with
  | symbol s => cases s <;> first | rfl | cases h
  | _ => rfl

theorem Stmt.printed_fitsSlash {s : Stmt} {d : Nat} (hfit : s.FitAt d) (indent : Nat)
    (lead : Spacing) : ∃ t us, s.printed indent lead = t :: us ∧ t.body.fitsSlash true = true := by
  obtain ⟨⟨hshaped, -⟩, hinside⟩ := allFit_stmt.1 hfit
  cases s with
  | expression s value =>
    rw [Stmt.printed]
    split
    · exact ⟨_, _, rfl, rfl⟩
    · obtain ⟨tail, htail⟩ := value.printed_eq_cons indent lead
      have hopens := value.first_opens hinside (Expr.isOrdinary.ne_spread hshaped)
      exact ⟨_, _, by rw [htail]; rfl, fitsSlash_of_opens hopens⟩
  | labeled s label body => exact ⟨_, _, rfl, fitsSlash_of_opens (opens_wordBody (.inl hshaped))⟩
  | _ => exact ⟨_, _, rfl, rfl⟩

/-! ## Sound trees -/

section
variable {vs : List Visit} (hformed : Everywhere Node.Formed vs)
include hformed

theorem Everywhere.fit (hfaithful : Everywhere Node.Faithful vs) : AllFit vs :=
  fun v hv => ⟨(hformed v hv).1.1, hfaithful v hv⟩

theorem Everywhere.spelled (htame : Everywhere Node.Tame vs) : Everywhere Node.Spelled vs :=
  fun v hv => (hformed v hv).1.2 (htame v hv)

end

/-! ## Expressions -/

/-- **A parsed expression is parsed back from its printed text**, unless that nests too deep. -/
theorem parseExpression_reprint {text : String} {e : Expr} (h : parseExpression text = .ok e)
    (htame : Everywhere Node.Tame (e.visit 0 (e.inside 1)))
    (hfaithful : Everywhere Node.Faithful (e.visit 0 (e.inside 1)))
    (hslashed : (e.printed 0 .joined).IsChain Printed.Slashed) :
    TooDeep (parseExpression e.text) ∨ ∃ found, parseExpression e.text = .ok found ∧
      e.Rereads found := by
  obtain ⟨hsound, hordinary⟩ := parseExpressionAt_whole h
  have hfit : e.FitAt 0 := (hsound 0).fit hfaithful
  obtain ⟨tail, htail⟩ := e.printed_eq_cons 0 .joined
  have hopens := e.first_opens hfit (Expr.isOrdinary.ne_spread hordinary)
  refine e.reparse hfit hordinary ((hsound 0).spelled htame) ?_ hslashed
  rw [htail]
  rintro _ ⟨⟩
  exact fitsSlash_of_opens hopens

/-- What is read of the texts below, evaluated together: two as they are, and two whose trees are
printed as texts that cannot be read. -/
theorem parse_examples :
    (match parseExpression "x => new y.z(x)" with
    | .ok (.arrow _ [.ident _ k] (.expression (.new _ (.dot _ (.ident _ l) false m _)
        [.ident _ n]))) => decide ([k, l, m, n] = ["x", "y", "z", "x"])
    | _ => false) = true ∧
    (match parseProgram "for (x of [a]) ;" with
    | .ok ⟨[.forEach _ (.expression (.ident _ m)) (.array _ [some (.ident _ n)]) (.empty _) true],
        _⟩ => decide ([m, n] = ["x", "a"])
    | _ => false) = true ∧
    (match parseExpression "() => ({}).x" with
    | .ok e => match parseExpression e.text with
      | .ok _ => false
      | .error error => error.cause != .nestedTooDeep
    | .error _ => false) = true ∧
    (match parseProgram "for (x of (a, b)) ;" with
    | .ok p => match parseProgram p.text with
      | .ok _ => false
      | .error error => error.cause != .nestedTooDeep
    | .error _ => false) = true := by
  decide +kernel

/-- An arrow function that creates something from its argument is printed as it was written. -/
theorem parseExpression_reprint_arrow : ∃ e, parseExpression "x => new y.z(x)" = .ok e ∧
    (TooDeep (parseExpression e.text) ∨ ∃ found, parseExpression e.text = .ok found ∧
      e.Rereads found) := by
  have hparse : ∃ s t u v w a b, parseExpression "x => new y.z(x)" = .ok (.arrow s [.ident t "x"]
      (.expression (.new u (.dot v (.ident w "y") false "z" a) [.ident b "x"]))) := by
    obtain ⟨hshape, -⟩ := parse_examples
    split at hshape
    · rename_i hparse
      rw [hparse]
      cases of_decide_eq_true hshape
      exact ⟨_, _, _, _, _, _, _, rfl⟩
    · cases hshape
  obtain ⟨s, t, u, v, w, a, b, hparse⟩ := hparse
  refine ⟨_, hparse, parseExpression_reprint hparse ?_ ?_ ?_⟩
  · simp only [Expr.inside, visitAll, ArrowBody.inside, everywhere_expr, everywhere_append,
      everywhere_nil, Node.Tame, Expr.Tame, and_true]
  · simp only [Expr.inside, visitAll, ArrowBody.inside, everywhere_expr, everywhere_append,
      everywhere_nil, Node.Faithful, Expr.Faithful, and_true]
    exact ⟨.inr (.inr fun h => by cases h), by decide, .inr rfl, ⟨True.intro, by decide⟩, by decide⟩
  · iterate 10 refine .cons_cons rfl ?_
    exact .singleton _

/-- The printer drops the parentheses around an object whose member is the body of an arrow
function, and the braces are read as a block. -/
theorem arrow_of_object_member_not_reprinted : ∃ e, parseExpression "() => ({}).x" = .ok e ∧
    ¬(TooDeep (parseExpression e.text) ∨ ∃ found, parseExpression e.text = .ok found ∧
      e.Rereads found) := by
  obtain ⟨-, -, hfails, -⟩ := parse_examples
  split at hfails
  · rename_i e hparse
    refine ⟨e, hparse, ?_⟩
    rintro (⟨position, hdeep⟩ | ⟨found, hfound, -⟩)
    · rw [hdeep] at hfails
      exact absurd (bne_iff_ne.1 hfails) (not_not_intro rfl)
    · rw [hfound] at hfails
      cases hfails
  · cases hfails

/-! ## Scripts -/

/-- **A parsed script is parsed back from its printed text**, unless that nests too deep. -/
theorem parseProgram_reprint {text : String} {p : Program} (h : parseProgram text = .ok p)
    (htame : Everywhere Node.Tame p.visits) (hfaithful : Everywhere Node.Faithful p.visits)
    (hslashed : p.printed.IsChain Printed.Slashed) :
    TooDeep (parseProgram p.text) ∨ ∃ found, parseProgram p.text = .ok found ∧
      List.Forall₂ Stmt.Rereads p.body found.body := by
  have hformed : Everywhere Node.Formed p.visits := visitBody_sound (parseProgram_sound h) 0
  have hfit : AllFit p.visits := hformed.fit hfaithful
  refine p.reparse hfit (hformed.spelled htame) ?_ hslashed
  obtain ⟨body, span⟩ := p
  cases body with
  | nil => exact nofun
  | cons s rest =>
    have hs : s.FitAt 0 := (allFit_append.1 hfit).1
    obtain ⟨t, us, hprinted, hslash⟩ := Stmt.printed_fitsSlash hs 0 .joined
    show ∀ t ∈ (s.printed 0 .joined ++ printedLines 0 rest).head?, t.body.fitsSlash true = true
    rw [hprinted]
    rintro _ ⟨⟩
    exact hslash

/-- A loop over the items of an array is printed as it was written. -/
theorem parseProgram_reprint_loop : ∃ p, parseProgram "for (x of [a]) ;" = .ok p ∧
    (TooDeep (parseProgram p.text) ∨ ∃ found, parseProgram p.text = .ok found ∧
      List.Forall₂ Stmt.Rereads p.body found.body) := by
  have hparse : ∃ p s t u v w, parseProgram "for (x of [a]) ;" =
      .ok ⟨[.forEach s (.expression (.ident t "x")) (.array u [some (.ident v "a")]) (.empty w) true],
        p⟩ := by
    obtain ⟨-, hshape, -⟩ := parse_examples
    split at hshape
    · rename_i hparse
      rw [hparse]
      cases of_decide_eq_true hshape
      exact ⟨_, _, _, _, _, _, rfl⟩
    · cases hshape
  obtain ⟨p, s, t, u, v, w, hparse⟩ := hparse
  refine ⟨_, hparse, parseProgram_reprint hparse ?_ ?_ ?_⟩
  · simp only [Program.visits, visitBody, Stmt.inside, ForInit.inside, Expr.inside, visitItems,
      visitOptional, everywhere_stmt, everywhere_expr, everywhere_append, everywhere_nil, Node.Tame,
      Expr.Tame, and_true]
  · simp only [Program.visits, visitBody, Stmt.inside, ForInit.inside, Expr.inside, visitItems,
      visitOptional, everywhere_stmt, everywhere_expr, everywhere_append, everywhere_nil,
      Node.Faithful, Stmt.Faithful, Expr.Faithful, ForInit.Faithful, and_true]
    have hstrength : Strength.assignment ≤ Strength.primary := by decide
    refine ⟨⟨⟨by simp [Expr.hidesIn], by simp [Expr.looksDeclared]⟩, ?_, fun _ => hstrength⟩,
      by decide, True.intro, by decide⟩
    rintro _ ⟨⟩
    rfl
  · iterate 8 refine .cons_cons rfl ?_
    exact .singleton _

/-- The printer drops the parentheses around a comma expression after `of`, where the grammar needs
them. -/
theorem forEach_of_sequence_not_reprinted : ∃ p, parseProgram "for (x of (a, b)) ;" = .ok p ∧
    ¬(TooDeep (parseProgram p.text) ∨ ∃ found, parseProgram p.text = .ok found ∧
      List.Forall₂ Stmt.Rereads p.body found.body) := by
  obtain ⟨-, -, -, hfails⟩ := parse_examples
  split at hfails
  · rename_i p hparse
    refine ⟨p, hparse, ?_⟩
    rintro (⟨position, hdeep⟩ | ⟨found, hfound, -⟩)
    · rw [hdeep] at hfails
      exact absurd (bne_iff_ne.1 hfails) (not_not_intro rfl)
    · rw [hfound] at hfails
      cases hfails
  · cases hfails

end WidgetLint.Script
