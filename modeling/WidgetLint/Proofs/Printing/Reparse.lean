import Mathlib.Data.List.Forall2
import WidgetLint.Proofs.Printing.ReadBack
import WidgetLint.Proofs.Printing.Spelled
import WidgetLint.Proofs.Script.Origin

/-!
# Parsing printed text

**A fit tree is parsed back from its text** (`Expr.reparse`, `Program.reparse`): printing cuts into
the tokens of the layout, and reading those gives the tree. Two things beyond the tree itself can
stand in the way: a slash that is read as something else than it was printed for, and a tree that
nests too deep.
-/

namespace WidgetLint.Script

open Text WidgetLint.Script.Parser

variable {α : Type} {e : Expr} {ts : List Printed} {d : Nat}

/-! ## Outcomes -/

/-- Parsing gives up because the text nests too deep. -/
def TooDeep (outcome : Except ScriptError α) : Prop :=
  ∃ position, outcome = .error ⟨.nestedTooDeep, position⟩

/-- The expression is the other one, up to positions and to keys whose quotes were dropped. -/
def Expr.Rereads (e : Expr) (found : Expr) : Prop :=
  found.move (fun _ => .first) = e.relabel .plain

def Stmt.Rereads (s : Stmt) (found : Stmt) : Prop :=
  found.move (fun _ => .first) = s.relabel .plain

section
variable {p : Parser α} {g : α → α} {a : α} {tokens : Tokens}
  (halike : Alike (.moving fun _ => .first) (Image g) p p)
  (htokens : tokens.move (fun _ => .first) = ⟨asTokens ts, endToken⟩)
include halike htokens

/-- Reading the tokens of a text comes to the same as reading them without their places. -/
theorem Parser.matches_reading :
    Matches (.moving fun _ => .first) (Image g) (p (inputOf tokens .first)) (p (reading ts)) := by
  have hinput : (inputOf tokens .first).move (fun _ => .first) = reading ts := by
    rw [← inputOf_move, htokens]
    rfl
  have hmatch := halike (inputOf tokens .first)
  rwa [Input.respell_moving, hinput] at hmatch

/-- What a reader returns on tokens without places it returns on the tokens of a text. -/
theorem Parser.run_of_reading {i : Input} (h : p (reading ts) = .ok (a, i)) :
    ∃ b input, p (inputOf tokens .first) = .ok (b, input) ∧ g b = a := by
  have hmatch := matches_reading halike htokens
  rw [h] at hmatch
  match hrun : p (inputOf tokens .first) with
  | .ok (b, input) =>
    rw [hrun] at hmatch
    exact ⟨b, input, rfl, hmatch.1.symm⟩
  | .error error =>
    rw [hrun] at hmatch
    exact hmatch.elim

theorem Parser.Gives.run (h : Gives p ts a []) :
    (∃ position, p (inputOf tokens .first) = .error ⟨.nestedTooDeep, position⟩) ∨
      ∃ b input, p (inputOf tokens .first) = .ok (b, input) ∧ g b = a := by
  rcases h with h | h
  · exact .inr (run_of_reading halike htokens h)
  · have hmatch := matches_reading halike htokens
    rw [h] at hmatch
    match hrun : p (inputOf tokens .first) with
    | .ok (b, input) =>
      rw [hrun] at hmatch
      exact hmatch.elim
    | .error ⟨cause, position⟩ =>
      rw [hrun] at hmatch
      have herror := hmatch.trans (ScriptError.respell_moving _ _)
      have hcause : Cause.nestedTooDeep = cause := congrArg ScriptError.cause herror
      exact .inl ⟨position, by rw [hcause]⟩

end

/-! ## Expressions -/

theorem wholeExpression_gives (hfit : e.FitAt d) (hordinary : e.isOrdinary) :
    Gives wholeExpression (e.printed 0 .joined) (e.relabel .plain) [] := by
  have hback := (e.readBack 0 d hfit).whole hordinary .joined
  have hread := hback.sequence false (nestingBudget / nestCost) nestingBudget [] nofun stops_nil
  rw [List.append_nil] at hread
  exact hread.bind (atEnd_gives.bind (Leads.refl _ _))

/-- **A fit expression is parsed back from its text**, if its slashes are read as they were
printed. -/
theorem Expr.reparse (hfit : e.FitAt d) (hordinary : e.isOrdinary)
    (hspelled : Everywhere Node.Spelled (e.visit d (e.inside (d + 1))))
    (hfirst : ∀ p ∈ (e.printed 0 .joined).head?, p.body.fitsSlash true = true)
    (hslashed : (e.printed 0 .joined).IsChain Printed.Slashed) :
    TooDeep (parseExpression e.text) ∨ ∃ found, parseExpression e.text = .ok found ∧
      e.Rereads found := by
  have hreadable : Readable (e.printed 0 .joined) :=
    ⟨e.plain 0 d .joined hspelled, (e.closed 0 .joined).tidy, hfirst, hslashed⟩
  have htext : e.text.toList = written (e.printed 0 .joined) := (e.spells 0 .joined).symm
  obtain ⟨tokens, htokenize, htokens⟩ := tokenize_written hreadable htext
  rw [parseExpression, parseExpressionAt_eq, htokenize]
  rcases Gives.run wholeExpression_alike htokens (wholeExpression_gives hfit hordinary) with
    ⟨position, hrun⟩ | ⟨found, input, hrun, hfound⟩
  · simp only [hrun]
    exact .inl ⟨position, rfl⟩
  · simp only [hrun]
    exact .inr ⟨found, rfl, hfound⟩

/-! ## Scripts -/

/-- The tokens of a script; its first statement starts the text. -/
def Program.printed (p : Program) : List Printed :=
  match p.body with
  | [] => []
  | s :: rest => s.printed 0 .joined ++ printedLines 0 rest

theorem Program.written_printed (p : Program) : written p.printed = p.text.toList := by
  obtain ⟨body, span⟩ := p
  cases body with
  | nil => rfl
  | cons s rest =>
    have hlines := cons_intercalate_eq_onLines (pad 0 ++ s.render 0) (renderLines 0 rest)
    have hs := s.spells 0 .joined
    have hrest := printedLines_spells 0 rest
    rw [Program.printed, written_append, hs, hrest, Program.text, renderLines]
    refine (List.cons_inj_right '\n').1 (Eq.trans ?_ hlines.symm)
    simp [onLines, pad]

/-- The reader of one statement of a script. -/
def nextStatement : Parser (Option Stmt) := do
  if ← atEnd then return none else return some (← top.statement)

theorem nextStatement_gives {t : Printed} {us vs : List Printed} (h : t.body.beginsStatement)
    {s : Stmt} (hread : Gives top.statement (t :: us) s vs) :
    Gives nextStatement (t :: us) (some s) vs := by
  have heof : (t.token.body == .eof) = false := by
    simp only [TokenBody.beginsStatement, Bool.and_eq_true, bne_iff_ne] at h
    simpa using h.1.2
  refine atEnd_gives.bind ?_
  rw [ahead_cons, heof, if_neg Bool.false_ne_true]
  exact hread.bind (Leads.refl _ _)

theorem statements_gives {p : Program} (hfit : AllFit (visitBody d p.body)) :
    Gives statements p.printed (relabelBody .plain p.body) [] := by
  obtain ⟨body, span⟩ := p
  have hback := readBackBody 0 d body hfit
  have hend : Gives nextStatement [] none [] := atEnd_gives.bind (Leads.refl _ _)
  have hprecedes (s : Stmt) : s.Precedes [] := ⟨fun _ => rfl, rfl⟩
  cases body with
  | nil => exact many_gives (.done hend)
  | cons s rest =>
    -- The first statement has no line break before it, the others are read like those of a block.
    have hrestFit : AllFit (visitBody d rest) := by
      rw [visitBody] at hfit
      exact (allFit_append.1 hfit).2
    have hrest := lines_read (nestingBudget / nestCost) nestingBudget hrestFit
      (fun s hs => hback s (List.mem_cons_of_mem _ hs)) hprecedes hend
      fun _ _ hbegins _ _ hread => nextStatement_gives hbegins hread
    have hfirst := hback s List.mem_cons_self .joined (nestingBudget / nestCost) nestingBudget
      (printedLines 0 rest ++ []) (precedes_lines hrestFit (hprecedes s) 0)
    obtain ⟨t, us, hprinted, hbegins⟩ :=
      Stmt.printed_eq_cons (hfit.of_mem_body List.mem_cons_self) 0 .joined
    have htokens : Program.printed ⟨s :: rest, span⟩ = t :: (us ++ printedLines 0 rest) :=
      congrArg (· ++ printedLines 0 rest) hprinted
    rw [List.append_nil] at hrest hfirst
    rw [hprinted, List.cons_append] at hfirst
    rw [htokens]
    refine many_gives (.more (nextStatement_gives hbegins hfirst) ?_ hrest)
    simp only [List.length_cons, List.length_append]
    omega

theorem parseProgram_eq (text : String) :
    parseProgram text =
      match tokenize text .first with
      | .error e => .error e
      | .ok tokens =>
        match statements (inputOf tokens .first) with
        | .error e => .error e
        | .ok (body, _) => .ok ⟨body, ⟨.first, tokens.last.span.stop⟩⟩ := by
  unfold parseProgram
  cases tokenize text .first with
  | error e => rfl
  | ok tokens =>
    show (statements (inputOf tokens .first) >>= fun x =>
        pure (Program.mk x.1 ⟨.first, tokens.last.span.stop⟩)) =
      match statements (inputOf tokens .first) with
      | .error e => .error e
      | .ok (body, _) => .ok (Program.mk body ⟨.first, tokens.last.span.stop⟩)
    cases statements (inputOf tokens .first) <;> rfl

theorem Program.tidy (p : Program) : Tidy p.printed := by
  obtain ⟨body, span⟩ := p
  cases body with
  | nil => exact .nil
  | cons s rest =>
    exact ((s.closed 0 .joined).join (printedLines_closed 0 rest)
      (printedLines_follows 0 rest)).tidy

theorem Program.plain {p : Program} (h : Everywhere Node.Spelled (visitBody d p.body)) :
    AllPlain p.printed := by
  obtain ⟨body, span⟩ := p
  cases body with
  | nil => exact allPlain_nil
  | cons s rest =>
    rw [visitBody] at h
    obtain ⟨hs, hrest⟩ := everywhere_append.1 h
    exact .append (s.plain 0 d .joined hs) (printedLines_plain 0 d rest hrest)

/-- **A fit script is parsed back from its text**, if its slashes are read as they were printed. -/
theorem Program.reparse {p : Program} (hfit : AllFit (visitBody d p.body))
    (hspelled : Everywhere Node.Spelled (visitBody d p.body))
    (hfirst : ∀ t ∈ p.printed.head?, t.body.fitsSlash true = true)
    (hslashed : p.printed.IsChain Printed.Slashed) :
    TooDeep (parseProgram p.text) ∨ ∃ found, parseProgram p.text = .ok found ∧
      List.Forall₂ Stmt.Rereads p.body found.body := by
  have hreadable : Readable p.printed := ⟨p.plain hspelled, p.tidy, hfirst, hslashed⟩
  obtain ⟨tokens, htokenize, htokens⟩ := tokenize_written hreadable p.written_printed.symm
  rw [parseProgram_eq, htokenize]
  rcases Gives.run statements_alike htokens (statements_gives hfit) with
    ⟨position, hrun⟩ | ⟨found, input, hrun, hfound⟩
  · simp only [hrun]
    exact .inl ⟨position, rfl⟩
  · simp only [hrun]
    refine .inr ⟨_, rfl, ?_⟩
    rw [relabelBody_eq] at hfound
    have hsame : List.Forall₂ Eq (found.map (Stmt.move fun _ => .first))
        (p.body.map (Stmt.relabel .plain)) := by
      rw [show found.map (Stmt.move fun _ => .first) = _ from hfound]
      exact List.forall₂_refl _
    rw [List.forall₂_map_left_iff, List.forall₂_map_right_iff] at hsame
    exact hsame.flip

end WidgetLint.Script
