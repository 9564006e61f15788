import WidgetLint.Proofs.Inset.Blind
import WidgetLint.Proofs.Inset.Cut
import WidgetLint.Proofs.Inset.Stmt
import WidgetLint.Proofs.Printing.Lists

/-!
# Values read within a script

What a text spells alone it also spells as the value of a member in a script
(`exists_valueTokens`), save for comma expressions and for the budget.
-/

namespace WidgetLint.Script

open Text WidgetLint.Script.Parser

/-! ## Tokens without places -/

def Shape.printed (s : Shape) : Printed :=
  ⟨if s.newlineBefore then .line 0 else .joined, s.body⟩

theorem Shape.shape_printed (s : Shape) : s.printed.token.shape = s := by
  obtain ⟨body, newlineBefore⟩ := s
  cases newlineBefore <;> rfl

def printedShapes (shapes : List Shape) : List Printed :=
  shapes.map Shape.printed

theorem map_shape_printed (shapes : List Shape) :
    (asTokens (printedShapes shapes)).map Token.shape = shapes := by
  induction shapes with
  | nil => rfl
  | cons s shapes ih =>
    rw [printedShapes, List.map_cons, asTokens_cons, List.map_cons, s.shape_printed]
    exact congrArg _ ih

/-- Whether an expression is a comma expression. -/
def Expr.isSequence : Expr → Bool
  | .sequence .. => true
  | _ => false

theorem Expr.isSequence_move (f : Position → Position) (e : Expr) :
    (e.move f).isSequence = e.isSequence := by
  cases e <;> rfl

namespace Parser

theorem asTokens_move (ts : List Printed) :
    (asTokens ts).map (Token.move fun _ => .first) = asTokens ts := by
  induction ts with
  | nil => rfl
  | cons t ts ih =>
    rw [asTokens_cons, List.map_cons, ih]
    rfl

theorem Alike.run_fixed {α : Type} {g : α → α} {p : Parser α} {i : Input}
    (h : Alike (.moving fun _ => .first) (Image g) p p) (hi : i.move (fun _ => .first) = i) :
    (∀ a j, p i = .ok (a, j) → g a = a ∧ j.move (fun _ => .first) = j) ∧
      ∀ e, p i = .error e → e.position = .first := by
  have hmatch := h i
  rw [Input.respell_moving, hi] at hmatch
  refine ⟨fun a j hrun => ?_, fun e hrun => ?_⟩
  · rw [hrun] at hmatch
    exact ⟨hmatch.1.symm, hmatch.2.symm⟩
  · rw [hrun] at hmatch
    exact congrArg ScriptError.position hmatch

theorem stop_of_mem_asTokens {ts : List Printed} {t : Token} (h : t ∈ asTokens ts) :
    t.span.stop = .first := by
  obtain ⟨p, -, rfl⟩ := List.mem_map.1 h
  rfl

theorem reading_move (ts : List Printed) : (reading ts).move (fun _ => .first) = reading ts := by
  rw [Input.move, reading, asTokens_move]
  rfl

theorem Finds.gives {α : Type} {g : α → α} {p : Parser α} {poorer : Prop} {ts us : List Printed}
    {a : α} (halike : Alike (.moving fun _ => .first) (Image g) p p)
    (h : Finds poorer p (reading ts) (a = ·) (· = reading us)) : Gives p ts a us := by
  rcases h with ⟨b, _, hrun, rfl, rfl⟩ | ⟨-, position, hrun⟩
  · exact .inl hrun
  · obtain rfl : position = .first := (halike.run_fixed (reading_move ts)).2 _ hrun
    exact .inr hrun

/-! ## Values alone -/

/-- An expression that is no comma expression is read as the value of an assignment. -/
theorem wholeExpression_assignment {i : Input} {e : Expr} {j : Input}
    (h : wholeExpression i = .ok (e, j)) (hsequence : e.isSequence = false) :
    top.assignment false i = .ok (e, j) ∧ j.current.body = .eof := by
  obtain ⟨found, mid, hsequenceRun, hend⟩ := bind_ok h
  obtain ⟨start, _, hstart, hfirstRun⟩ := bind_ok hsequenceRun
  cases hstart
  obtain ⟨first, after, hassignment, hcommaRun⟩ := bind_ok hfirstRun
  obtain ⟨comma, _, hcheck, hcommaRun⟩ := bind_ok hcommaRun
  cases hcheck
  obtain ⟨atEnd, _, hatEnd, hend⟩ := bind_ok hend
  cases hatEnd
  have heof : mid.current.body = .eof ∧ found = e ∧ mid = j := by
    by_cases hbody : (mid.current.body == .eof) = true
    · rw [hbody] at hend
      cases hend
      exact ⟨beq_iff_eq.1 hbody, rfl, rfl⟩
    · rw [Bool.not_eq_true] at hbody
      rw [hbody] at hend
      cases hend
  obtain ⟨heof, rfl, rfl⟩ := heof
  by_cases hcomma : after.current.isSymbol .comma = true
  · rw [if_pos hcomma] at hcommaRun
    obtain ⟨others, _, -, hlast⟩ := bind_ok hcommaRun
    obtain ⟨span, _, -, hlast⟩ := bind_ok hlast
    cases hlast
    cases hsequence
  · rw [if_neg hcomma] at hcommaRun
    cases hcommaRun
    exact ⟨hassignment, heof⟩

/-- The input of a text that is read alone, without places. -/
def readingTo (ts : List Printed) (last : Token) : Input :=
  ⟨asTokens ts, last, .first⟩

theorem readingTo_move (ts : List Printed) (newline : Bool) :
    (readingTo ts (Shape.token ⟨.eof, newline⟩)).move (fun _ => .first) =
      readingTo ts (Shape.token ⟨.eof, newline⟩) := by
  rw [Input.move, readingTo, asTokens_move]
  rfl

/-- **What is read alone is read in a larger text**, where a comma or a closing brace follows. -/
theorem assignment_inset {ts us : List Printed} {newline : Bool} {e : Expr} {j : Input}
    (hbodies : ∀ t ∈ ts, t.body ≠ .eof)
    (h : top.assignment false (readingTo ts (Shape.token ⟨.eof, newline⟩)) = .ok (e, j))
    (hend : j.current.body = .eof) (hus : Separates .rbrace us) (d b : Nat) :
    Gives ((level d b).assignment false) (ts ++ us) e us := by
  obtain ⟨l, s, vs, rfl, hs⟩ := hus
  have hfollows : ∃ s' ∈ followers, (Printed.symbol l s).token.body = .symbol s' := by
    rcases hs with rfl | rfl
    · exact ⟨.comma, by decide, rfl⟩
    · exact ⟨.rbrace, by decide, rfl⟩
  let c : Inset :=
    { last := Shape.token ⟨.eof, newline⟩, next := (Printed.symbol l s).token,
      after := asTokens vs, final := endToken, eof := rfl, follows := hfollows, start := rfl,
      poorer := True }
  let i : Input := readingTo ts (Shape.token ⟨.eof, newline⟩)
  have hagree : Keeps c .whole (fun _ => True) 0 (top.assignment false)
      ((level d b).assignment false) := (level_agrees (.inl True.intro)).assignment false
  have hi : c.Fits i := ⟨rfl, fun t ht => stop_of_mem_asTokens ht, rfl⟩
  obtain ⟨hj, -, ⟨read, hread, hshifts⟩, hfinds⟩ := hagree i e j hi True.intro h
  have hnil : j.rest = [] := by
    refine rest_eq_nil hread (fun t ht => ?_) hend
    obtain ⟨p, hp, rfl⟩ := List.mem_map.1 ht
    exact hbodies p hp
  have hclosed : AllClosed i.rest := by
    rw [hread, hnil, List.append_nil]
    exact hshifts.allClosed
  have hput : c.put i = reading (ts ++ .symbol l s :: vs) := by
    simp only [Inset.put, c, i, readingTo, reading, asTokens_append]
    rfl
  have hleft : c.put j = reading (.symbol l s :: vs) := by
    have hprev : j.prevEnd = .first := hj.prevEnd
    simp only [Inset.put, c, hnil, hprev, reading]
    rfl
  have hfound : Finds True ((level d b).assignment false) (c.put i) (e = ·) (· = c.put j) :=
    (hfinds hclosed (by simp)).imp fun _ hlands => hlands.resolve_right (by simp)
  rw [hput, hleft] at hfound
  exact hfound.gives ((level_natural _ _).assignment false)

theorem assignment_leadOn {shapes : List Shape} {us vs : List Printed} {e : Expr} {d b : Nat}
    (h : Gives ((level d b).assignment false) (printedShapes shapes ++ us) e vs) :
    Gives ((level d b).assignment false) (printedShapes (Lexer.leadOn true shapes) ++ us) e vs := by
  cases shapes with
  | nil => exact h
  | cons s shapes =>
    have hreflows : Reflows (reading (printedShapes (s :: shapes) ++ us))
        (reading (printedShapes (Lexer.leadOn true (s :: shapes)) ++ us)) :=
      ⟨s.printed.token, _, true, rfl, rfl⟩
    have hsame := (level_blind d b).assignment false _ _ hreflows
    exact Leads.trans (.inl hsame) h

end Parser

/-- The tokens of a value in a script, where it stands on lines of its own: what they are cut from
and which expression they spell. -/
structure ValueTokens (text : String) (e : Expr) (shapes : List Shape) : Prop where
  length : shapes.length ≤ text.length
  cuts : ∀ {l : Lexer} {more : List Char} {newline : Bool},
    l.Before ('\n' :: (text.toList ++ '\n' :: more)) newline → l.regexAllowed = true →
      ∃ after, l.Cuts shapes after ∧ after.Before more true
  reads : ∀ d b {us : List Printed}, Separates .rbrace us →
    Gives ((level d b).assignment false) (printedShapes shapes ++ us) (e.move fun _ => .first) us

/-- **What a text spells alone it spells as a value in a script.** -/
theorem exists_valueTokens {text : String} {e : Expr} (h : parseExpression text = .ok e)
    (hsequence : e.isSequence = false) : ∃ shapes, ValueTokens text e shapes := by
  rw [parseExpression, parseExpressionAt_eq] at h
  split at h
  · cases h
  rename_i tokens htokens
  split at h
  · cases h
  rename_i e' j hrun
  cases h
  obtain ⟨hbodies, hlast⟩ := Lexer.bodies_of_tokensFrom htokens
  have hlength := Lexer.length_items_lt htokens
  -- the same tokens without their places
  let shapes := tokens.items.map Token.shape
  let last := Shape.token ⟨.eof, tokens.last.newlineBefore⟩
  have hshapes : tokens.shapes = (Tokens.mk (asTokens (printedShapes shapes)) last).shapes := by
    have hlast' : tokens.last.shape = last.shape := by
      rw [Token.shape, hlast]
      rfl
    rw [Tokens.shapes, Tokens.shapes, map_shape_printed, hlast']
  have hsame := wholeExpression_alike.sameReading hshapes .first .first
  rw [hrun] at hsame
  cases hrun' : wholeExpression (inputOf ⟨asTokens (printedShapes shapes), last⟩ .first) with
  | error error =>
    rw [hrun'] at hsame
    exact hsame.elim
  | ok found =>
    obtain ⟨e', j'⟩ := found
    rw [hrun'] at hsame
    have hmoved : e.move (fun _ => .first) = e'.move (fun _ => .first) := hsame
    have hsequence' : e'.isSequence = false := by
      rw [← e'.isSequence_move fun _ => .first, ← hmoved, Expr.isSequence_move, hsequence]
    obtain ⟨hassignment, hend⟩ := wholeExpression_assignment hrun' hsequence'
    have hprinted : ∀ t ∈ printedShapes shapes, t.body ≠ .eof := by
      intro t ht
      obtain ⟨s, hs, rfl⟩ := List.mem_map.1 ht
      obtain ⟨token, htoken, rfl⟩ := List.mem_map.1 hs
      exact hbodies token htoken
    refine ⟨Lexer.leadOn true shapes, ?_, fun hl hallowed => hl.cuts_value hallowed htokens, ?_⟩
    · rw [Lexer.length_leadOn, List.length_map]
      omega
    · intro d b us hus
      have hplaces : e'.move (fun _ => .first) = e' :=
        ((((level_natural _ _).assignment false).run_fixed (readingTo_move _ _)).1 _ _ hassignment).1
      rw [hmoved, hplaces]
      exact assignment_leadOn (assignment_inset hprinted hassignment hend hus d b)

end WidgetLint.Script
