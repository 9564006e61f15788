import WidgetLint.Proofs.Inset.Chain
import WidgetLint.Proofs.Inset.Cut
import WidgetLint.Proofs.Printing.Reparse

/-!
# Scripts written one after the other

Two scripts with a semicolon on a line of its own between them are read as the statements of the
first one and those of the second one, perhaps with an empty statement between them
(`parseProgram_joined`). Nothing of the first script is left over for the second one: the lexer
starts it on a new line outside of any template, where a slash would begin a pattern, and the grammar
starts it with the whole budget.
-/

namespace WidgetLint.Script

open Text WidgetLint.Script.Parser

/-! ## Tokens on a new line -/

/-- The tokens of a text in front of which a line ends. -/
def Tokens.onLine (tokens : Tokens) : Tokens :=
  match tokens.items with
  | [] => ⟨[], tokens.last.onLine true⟩
  | t :: rest => ⟨t.onLine true :: rest, tokens.last⟩

theorem Tokens.onLine_move (f : Position → Position) (tokens : Tokens) :
    (tokens.move f).onLine = tokens.onLine.move f := by
  obtain ⟨_ | ⟨t, rest⟩, last⟩ := tokens <;> rfl

theorem Tokens.length_items_onLine (tokens : Tokens) :
    tokens.onLine.items.length = tokens.items.length := by
  obtain ⟨_ | ⟨t, rest⟩, last⟩ := tokens <;> rfl

namespace Lexer

variable {l m : Lexer} {t : Token} {tokens : Tokens} {fuel : Nat}

def onLine (l : Lexer) : Lexer :=
  { l with newlineBefore := true }

theorem next_onLine (h : l.next = (.ok t, m)) : l.onLine.next = (.ok (t.onLine true), m) := by
  have hgap : gapFrom .blank l.onLine.newlineBefore l.onLine.lineStart 0 l.onLine.cursor.rest =
      (gapFrom .blank l.newlineBefore l.lineStart 0 l.cursor.rest).shift 0 true := by
    rw [← gapFrom_shift]
    rfl
  rw [Lexer.next, hgap]
  rw [Lexer.next] at h
  generalize gapFrom .blank l.newlineBefore l.lineStart 0 l.cursor.rest = gap at h ⊢
  obtain ⟨newline, lineStart, ⟨_, size⟩ | _⟩ := gap
  · dsimp only [Gap.shift, Scanned.shift] at h ⊢
    unfold Lexer.readToken at h ⊢
    dsimp only [afterGap, onLine, Nat.add_zero] at h ⊢
    split at h
    · cases h
      rfl
    · cases h
  · cases h

theorem tokensFrom_onLine (h : l.tokensFrom fuel = .ok tokens) :
    l.onLine.tokensFrom fuel = .ok tokens.onLine := by
  cases fuel with
  | zero => cases h
  | succ fuel =>
    rw [tokensFrom] at h ⊢
    split at h
    · cases h
    rename_i t m hnext
    rw [next_onLine hnext]
    dsimp only
    have hbody : (t.onLine true).body = t.body := rfl
    rw [hbody]
    split at h
    · rename_i heof
      cases h
      rw [if_pos heof]
      rfl
    · rename_i heof
      rw [if_neg heof]
      split at h
      · cases h
        rfl
      · cases h

theorem tokensFrom_mono {fuel' : Nat} (h : l.tokensFrom fuel = .ok tokens) (hfuel : fuel ≤ fuel') :
    l.tokensFrom fuel' = .ok tokens := by
  induction fuel generalizing l tokens fuel' with
  | zero => cases h
  | succ fuel ih =>
    obtain ⟨fuel', rfl⟩ : ∃ f, fuel' = f + 1 := ⟨fuel' - 1, by omega⟩
    rw [tokensFrom] at h ⊢
    split at h
    · cases h
    split at h
    · rename_i heof
      rw [if_pos heof]
      exact h
    rename_i heof
    rw [if_neg heof]
    split at h
    · rename_i hothers
      rw [ih hothers (by omega)]
      exact h
    · cases h

end Lexer

/-! ## Two texts in one -/

/-- The second text behind the first one and a semicolon on a line of its own. -/
def joined (first second : String) : String :=
  first ++ "\n;\n" ++ second

theorem length_joined (first second : String) :
    (joined first second).length = first.length + second.length + 3 := by
  rw [joined, String.length_append, String.length_append, show "\n;\n".length = 3 by decide]
  omega

theorem toList_joined (first second : String) :
    (joined first second).toList = first.toList ++ '\n' :: ';' :: '\n' :: second.toList := by
  simp [joined]

/-- **Both texts are cut into the tokens that they have alone**, with that of the semicolon between
them. -/
theorem tokenize_joined {first second : String} {tokens tokens' : Tokens}
    (h : tokenize first .first = .ok tokens) (h' : tokenize second .first = .ok tokens') :
    ∃ both, tokenize (joined first second) .first = .ok both ∧ both.shapes =
      (tokens.shapes.1 ++ ⟨.symbol .semicolon, true⟩ :: tokens'.onLine.shapes.1,
        tokens'.onLine.shapes.2) := by
  have hencloses : Lexer.Encloses (';' :: '\n' :: second.toList) (Lexer.start first .first)
      (Lexer.start (joined first second) .first) :=
    ⟨toList_joined first second, fun hnewline => hnewline, rfl, rfl, rfl⟩
  obtain ⟨behind, hfirst, hbehind⟩ := hencloses.cuts rfl h
  have hleadOn : Lexer.leadOn (Lexer.start (joined first second) .first).newlineBefore
      tokens.shapes.1 = tokens.shapes.1 := Lexer.leadOn_false _
  rw [hleadOn] at hfirst
  obtain ⟨after, hsemicolon, hafter, hallowed⟩ :=
    Lexer.Before.cuts_symbol (s := .semicolon) hbehind (by rintro _ ⟨⟩; decide) fun _ => rfl
  -- behind the semicolon the lexer stands where it starts alone, but on a new line and elsewhere
  have hline := Lexer.next_line hafter.rest
  have hstart : Lexer.mk (after.cursor.drop 1) true true after.regexAllowed after.templateDepth =
      (Lexer.start second (after.cursor.drop 1).position).onLine := by
    have hrest : (after.cursor.drop 1).rest = second.toList := by
      rw [Cursor.drop, hafter.rest]
      rfl
    rw [Lexer.onLine, Lexer.start, ← hrest, hallowed, hafter.templateDepth]
    rfl
  rw [hstart] at hline
  have htokens : tokenize second (after.cursor.drop 1).position =
      .ok (tokens'.move (·.translate (after.cursor.drop 1).position)) := by
    rw [tokenize_eq_translate, h']
    rfl
  have hcuts := hfirst.append (hsemicolon.append (.stay hline))
  obtain ⟨both, hboth, hshapes⟩ := hcuts.tokensFrom (Lexer.tokensFrom_onLine htokens)
  refine ⟨both, Lexer.tokensFrom_mono hboth ?_, ?_⟩
  · have hlength : tokens.shapes.1.length < first.length + 1 := by
      rw [Tokens.shapes, List.length_map]
      exact Lexer.length_items_lt h
    rw [length_joined, List.length_append]
    simp only [List.append_nil, List.length_singleton]
    omega
  · rw [hshapes, Tokens.onLine_move, Tokens.shapes_move]
    simp

/-! ## Two scripts in one -/

/-- Statements are equal up to their places. -/
def SameStatements (ss ts : List Stmt) : Prop :=
  ss.map (Stmt.move fun _ => .first) = ts.map (Stmt.move fun _ => .first)

namespace Parser

/-- The input of tokens that have no places. -/
def placeless (tokens : Tokens) : Input :=
  inputOf (tokens.respell .forgetful) .first

variable {text : String} {tokens : Tokens} {ss : List Stmt} {j : Input}

theorem placeless_eq (tokens : Tokens) : placeless tokens =
    ⟨tokens.shapes.1.map Shape.token, tokens.shapes.2.token, .first⟩ := by
  rw [placeless, Tokens.respell_forgetful]
  rfl

/-- A script that is accepted is a chain of statements if it is read without places. -/
theorem exists_chain_of_parseProgram {p : Program} (h : parseProgram text = .ok p) :
    ∃ tokens j, tokenize text .first = .ok tokens ∧
      Chain (placeless tokens) (p.body.map (Stmt.move fun _ => .first)) j ∧
      j.current.body = .eof ∧ p.body.length ≤ tokens.items.length := by
  rw [parseProgram_eq] at h
  split at h
  · cases h
  rename_i tokens htokens
  have hmatch : Matches .forgetful _ _ (statements (placeless tokens)) :=
    statements_alike (inputOf tokens .first)
  split at h
  · cases h
  rename_i body _ hrun
  cases h
  rw [hrun] at hmatch
  cases hrun' : statements (placeless tokens) with
  | error e =>
    rw [hrun'] at hmatch
    exact hmatch.elim
  | ok found =>
    rw [hrun'] at hmatch
    obtain ⟨body', j⟩ := found
    obtain rfl : body' = body.map (Stmt.move fun _ => .first) := hmatch.1
    obtain ⟨hchain, hend, -⟩ := statements_eq_ok.1 hrun'
    exact ⟨tokens, j, htokens, hchain, hend, (statements_eq_ok.1 hrun).2.2⟩

theorem Chain.parseProgram (h : Chain (placeless tokens) ss j) (hend : j.current.body = .eof)
    (hlength : ss.length ≤ tokens.items.length) (htokens : tokenize text .first = .ok tokens) :
    ∃ p, parseProgram text = .ok p ∧ p.body.map (Stmt.move fun _ => .first) = ss := by
  have hrun : statements (placeless tokens) = .ok (ss, j) := by
    refine statements_eq_ok.2 ⟨h, hend, ?_⟩
    rwa [placeless_eq, Tokens.shapes, List.length_map, List.length_map]
  have hmatch : Matches .forgetful _ _ (statements (placeless tokens)) :=
    statements_alike (inputOf tokens .first)
  rw [hrun] at hmatch
  rw [parseProgram_eq, htokens]
  cases hrun' : statements (inputOf tokens .first) with
  | error e =>
    rw [hrun'] at hmatch
    exact hmatch.elim
  | ok found =>
    rw [hrun'] at hmatch
    obtain ⟨body, j'⟩ := found
    refine ⟨⟨body, ⟨.first, tokens.last.span.stop⟩⟩, ?_, hmatch.1.symm⟩
    dsimp only
    rw [hrun']

theorem Chain.onLine (h : Chain (placeless tokens) ss j) (hend : j.current.body = .eof)
    (hbodies : ∀ t ∈ tokens.items, t.body ≠ .eof) (hlast : tokens.last.body = .eof) :
    (∃ j', Chain (placeless tokens.onLine) ss j' ∧ j'.current.body = .eof) ∧
      (placeless tokens.onLine).current.isWord "else" = false := by
  obtain ⟨_ | ⟨t, rest⟩, last⟩ := tokens
  · have hcurrent : (placeless ⟨[], last⟩).current.body = .eof := hlast
    have hcurrent' : (placeless (Tokens.onLine ⟨[], last⟩)).current.body = .eof := hlast
    cases h with
    | stay => exact ⟨⟨_, .stay, hcurrent'⟩, by rw [Token.isWord, hcurrent']; rfl⟩
    | read hbody _ _ => exact absurd hcurrent hbody
  · have hne : ss ≠ [] := by
      rintro rfl
      cases h with
      | stay => exact hbodies t List.mem_cons_self hend
    have hreflows : Reflows (placeless ⟨t :: rest, last⟩)
        (placeless (Tokens.onLine ⟨t :: rest, last⟩)) := ⟨_, _, true, rfl, rfl⟩
    have hchain := h.reflows hne hreflows
    exact ⟨⟨j, hchain, hend⟩, hchain.no_else hne⟩

end Parser

/-- **Two scripts with a semicolon on a line of its own between them** are read, and their
statements are those of the first one and those of the second one, perhaps with an empty one between
them. -/
theorem parseProgram_joined {first second : String} {p q : Program}
    (hp : parseProgram first = .ok p) (hq : parseProgram second = .ok q) :
    ∃ both, parseProgram (joined first second) = .ok both ∧
      (SameStatements both.body (p.body ++ q.body) ∨
        SameStatements both.body (p.body ++ .empty ⟨.first, .first⟩ :: q.body)) := by
  obtain ⟨tokens, j, htokens, hchain, hend, hlength⟩ := exists_chain_of_parseProgram hp
  obtain ⟨tokens', j', htokens', hchain', hend', hlength'⟩ := exists_chain_of_parseProgram hq
  obtain ⟨all, hall, hshapes⟩ := tokenize_joined htokens htokens'
  obtain ⟨hbodies, hlast⟩ := Lexer.bodies_of_tokensFrom htokens
  obtain ⟨hbodies', hlast'⟩ := Lexer.bodies_of_tokensFrom htokens'
  obtain ⟨⟨k, hsecond, hk⟩, helse⟩ := hchain'.onLine hend' hbodies' hlast'
  let c : Inset :=
    { last := (placeless tokens).last, next := Shape.token ⟨.symbol .semicolon, true⟩,
      after := (placeless tokens'.onLine).rest, final := (placeless tokens'.onLine).last,
      eof := hlast, follows := ⟨.semicolon, by decide, rfl⟩, start := rfl, poorer := False }
  have hput : c.put (placeless tokens) = placeless all := by
    rw [placeless_eq all, hshapes]
    simp [Inset.put, c, placeless_eq]
  have hfits : c.Fits (placeless tokens) := by
    refine ⟨rfl, fun t ht => ?_, rfl⟩
    obtain ⟨u, -, rfl⟩ := List.mem_map.1 ht
    rfl
  obtain ⟨us, hus, hshifts⟩ := hchain.shifts hfits
  have hnil : j.rest = [] := by
    refine rest_eq_nil hus (fun t ht => ?_) hend
    obtain ⟨u, hu, rfl⟩ := List.mem_map.1 ht
    exact hbodies u hu
  have hclosed : AllClosed (placeless tokens).rest := by
    rw [hus, hnil, List.append_nil]
    exact hshifts.allClosed
  have hitems : all.items.length = tokens.items.length + (tokens'.items.length + 1) := by
    have hcount := congrArg (·.1.length) hshapes
    simpa [Tokens.shapes, tokens'.length_items_onLine] using hcount
  have hfirst := hchain.pass hfits hclosed hnil rfl helse id
  rw [hput] at hfirst
  rcases hfirst with hfirst | hfirst
  · obtain ⟨both, hboth, hbody⟩ := (hfirst.append hsecond).parseProgram hk (by simp; omega) hall
    exact ⟨both, hboth, .inl (by rw [SameStatements, hbody, List.map_append])⟩
  · obtain ⟨both, hboth, hbody⟩ := (hfirst.append hsecond).parseProgram hk (by simp; omega) hall
    refine ⟨both, hboth, .inr ?_⟩
    rw [SameStatements, hbody, List.map_append, List.map_cons, List.append_assoc]
    rfl

/-- A branch takes the semicolon with the statement in it, so that no empty statement comes between,
and a slash begins a pattern behind that. -/
theorem parseProgram_joined_branch : ∃ p q,
    parseProgram "f(`${a}`)\nif (b) return c" = .ok p ∧
      parseProgram "/d/g.test(e) // in\nx => {}" = .ok q ∧
      ∃ both, parseProgram (joined "f(`${a}`)\nif (b) return c" "/d/g.test(e) // in\nx => {}") =
          .ok both ∧ SameStatements both.body (p.body ++ q.body) := by
  obtain ⟨hfirst, hsecond, hjoined⟩ :
      (parseProgram "f(`${a}`)\nif (b) return c").toOption.map (·.body.length) = some 2 ∧
      (parseProgram "/d/g.test(e) // in\nx => {}").toOption.map (·.body.length) = some 2 ∧
      (parseProgram (joined "f(`${a}`)\nif (b) return c"
        "/d/g.test(e) // in\nx => {}")).toOption.map (·.body.length) = some 4 := by
    decide +kernel
  obtain ⟨p, hp, htwo⟩ := exists_of_map_toOption hfirst
  obtain ⟨q, hq, htwo'⟩ := exists_of_map_toOption hsecond
  obtain ⟨both, hboth, hsame⟩ := parseProgram_joined hp hq
  refine ⟨p, q, hp, hq, both, hboth, hsame.resolve_right fun hempty => ?_⟩
  -- with an empty statement there would be five
  rw [hboth] at hjoined
  have hfour : both.body.length = 4 := Option.some.inj hjoined
  have hfive := congrArg List.length hempty
  simp only [List.length_map, List.length_append, List.length_cons] at hfive
  omega

end WidgetLint.Script
