import WidgetLint.Proofs.Script.Origin
import WidgetLint.Proofs.Script.Walk

/-!
# Where tokens and trees stand

Every position that the lexer reports is a place of the text. Since readers only copy positions,
the same holds of every position in a tree or an error: a move that leaves the places of the text
alone (`keeping`) leaves the tokens alone, and hence what is read from them. A tree that such a move
leaves alone has all its positions among the places, and so have all the trees inside it.
-/

namespace WidgetLint.Script

open Text

/-! ## Moves that keep some positions -/

open Classical in
/-- The move that leaves the positions with a property alone and no other. -/
noncomputable def keeping (P : Position → Prop) (p : Position) : Position :=
  if P p then p else p.next 'a'

theorem keeping_eq_self {P : Position → Prop} {p : Position} : keeping P p = p ↔ P p := by
  unfold keeping
  split
  · exact ⟨fun _ => ‹_›, fun _ => rfl⟩
  · refine ⟨fun h => ?_, fun h => absurd h ‹_›⟩
    have := congrArg Position.offset h
    simp [Position.next, Char.utf8Size] at this

theorem move_keeping_eq_self {P : Position → Prop} {s : Span} :
    s.move (keeping P) = s ↔ P s.start ∧ P s.stop := by
  rw [Span.move, Span.mk.injEq, keeping_eq_self, keeping_eq_self]

theorem map_eq_self_iff {α : Type} {g : α → α} {l : List α} :
    l.map g = l ↔ ∀ a ∈ l, g a = a := by
  induction l with
  | nil => simp
  | cons a l ih => simp [ih]

def Token.Within (P : Position → Prop) (t : Token) : Prop :=
  P t.span.start ∧ P t.span.stop

def Tokens.Within (P : Position → Prop) (ts : Tokens) : Prop :=
  (∀ t ∈ ts.items, t.Within P) ∧ ts.last.Within P

/-- A result has the position of its error among the given ones, or its value a property. -/
def ResultWithin {α : Type} (P : Position → Prop) (Q : α → Prop) : Except ScriptError α → Prop
  | .ok a => Q a
  | .error e => P e.position

theorem Token.Within.move_eq {P : Position → Prop} {t : Token} (h : t.Within P) :
    t.move (keeping P) = t := by
  rw [Token.move, move_keeping_eq_self.mpr h]

theorem Tokens.Within.move_eq {P : Position → Prop} {ts : Tokens} (h : ts.Within P) :
    ts.move (keeping P) = ts := by
  rw [Tokens.move, h.2.move_eq, map_eq_self_iff.mpr fun t ht => (h.1 t ht).move_eq]

/-! ## Tokens -/

namespace Lexer
variable {text : List Char} {l : Lexer}

theorem errorAt_place (h : l.cursor.In text) (cause : Cause) (place : Nat) :
    PlaceOf text (l.errorAt cause place).position :=
  (h.drop place).place

theorem readToken_within (h : l.cursor.In text) :
    ResultWithin (PlaceOf text) (Token.Within (PlaceOf text)) l.readToken.1 ∧
      l.readToken.2.cursor.In text := by
  unfold readToken
  split
  · exact ⟨⟨h.place, (h.drop _).place⟩, h.drop _⟩
  · exact ⟨errorAt_place h _ _, h.drop _⟩

theorem next_within (h : l.cursor.In text) :
    ResultWithin (PlaceOf text) (Token.Within (PlaceOf text)) l.next.1 ∧
      l.next.2.cursor.In text := by
  unfold next
  simp only
  split
  · exact readToken_within (h.drop _)
  · exact ⟨errorAt_place h _ _, h.drop _⟩

theorem tokensFrom_within (h : l.cursor.In text) (fuel : Nat) :
    ResultWithin (PlaceOf text) (Tokens.Within (PlaceOf text)) (l.tokensFrom fuel) := by
  induction fuel generalizing l with
  | zero => exact errorAt_place h _ _
  | succ fuel ih =>
    obtain ⟨hfound, hnext⟩ := next_within h
    unfold tokensFrom
    rcases hn : l.next with ⟨e | token, l'⟩
    · rw [hn] at hfound
      exact hfound
    · rw [hn] at hfound hnext
      simp only
      split
      · exact ⟨by simp, hfound⟩
      · have hrest := ih hnext
        cases hr : l'.tokensFrom fuel with
        | error e =>
          rw [hr] at hrest
          exact hrest
        | ok tokens =>
          rw [hr] at hrest
          refine ⟨fun t ht => ?_, hrest.2⟩
          rcases List.mem_cons.mp ht with rfl | ht
          · exact hfound
          · exact hrest.1 t ht

end Lexer

theorem tokenize_within (text : String) :
    ResultWithin (PlaceOf text.toList) (Tokens.Within (PlaceOf text.toList))
      (tokenize text .first) :=
  Lexer.tokensFrom_within (l := Lexer.start text .first) (standsAt_self text.toList) _

/-- The tokens of a part of a text, read where the part stands, stand at places of the text. -/
theorem tokenize_within_of_standsAt {whole : List Char} {text : String} {origin : Position}
    (h : StandsAt whole text.toList origin) :
    ResultWithin (PlaceOf whole) (Tokens.Within (PlaceOf whole)) (tokenize text origin) := by
  have htokens := tokenize_within text
  rw [tokenize_eq_translate]
  match ht : tokenize text .first with
  | .error e =>
    rw [ht] at htokens
    exact h.place_translate htokens
  | .ok tokens =>
    rw [ht] at htokens
    have hmove (t : Token) (hwithin : t.Within (PlaceOf text.toList)) :
        (t.move (·.translate origin)).Within (PlaceOf whole) :=
      ⟨h.place_translate hwithin.1, h.place_translate hwithin.2⟩
    refine ⟨fun t hmem => ?_, hmove _ htokens.2⟩
    obtain ⟨u, hu, rfl⟩ := List.mem_map.mp hmem
    exact hmove u (htokens.1 u hu)

/-! ## Trees -/

/-- An expression has all its positions among the given ones. -/
def Expr.Within (P : Position → Prop) (e : Expr) : Prop :=
  e.move (keeping P) = e

def Stmt.Within (P : Position → Prop) (s : Stmt) : Prop :=
  s.move (keeping P) = s

/-- Every node that a walk meets has its positions where the statements have theirs. -/
theorem Program.visits_within {P : Position → Prop} {p : Program} (h : ∀ s ∈ p.body, s.Within P)
    (v : Visit) (hv : v ∈ p.visits) : v.move (keeping P) = v := by
  have hbody : relabelBody (.moving (keeping P)) p.body = p.body := by
    rw [relabelBody_eq]
    exact map_eq_self_iff.mpr h
  have hvisits := visitBody_move (keeping P) 0 p.body
  rw [hbody] at hvisits
  exact map_eq_self_iff.mp hvisits.symm v hv

/-- A reader whose input has its positions among the given ones only returns such positions. -/
theorem Parser.Alike.within {α : Type} {P : Position → Prop} {g : α → α} {p : Parser α}
    (h : Alike (.moving (keeping P)) (Image g) p p) {tokens : Tokens} (htokens : tokens.Within P)
    {origin : Position} (horigin : P origin) :
    ResultWithin P (fun x => g x.1 = x.1) (p (inputOf tokens origin)) := by
  have halike := h (inputOf tokens origin)
  rw [Input.respell_moving, ← inputOf_move, htokens.move_eq, keeping_eq_self.mpr horigin] at halike
  match hp : p (inputOf tokens origin) with
  | .ok (a, i) =>
    rw [hp] at halike
    exact halike.1.symm
  | .error e =>
    rw [hp] at halike
    exact keeping_eq_self.mp (congrArg ScriptError.position halike).symm

theorem parseExpressionAt_within {whole : List Char} {text : String} {origin : Position}
    (h : StandsAt whole text.toList origin) :
    ResultWithin (PlaceOf whole) (Expr.Within (PlaceOf whole))
      (parseExpressionAt text origin) := by
  have htokens := tokenize_within_of_standsAt h
  rw [Parser.parseExpressionAt_eq]
  match ht : tokenize text origin with
  | .error e =>
    rw [ht] at htokens
    exact htokens
  | .ok tokens =>
    rw [ht] at htokens
    have hwhole := Parser.wholeExpression_alike.within htokens h.place
    simp only
    match hw : Parser.wholeExpression (Parser.inputOf tokens origin) with
    | .error e =>
      rw [hw] at hwhole
      exact hwhole
    | .ok (e, i) =>
      rw [hw] at hwhole
      exact hwhole

theorem parseProgram_within (text : String) :
    ResultWithin (PlaceOf text.toList)
      (fun p => ∀ s ∈ p.body, s.Within (PlaceOf text.toList)) (parseProgram text) := by
  have htokens := tokenize_within text
  unfold parseProgram
  match ht : tokenize text .first with
  | .error e =>
    rw [ht] at htokens
    exact htokens
  | .ok tokens =>
    rw [ht] at htokens
    have hbody := Parser.statements_alike.within htokens (standsAt_self text.toList).place
    show ResultWithin _ _ (Parser.statements (Parser.inputOf tokens .first) >>= fun x =>
      pure (⟨x.1, ⟨.first, tokens.last.span.stop⟩⟩ : Program))
    match hs : Parser.statements (Parser.inputOf tokens .first) with
    | .error e =>
      rw [hs] at hbody
      exact hbody
    | .ok (body, i) =>
      rw [hs] at hbody
      exact map_eq_self_iff.mp hbody

end WidgetLint.Script
