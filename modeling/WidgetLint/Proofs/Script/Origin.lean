import WidgetLint.Proofs.Script.AlikeStmt
import WidgetLint.Proofs.Text.Place

/-!
# Texts that start elsewhere

A text read at an origin gives what it gives at the start of a text, with every position translated
to the origin. For tokens this holds because lexemes are found without looking at positions, and
counting on commutes with translating (`Lexer.next_translate`); for trees because no reader of tokens
looks at positions (`level_natural`).
-/

namespace WidgetLint.Script

open Text

theorem exists_ok_of_isOk {ε α : Type} {x : Except ε α} (h : x.isOk = true) : ∃ a, x = .ok a := by
  cases x with
  | error => cases h
  | ok a => exact ⟨a, rfl⟩

theorem exists_of_map_toOption {ε α β : Type} {x : Except ε α} {f : α → β} {b : β}
    (h : x.toOption.map f = some b) : ∃ a, x = .ok a ∧ f a = b := by
  cases x with
  | error => cases h
  | ok a => exact ⟨a, rfl, Option.some.inj h⟩

/-- A result with its positions replaced, whether it is a value or an error. -/
def moveResult {α : Type} (f : Position → Position) (g : α → α) :
    Except ScriptError α → Except ScriptError α
  | .ok a => .ok (g a)
  | .error e => .error (e.move f)

namespace Lexer

/-! ## Tokens -/

def translate (l : Lexer) (origin : Position) : Lexer :=
  { l with cursor := ⟨l.cursor.rest, l.cursor.position.translate origin⟩ }

/-- The lexer counts lines and columns from one. -/
def Proper (l : Lexer) : Prop :=
  l.cursor.position.Proper

theorem drop_translate {c : Cursor} (h : c.position.Proper) (origin : Position) (n : Nat) :
    Cursor.drop ⟨c.rest, c.position.translate origin⟩ n =
      ⟨(c.drop n).rest, (c.drop n).position.translate origin⟩ := by
  simp only [Cursor.drop, Position.after_translate h]

theorem errorAt_translate {l : Lexer} (h : l.Proper) (origin : Position) (cause : Cause)
    (place : Nat) :
    (l.translate origin).errorAt cause place =
      (l.errorAt cause place).move (·.translate origin) := by
  simp only [errorAt, translate, drop_translate h, ScriptError.move]

theorem readToken_translate {l : Lexer} (h : l.Proper) (origin : Position) :
    (l.translate origin).readToken =
      (moveResult (·.translate origin) (Token.move (·.translate origin)) l.readToken.1,
        l.readToken.2.translate origin) := by
  unfold readToken
  rw [show scanToken (l.translate origin).regexAllowed (l.translate origin).templateDepth
    (l.translate origin).cursor.rest = scanToken l.regexAllowed l.templateDepth l.cursor.rest
    from rfl]
  match scanToken l.regexAllowed l.templateDepth l.cursor.rest with
  | (.ok body size, depth) =>
    simp only [translate, drop_translate h, moveResult, Token.move, Span.move, Cursor.spanTo]
  | (.fail cause place size, depth) =>
    have herror := errorAt_translate h origin cause place
    simp only [translate] at herror
    simp only [moveResult, translate, drop_translate h, herror]

theorem readToken_proper {l : Lexer} (h : l.Proper) : l.readToken.2.Proper := by
  unfold readToken
  split
  · exact Position.Proper.after h _
  · exact Position.Proper.after h _

/-- **A step of the lexer commutes with translating.** -/
theorem next_translate {l : Lexer} (h : l.Proper) (origin : Position) :
    (l.translate origin).next =
      (moveResult (·.translate origin) (Token.move (·.translate origin)) l.next.1,
        l.next.2.translate origin) := by
  have hgap (gap : Gap) (size : Nat) :
      (l.translate origin).afterGap gap size = (l.afterGap gap size).translate origin := by
    simp only [afterGap, translate, drop_translate h]
  have hproper (gap : Gap) (size : Nat) : (l.afterGap gap size).Proper :=
    Position.Proper.after h _
  unfold next
  rw [show gapFrom .blank (l.translate origin).newlineBefore (l.translate origin).lineStart 0
    (l.translate origin).cursor.rest =
    gapFrom .blank l.newlineBefore l.lineStart 0 l.cursor.rest from rfl]
  generalize gapFrom .blank l.newlineBefore l.lineStart 0 l.cursor.rest = gap
  obtain ⟨newline, lineStart, _ | _⟩ := gap
  · simp only [hgap, readToken_translate (hproper _ _)]
  · simp only [hgap, errorAt_translate h, moveResult]

theorem next_proper {l : Lexer} (h : l.Proper) : l.next.2.Proper := by
  unfold next
  simp only
  split
  · exact readToken_proper (Position.Proper.after h _)
  · exact Position.Proper.after h _

theorem tokensFrom_translate {l : Lexer} (h : l.Proper) (origin : Position) (fuel : Nat) :
    (l.translate origin).tokensFrom fuel =
      moveResult (·.translate origin) (Tokens.move (·.translate origin)) (l.tokensFrom fuel) := by
  induction fuel generalizing l with
  | zero => simp only [tokensFrom, errorAt_translate h, moveResult]
  | succ fuel ih =>
    unfold tokensFrom
    rw [next_translate h]
    have hnext := next_proper h
    match hn : l.next with
    | (.error e, l') => rfl
    | (.ok token, l') =>
      rw [hn] at hnext
      simp only [moveResult, Token.move_body, ih hnext]
      split
      · rfl
      · cases l'.tokensFrom fuel <;> rfl

end Lexer

theorem tokenize_eq_translate (text : String) (origin : Position) :
    tokenize text origin =
      moveResult (·.translate origin) (Tokens.move (·.translate origin))
        (tokenize text .first) := by
  have hstart : Lexer.start text origin = (Lexer.start text .first).translate origin := by
    simp only [Lexer.start, Lexer.translate, Position.translate_first_left]
  have hproper : (Lexer.start text .first).Proper := Position.proper_first
  rw [tokenize, hstart, Lexer.tokensFrom_translate hproper, tokenize]

/-! ## Expressions -/

namespace Parser

theorem inputOf_move (f : Position → Position) (tokens : Tokens) (origin : Position) :
    inputOf (tokens.move f) (f origin) = (inputOf tokens origin).move f := rfl

theorem parseExpressionAt_eq (text : String) (origin : Position) :
    parseExpressionAt text origin =
      match tokenize text origin with
      | .error e => .error e
      | .ok tokens =>
        match wholeExpression (inputOf tokens origin) with
        | .error e => .error e
        | .ok (e, _) => .ok e := by
  unfold parseExpressionAt
  cases tokenize text origin with
  | error e => rfl
  | ok tokens =>
    show (wholeExpression (inputOf tokens origin) >>= fun x => pure x.1) =
      match wholeExpression (inputOf tokens origin) with
      | .error e => .error e
      | .ok (e, _) => .ok e
    cases wholeExpression (inputOf tokens origin) <;> rfl

theorem parseExpressionAt_eq_translate (text : String) (origin : Position) :
    parseExpressionAt text origin =
      moveResult (·.translate origin) (Expr.move (·.translate origin))
        (parseExpression text) := by
  rw [parseExpression, parseExpressionAt_eq, parseExpressionAt_eq, tokenize_eq_translate]
  match tokenize text .first with
  | .error e => rfl
  | .ok tokens =>
    have halike := wholeExpression_alike (f := .moving (·.translate origin)) (inputOf tokens .first)
    rw [Input.respell_moving, ← inputOf_move, Position.translate_first_left] at halike
    simp only [moveResult]
    match h : wholeExpression (inputOf tokens .first),
      h' : wholeExpression (inputOf (tokens.move (·.translate origin)) origin) with
    | .ok (e, i), .ok (e', i') =>
      rw [h, h'] at halike
      exact congrArg Except.ok halike.1
    | .error e, .error e' =>
      rw [h, h'] at halike
      exact congrArg Except.error (halike.trans (ScriptError.respell_moving _ _))
    | .ok _, .error _ => rw [h, h'] at halike; exact halike.elim
    | .error _, .ok _ => rw [h, h'] at halike; exact halike.elim

end Parser

/-- **A text reads the same at every origin, up to the translation of its positions**: its tokens,
the expression it spells and the error it has. Regions of regions translate in one step. -/
theorem reading_commutes_with_translate :
    (∀ (text : String) (origin : Position),
      tokenize text origin =
          moveResult (·.translate origin) (Tokens.move (·.translate origin))
            (tokenize text .first) ∧
        parseExpressionAt text origin =
          moveResult (·.translate origin) (Expr.move (·.translate origin))
            (parseExpression text)) ∧
    ∀ p a b : Position, p.Proper → a.Proper → b.Proper →
      (p.translate a).translate b = p.translate (a.translate b) :=
  ⟨fun text origin => ⟨tokenize_eq_translate text origin,
    Parser.parseExpressionAt_eq_translate text origin⟩,
    fun _ _ _ hp ha hb => Position.translate_translate hp ha hb⟩

/-- A region on the first line of a region that starts in the middle of a line. -/
theorem translate_translate_first_line :
    Position.Proper ⟨1, 4, 3⟩ ∧ Position.Proper ⟨1, 8, 7⟩ ∧ Position.Proper ⟨3, 5, 40⟩ ∧
      ((⟨1, 4, 3⟩ : Position).translate ⟨1, 8, 7⟩).translate ⟨3, 5, 40⟩ =
        (⟨1, 4, 3⟩ : Position).translate ((⟨1, 8, 7⟩ : Position).translate ⟨3, 5, 40⟩) := by
  have hp : Position.Proper ⟨1, 4, 3⟩ := ⟨by decide, by decide⟩
  have ha : Position.Proper ⟨1, 8, 7⟩ := ⟨by decide, by decide⟩
  have hb : Position.Proper ⟨3, 5, 40⟩ := ⟨by decide, by decide⟩
  exact ⟨hp, ha, hb, reading_commutes_with_translate.2 _ _ _ hp ha hb⟩

end WidgetLint.Script
