import WidgetLint.Proofs.Printing.Moved
import WidgetLint.Proofs.Script.Origin

/-!
# Formatting does not change meaning

Two texts may differ in how their tokens are spelled and in what stands between them: quotes, escapes,
the radix of numbers, comments and indentation. **As long as their tokens have the same values and
the same line ends before them, the texts are read alike** (`reading_ignores_formatting`): both are
accepted or both refused, and what is accepted is the same tree up to positions, which prints the
same.

Both inputs are respelled to one that has forgotten all positions and spellings. No reader looks at
either, so both runs do what the run on the forgetful input does.
-/

namespace WidgetLint.Script

open Text

/-! ## Tokens without positions and spellings -/

/-- What the grammar sees of a token: what it is, its value, and whether a line ends before it. -/
structure Shape where
  body : TokenBody
  newlineBefore : Bool
deriving DecidableEq, Repr

def Token.shape (t : Token) : Shape :=
  ⟨t.body, t.newlineBefore⟩

def Tokens.shapes (ts : Tokens) : List Shape × Shape :=
  (ts.items.map Token.shape, ts.last.shape)

/-- The shapes of the tokens of a text, if it is cut into tokens at all. -/
def shapes? (text : String) : Option (List Shape × Shape) :=
  match tokenize text .first with
  | .ok tokens => some tokens.shapes
  | .error _ => none

/-- The respelling that forgets positions and spellings. -/
def Respelling.forgetful : Respelling :=
  ⟨fun _ => .first, fun _ => ""⟩

/-- The token of a shape that says nothing else. -/
def Shape.token (s : Shape) : Token :=
  ⟨s.body, "", ⟨.first, .first⟩, s.newlineBefore⟩

theorem Tokens.respell_forgetful (ts : Tokens) :
    ts.respell .forgetful = ⟨ts.shapes.1.map Shape.token, ts.shapes.2.token⟩ := by
  rw [Tokens.respell, Tokens.shapes, List.map_map]
  rfl

/-! ## Readings that agree -/

/-- Both readings accept, with results that are the same in a sense, or both refuse. -/
def SameReading {α : Type} (same : α → α → Prop) :
    Except ScriptError α → Except ScriptError α → Prop
  | .ok a, .ok b => same a b
  | .error _, .error _ => True
  | _, _ => False

theorem SameReading.bind {α β : Type} {same : α → α → Prop} {same' : β → β → Prop}
    {x y : Except ScriptError α} {k l : α → Except ScriptError β} (h : SameReading same x y)
    (hk : ∀ a b, same a b → SameReading same' (k a) (l b)) :
    SameReading same' (x >>= k) (y >>= l) := by
  match x, y, h with
  | .ok a, .ok b, h => exact hk a b h
  | .error _, .error _, _ => exact trivial

/-- The expressions are equal up to positions and have the same text. -/
def Expr.SameMeaning (e e' : Expr) : Prop :=
  e.move (fun _ => .first) = e'.move (fun _ => .first) ∧ e.text = e'.text

def Program.SameMeaning (p p' : Program) : Prop :=
  p.body.map (Stmt.move fun _ => .first) = p'.body.map (Stmt.move fun _ => .first) ∧
    p.text = p'.text

theorem Expr.SameMeaning.of_move {e e' : Expr}
    (h : e.move (fun _ => .first) = e'.move (fun _ => .first)) : e.SameMeaning e' := by
  refine ⟨h, ?_⟩
  rw [← Expr.text_move (fun _ => .first) e, h, Expr.text_move]

theorem Program.SameMeaning.of_move {p p' : Program}
    (h : p.body.map (Stmt.move fun _ => .first) = p'.body.map (Stmt.move fun _ => .first)) :
    p.SameMeaning p' := by
  refine ⟨h, ?_⟩
  rw [Program.text, Program.text, ← renderLines_move (fun _ => .first) 0 p.body, relabelBody_eq, h,
    ← relabelBody_eq, renderLines_move]

namespace Parser

/-- A reader that looks at no position and no spelling reads alike what has the same shapes. -/
theorem Alike.sameReading {α : Type} {g : α → α} {p : Parser α}
    (h : Alike .forgetful (Image g) p p) {tokens tokens' : Tokens}
    (hshapes : tokens.shapes = tokens'.shapes) (origin origin' : Position) :
    SameReading (fun x y => g x.1 = g y.1) (p (inputOf tokens origin))
      (p (inputOf tokens' origin')) := by
  have hinput : (inputOf tokens origin).respell .forgetful =
      (inputOf tokens' origin').respell .forgetful := by
    have htokens : tokens.respell .forgetful = tokens'.respell .forgetful := by
      rw [Tokens.respell_forgetful, hshapes, ← Tokens.respell_forgetful]
    exact congrArg (inputOf · .first) htokens
  have hrun := h (inputOf tokens origin)
  have hrun' := h (inputOf tokens' origin')
  rw [← hinput] at hrun'
  match hp : p (inputOf tokens origin), hp' : p (inputOf tokens' origin'),
    hq : p ((inputOf tokens origin).respell .forgetful) with
  | .ok _, .ok _, .ok _ =>
    rw [hp, hq] at hrun
    rw [hp', hq] at hrun'
    exact hrun.1.symm.trans hrun'.1
  | .error _, .error _, _ => exact trivial
  | .ok _, _, .error _ => rw [hp, hq] at hrun; exact hrun.elim
  | .error _, _, .ok _ => rw [hp, hq] at hrun; exact hrun.elim
  | _, .ok _, .error _ => rw [hp', hq] at hrun'; exact hrun'.elim
  | _, .error _, .ok _ => rw [hp', hq] at hrun'; exact hrun'.elim

end Parser

/-! ## Texts with the same tokens -/

/-- Two texts with the same shapes are both cut into tokens of those shapes, or neither is cut. -/
theorem tokenize_of_shapes {text text' : String} (h : shapes? text = shapes? text') :
    SameReading (fun tokens tokens' => tokens.shapes = tokens'.shapes) (tokenize text .first)
      (tokenize text' .first) := by
  unfold shapes? at h
  match ht : tokenize text .first, ht' : tokenize text' .first with
  | .ok _, .ok _ =>
    rw [ht, ht'] at h
    exact Option.some.inj h
  | .error _, .error _ => exact trivial
  | .ok _, .error _ => rw [ht, ht'] at h; cases h
  | .error _, .ok _ => rw [ht, ht'] at h; cases h

theorem parseExpression_of_shapes {text text' : String} (h : shapes? text = shapes? text') :
    SameReading Expr.SameMeaning (parseExpression text) (parseExpression text') := by
  refine (tokenize_of_shapes h).bind fun tokens tokens' htokens => ?_
  exact (Parser.wholeExpression_alike.sameReading htokens _ _).bind fun _ _ hread => .of_move hread

theorem parseProgram_of_shapes {text text' : String} (h : shapes? text = shapes? text') :
    SameReading Program.SameMeaning (parseProgram text) (parseProgram text') := by
  refine (tokenize_of_shapes h).bind fun tokens tokens' htokens => ?_
  exact (Parser.statements_alike.sameReading htokens _ _).bind fun _ _ hread => .of_move hread

@[simp] theorem Tokens.shapes_move (f : Position → Position) (ts : Tokens) :
    (ts.move f).shapes = ts.shapes := by
  rw [Tokens.shapes, Tokens.move, List.map_map]
  rfl

theorem parseExpressionAt_sameMeaning (text : String) (origin : Position) :
    SameReading Expr.SameMeaning (parseExpressionAt text origin) (parseExpression text) := by
  have htokens : SameReading (fun tokens tokens' => tokens.shapes = tokens'.shapes)
      (tokenize text origin) (tokenize text .first) := by
    rw [tokenize_eq_translate]
    match tokenize text .first with
    | .ok tokens => exact tokens.shapes_move _
    | .error _ => exact trivial
  refine htokens.bind fun _ _ hshapes => ?_
  exact (Parser.wholeExpression_alike.sameReading hshapes _ _).bind fun _ _ hread => .of_move hread

/-- **Formatting does not change meaning.** Two texts whose tokens have the same values, with line
ends at the same places, are both accepted or both refused, as expressions and as scripts; what is
accepted is equal up to positions, and prints the same. -/
theorem reading_ignores_formatting (text text' : String) (h : shapes? text = shapes? text') :
    SameReading Expr.SameMeaning (parseExpression text) (parseExpression text') ∧
      SameReading Program.SameMeaning (parseProgram text) (parseProgram text') :=
  ⟨parseExpression_of_shapes h, parseProgram_of_shapes h⟩

/-- Quotes, an escape, a radix, a comment and indentation. -/
theorem reading_ignores_quotes_and_radix :
    let text := "f(\"a\", 0x10);\n  g"
    let text' := "f('\\x61' /* b */,16) ;\ng"
    shapes? text = shapes? text' ∧ (shapes? text).isSome ∧
      SameReading Expr.SameMeaning (parseExpression text) (parseExpression text') ∧
      SameReading Program.SameMeaning (parseProgram text) (parseProgram text') ∧
      (∃ p, parseProgram text = .ok p) := by
  intro text text'
  obtain ⟨h, hsome, hok⟩ : shapes? text = shapes? text' ∧ (shapes? text).isSome ∧
      (parseProgram text).isOk = true := by
    decide +kernel
  obtain ⟨hexpression, hprogram⟩ := reading_ignores_formatting text text' h
  exact ⟨h, hsome, hexpression, hprogram, exists_ok_of_isOk hok⟩

end WidgetLint.Script
