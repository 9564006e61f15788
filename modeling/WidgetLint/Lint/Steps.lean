import WidgetLint.Check.Validation
import WidgetLint.Lint.Spot
import WidgetLint.Script.Parser

/-!
# Steps of a linter

What a linter does with a text is written over a monad and a few steps to take there. The linter
takes the plain steps, in no monad at all; one that takes other steps can be watched, or asked
whether each of them is allowed.
-/

namespace WidgetLint.Lint

open Text Script Markup Schema Check

/-- How a linter reads texts, asks the documentation, measures and moves. -/
structure Steps (m : Type → Type) where
  program : String → m (Except ScriptError Program)
  expression : String → (origin : Position) → m (Except ScriptError Expr)
  page : Settings → String → m Document
  resolve? : Model → Settings → (name : String) → m (Option Component)
  length : Span → m Nat
  translate : Diagnostic → (origin : Position) → m Diagnostic

def Steps.plain : Steps Id where
  program := parseProgram
  expression := parseExpressionAt
  page := readPage
  resolve? model s name := model.resolve? name s.namespaceText
  length := Span.length
  translate := Diagnostic.translate

theorem run_flatMapM {α β : Type} (f : α → Id (List β)) (l : List α) :
    (l.flatMapM f).run = l.flatMap fun a => (f a).run := by
  induction l with
  | nil => rfl
  | cons a l ih => rw [List.flatMapM_cons, List.flatMap_cons, ← ih]; rfl

end WidgetLint.Lint
