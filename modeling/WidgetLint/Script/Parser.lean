import WidgetLint.Script.Lexer
import WidgetLint.Script.Parser.Stmt

/-!
# Reading scripts

The parts of the grammar are tied together level by level: each level has spent one more descent of
the budget than the one around it. Since a descent costs eight of 1024, no more than 128 levels
nest, and the level below the last of them has nothing left to spend.
-/

namespace WidgetLint.Script

open Text

namespace Parser

/-- The parts of the grammar for a budget, with at most `descents` descents. -/
def level : (descents budget : Nat) → Level
  | 0, _ => .exhausted
  | descents + 1, budget =>
    if budget < nestCost then .exhausted
    else
      let left := budget - nestCost
      { statement := fun input => statementAt (level descents left) input
        assignment := fun noIn input => assignmentAt (level descents left) noIn input
        binary := fun noIn least input => binaryAt (level descents) left noIn least input
        unary := fun input => unaryAt (level descents) left input
        construction := fun input => constructionAt (level descents) left input }

/-- The parts of the grammar for a whole text. -/
def top : Level :=
  level (nestingBudget / nestCost) nestingBudget

/-- The input of a token list that starts at `origin`. -/
def inputOf (tokens : Tokens) (origin : Position) : Input :=
  ⟨tokens.items, tokens.last, origin⟩

section
variable {m : Type → Type} [Monad m] [MonadStateOf Input m] [MonadExceptOf ScriptError m]

/-- Statements up to the end of the text, given the level that reads them. -/
def statementsFrom (sub : LevelOf m) : m (List Stmt) :=
  many do
    if ← atEnd then return none else return some (← sub.statement)

/-- An expression up to the end of the text, given the level that reads it. -/
def wholeExpressionFrom (sub : LevelOf m) : m Expr := do
  let e ← sequence sub false
  unless ← atEnd do unexpected
  return e

end

def statements : Parser (List Stmt) :=
  statementsFrom top

def wholeExpression : Parser Expr :=
  wholeExpressionFrom top

end Parser

/-- The expression that a text at `origin` spells. -/
def parseExpressionAt (text : String) (origin : Position) : Except ScriptError Expr := do
  let tokens ← tokenize text origin
  let (e, _) ← Parser.wholeExpression (Parser.inputOf tokens origin)
  return e

def parseExpression (text : String) : Except ScriptError Expr :=
  parseExpressionAt text .first

/-- The script that a text spells. -/
def parseProgram (text : String) : Except ScriptError Program := do
  let tokens ← tokenize text .first
  let (body, _) ← Parser.statements (Parser.inputOf tokens .first)
  return ⟨body, ⟨.first, tokens.last.span.stop⟩⟩

end WidgetLint.Script
