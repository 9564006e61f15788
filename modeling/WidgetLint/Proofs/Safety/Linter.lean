import WidgetLint.Proofs.Lint.Steps
import WidgetLint.Proofs.Safety.Budget
import WidgetLint.Proofs.Safety.Markup
import WidgetLint.Proofs.Safety.Parser

/-!
# Linting without slips

A linter all of whose steps are checked: scripts are cut into tokens by steps that stay in the text
and read by a parser that counts what it spends, pages are built on a stack that must not be empty,
lengths and moved positions must not become negative, and server blocks are cut between characters.
**It always has a result, and that of the linter** (`lint_without_slips`).
-/

namespace WidgetLint.Lint

open Text Script Markup Schema Check

/-! ## Steps -/

/-- `parseExpressionAt` with tokens cut by steps that stay in the text, and a parser that counts. -/
def parseExpressionAt? (text : String) (origin : Position) : Option (Except ScriptError Expr) :=
  ExceptT.run do
    let tokens ← ExceptT.mk (tokenize? text origin)
    let ((e, _), _) ← Parser.wholeExpressionFrom Counting.top (Parser.inputOf tokens origin) 0
    return e

/-- `parseProgram` with tokens cut by steps that stay in the text, and a parser that counts. -/
def parseProgram? (text : String) : Option (Except ScriptError Program) :=
  ExceptT.run do
    let tokens ← ExceptT.mk (tokenize? text .first)
    let ((body, _), _) ← Parser.statementsFrom Counting.top (Parser.inputOf tokens .first) 0
    return ⟨body, ⟨.first, tokens.last.span.stop⟩⟩

/-- A text that is read by a counting parser is read as by the parser that it follows. -/
theorem readCounted_eq {α β : Type} {q : Counting α} {p : Parser α} (h : Counting.Counts 0 0 q p)
    (text : String) (origin : Position) (make : Tokens → α → β) :
    (ExceptT.run do
      let tokens ← ExceptT.mk (tokenize? text origin)
      let read ← q (Parser.inputOf tokens origin) 0
      return make tokens read.1.1) =
    some do
      let tokens ← tokenize text origin
      let read ← p (Parser.inputOf tokens origin)
      return make tokens read.1 := by
  rw [tokenize?_eq]
  cases tokenize text origin with
  | error e => rfl
  | ok tokens =>
    change Option.bind (q (Parser.inputOf tokens origin) 0) (ExceptT.bindCont _) =
      some ((p (Parser.inputOf tokens origin)).bind _)
    rw [h.run]
    cases p (Parser.inputOf tokens origin) with
    | error e => rfl
    | ok read => rfl

theorem parseExpressionAt?_eq (text : String) (origin : Position) :
    parseExpressionAt? text origin = some (parseExpressionAt text origin) :=
  readCounted_eq (Counting.wholeExpressionFrom_counts Counting.top_counts) text origin fun _ e => e

theorem parseProgram?_eq (text : String) : parseProgram? text = some (parseProgram text) :=
  readCounted_eq (Counting.statementsFrom_counts Counting.top_counts) text .first
    fun tokens body => Program.mk body ⟨.first, tokens.last.span.stop⟩

/-- The number of bytes of a stretch of text, if that is not negative. -/
def Span.length? (s : Span) : Option Nat :=
  minus? s.stop.offset s.start.offset

def readPage? (s : Settings) (text : String) : Option Document :=
  Markup.parse? { html := true, asp := s.asp } text

theorem readPage?_eq (s : Settings) (text : String) :
    readPage? s text = some (readPage s text) :=
  parse?_eq _ _

/-- A diagnostic at a position that can be moved. -/
def Diagnostic.translate? (d : Diagnostic) (origin : Position) : Option Diagnostic :=
  match d.position with
  | none => some d
  | some p => do
    let moved ← p.translate? origin
    return { d with position := some moved }

theorem Diagnostic.translate?_eq {part : List Char} {d : Diagnostic}
    (h : d.Within (PlaceOf part)) (origin : Position) :
    Diagnostic.translate? d origin = some (d.translate origin) := by
  obtain ⟨p, hp, k, -, rfl⟩ := h
  rw [translate?, Diagnostic.translate, hp]
  simp only [Position.translate?_eq (Position.proper_first.after _)]
  rfl

def Steps.checked : Steps Option where
  program := parseProgram?
  expression := parseExpressionAt?
  page := readPage?
  resolve? model s name := some (model.resolve? name s.namespaceText)
  length := Span.length?
  translate := Diagnostic.translate?

def Results.option : Results Option where
  In x a := x = some a
  pure _ := rfl
  bind hx hk := by rw [hx]; exact hk

theorem Steps.checked_agree : Steps.checked.Agree Results.option where
  program := parseProgram?_eq
  expression := parseExpressionAt?_eq
  page := readPage?_eq
  resolve? _ _ _ := rfl
  length _ h := minus?_eq h
  translate h origin := Diagnostic.translate?_eq h origin

/-! ## The whole -/

namespace Linter

def lintScript? (l : Linter) (text filename : String) : Option (List Diagnostic) :=
  l.lintScriptBy .checked text filename

def lintMarkup? (l : Linter) (text filename : String) : Option (List Diagnostic) :=
  l.lintMarkupBy .checked text filename

end Linter

def detect? (scripts pages : List String) (s : Settings) : Option Usage :=
  detectBy .checked s scripts pages

/-- **Nothing that the linter does can go wrong.** All its steps are allowed, and so are those of
the lexer when one goes on after errors. The parser finds every token that it looks ahead to and
cuts what it complains about out of the text. Every part of its grammar gives back exactly what it
has taken from the budget, takes one off a precedence only where there is one to take, and is
stopped by nothing but the budget. -/
theorem lint_without_slips :
    (∀ (l : Linter) (text file : String),
      l.lintScript? text file = some (l.lintScript text file) ∧
      l.lintMarkup? text file = some (l.lintMarkup text file)) ∧
    (∀ (scripts pages : List String) (s : Settings),
      detect? scripts pages s = some (detect scripts pages s)) ∧
    (∀ (text : String) (origin : Position) (n : Nat),
      (Lexer.start text origin).steps? n = some ((Lexer.start text origin).steps n)) ∧
    (∀ (tokens : Tokens) (index n : Nat) (prevEnd : Position),
      tokens.ahead? index n =
        some (Input.ahead ⟨tokens.items.drop index, tokens.last, prevEnd⟩ n)) ∧
    (∀ (text : String) (origin : Position) (tokens : Tokens), tokenize text origin = .ok tokens →
      ∀ t ∈ tokens.all, t.complaint? text.toList origin = some t.complaint) ∧
    (∀ descents depth : Nat, depth ≤ Parser.nestingBudget →
      (Counting.level descents).Counts depth
        (Parser.level descents (Parser.nestingBudget - depth))) ∧
    (∀ m n budget : Nat, budget / Parser.nestCost ≤ m → budget / Parser.nestCost ≤ n →
      Parser.level m budget = Parser.level n budget) :=
  ⟨fun l text file => ⟨l.lintScriptBy_results Steps.checked_agree text file,
      l.lintMarkupBy_results Steps.checked_agree text file⟩,
    fun scripts pages s => detectBy_results Steps.checked_agree s scripts pages,
    fun _ _ n => Lexer.steps?_eq n _, Tokens.ahead?_eq,
    fun _ _ _ htokens _ ht => Token.complaint?_eq htokens ht,
    fun descents _ hdepth => Counting.level_counts descents hdepth,
    fun _ _ _ hm hn => Parser.level_eq_of_le hm hn⟩

end WidgetLint.Lint
