import WidgetLint.Script.ScriptError
import WidgetLint.Script.Token
import WidgetLint.Script.Tree

/-!
# Reading tokens

A parser takes tokens from a list and fails with an error at the token that cannot go on. How deep
trees may become is bounded by a budget: every descent into a part of the grammar spends some of
it, and so does every link of a chain of operators or member accesses.

What does not spend budget itself is written for any monad that has an input and such errors. The
parser hands what is left of the budget down; a parser that counts what is spent reads by the same
grammar.
-/

namespace WidgetLint.Script

open Text

/-- The tokens still to be read, the token for the end of the text, and where the last token that
was read ends. -/
structure Input where
  rest : List Token
  last : Token
  prevEnd : Position
deriving Repr

/-- A reader of tokens. -/
abbrev Parser := StateT Input (Except ScriptError)

/-- The words that cannot be used as names. -/
def reservedWords : List String :=
  ["break", "case", "catch", "class", "const", "continue", "debugger", "default", "delete", "do",
   "else", "enum", "export", "extends", "finally", "for", "function", "if", "import", "in",
   "instanceof", "new", "return", "super", "switch", "this", "throw", "try", "typeof", "var",
   "void", "while", "with"]

def isReserved (name : String) : Bool :=
  reservedWords.contains name

/-- The complaint about a token that cannot stand where it does. -/
def Token.complaint (t : Token) : ScriptError :=
  let cause := match t.body with
    | .eof => .unexpectedEnd
    | .word name => if isReserved name then .unexpectedKeyword name else .unexpectedToken t.lexeme
    | _ => .unexpectedToken t.lexeme
  ⟨cause, t.span.start⟩

/-- The name of a word token that is not reserved. -/
def Token.name? (t : Token) : Option String :=
  t.word?.filter (!isReserved ·)

namespace Input

/-- The token `n` places ahead; beyond the end it is the token for the end. -/
def ahead (input : Input) (n : Nat) : Token :=
  (input.rest[n]?).getD input.last

/-- The token to be read next. -/
def current (input : Input) : Token :=
  input.ahead 0

/-- The input after the current token; at the end it stays where it is. -/
def advance (input : Input) : Input :=
  { input with rest := input.rest.drop 1, prevEnd := input.current.span.stop }

end Input

namespace Parser

variable {m : Type → Type} [Monad m] [MonadStateOf Input m] [MonadExceptOf ScriptError m]

def peek : m Token :=
  return (← get).current

/-- The token after the next one. -/
def peekSecond : m Token :=
  return (← get).ahead 1

def advance : m Unit :=
  modify Input.advance

def here : m Position :=
  return (← peek).span.start

/-- The stretch of text from a place to the end of the last token that was read. -/
def spanFrom (start : Position) : m Span :=
  return ⟨start, (← get).prevEnd⟩

/-- Fails at the current token. -/
def fail {α : Type} (cause : Cause) : m α := do
  throw ⟨cause, ← here⟩

/-- Fails because the current token cannot stand where it does. -/
def unexpected {α : Type} : m α := do
  throw (← peek).complaint

/-- Whether all tokens are read. -/
def atEnd : m Bool :=
  return (← peek).body == .eof

/-- Whether the current token is a punctuator. -/
def check (s : Symbol) : m Bool :=
  return (← peek).isSymbol s

def checkWord (name : String) : m Bool :=
  return (← peek).isWord name

/-- Reads a punctuator if it is there. -/
def eat (s : Symbol) : m Bool := do
  if ← check s then
    advance
    return true
  else return false

def eatWord (name : String) : m Bool := do
  if ← checkWord name then
    advance
    return true
  else return false

/-- Reads a punctuator that has to be there. -/
def expect (s : Symbol) : m Unit := do
  unless ← eat s do unexpected

def expectWord (name : String) : m Unit := do
  unless ← eatWord name do unexpected

/-- Reads items until there is none, at most `fuel` of them. -/
def manyUpTo {α : Type} (item : m (Option α)) : (fuel : Nat) → m (List α)
  | 0 => unexpected
  | fuel + 1 => do
    match ← item with
    | none => return []
    | some a => return a :: (← manyUpTo item fuel)

/-- Reads items until there is none. Every item takes a token, so there are no more items than
tokens. -/
def many {α : Type} (item : m (Option α)) : m (List α) := do
  manyUpTo item ((← get).rest.length + 1)

/-- Repeats a step that goes on with a new state or ends with a result, at most `fuel` times. -/
def iterateUpTo {σ α : Type} (step : σ → m (σ ⊕ α)) : (fuel : Nat) → σ → m α
  | 0, _ => unexpected
  | fuel + 1, state => do
    match ← step state with
    | .inl state => iterateUpTo step fuel state
    | .inr result => return result

/-- Repeats a step that goes on with a new state or ends with a result. Every step that goes on
takes a token. -/
def iterate {σ α : Type} (step : σ → m (σ ⊕ α)) (state : σ) : m α := do
  iterateUpTo step ((← get).rest.length + 1) state

/-- Reads items with commas between them up to a closing punctuator, which is left. A comma may
follow the last item. -/
def commaList {α : Type} (close : Symbol) (item : m α) : m (List α) :=
  many do
    if ← check close then return none
    let a ← item
    unless ← check close do expect .comma
    return some a

/-- Reads items with commas between them between two punctuators. -/
def bracketed {α : Type} (opening close : Symbol) (item : m α) : m (List α) := do
  expect opening
  let items ← commaList close item
  expect close
  return items

/-! ## The budget -/

/-- What a whole tree may spend. -/
def nestingBudget : Nat := 1024

/-- The price of a descent into a statement, an assignment or an operand. -/
def nestCost : Nat := 8

/-- The price of a link in a chain of operators, member accesses or calls. -/
def linkCost : Nat := 2

/-- Reads one more link of a chain with what is left of the budget. -/
def link {α : Type} (budget : Nat) (next : Nat → Parser α) : Parser α := do
  if budget < linkCost then fail .nestedTooDeep else next (budget - linkCost)

/-- The parts of the grammar that spend budget. `noIn` says that `in` is not an operator. -/
structure LevelOf (m : Type → Type) where
  statement : m Stmt
  assignment : (noIn : Bool) → m Expr
  /-- A chain of binary operators that bind tighter than `least`. -/
  binary : (noIn : Bool) → (least : Nat) → m Expr
  unary : m Expr
  construction : m Expr

abbrev Level := LevelOf Parser

/-- The level at which the budget is spent. -/
def LevelOf.exhausted : LevelOf m :=
  ⟨fail .nestedTooDeep, fun _ => fail .nestedTooDeep, fun _ _ => fail .nestedTooDeep,
    fail .nestedTooDeep, fail .nestedTooDeep⟩

@[inherit_doc LevelOf.exhausted]
abbrev Level.exhausted : Level :=
  LevelOf.exhausted

end Parser

end WidgetLint.Script
