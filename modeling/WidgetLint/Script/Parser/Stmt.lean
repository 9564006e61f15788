import WidgetLint.Script.Parser.Expr

/-!
# Reading statements

A statement ends at a semicolon, at the end of a line, before a closing brace or at the end of the
text. A statement is read before its place is known in full, so each reader gives the statement
for any place.
-/

namespace WidgetLint.Script.Parser

open Text

variable {m : Type → Type} [Monad m] [MonadStateOf Input m] [MonadExceptOf ScriptError m]

/-- Whether a statement may end before the current token. -/
def atStatementEnd : m Bool := do
  let t ← peek
  return t.isSymbol .semicolon || t.isSymbol .rbrace || t.body == .eof || t.newlineBefore

/-- Reads the end of a statement. -/
def endStatement : m Unit := do
  unless ← eat .semicolon do
    unless ← atStatementEnd do unexpected

/-! ## Declarations -/

/-- The kind of declaration that the current token begins. -/
def declarationKind? : m (Option VarKind) := do
  let t ← peek
  let next ← peekSecond
  if t.isWord "var" then return some .var
  else if t.isWord "const" then return some .const
  else if t.isWord "let" then
    if next.isAnyWord || next.isSymbol .lbracket || next.isSymbol .lbrace then
      return some .letting
    else return none
  else return none

def declarator (sub : LevelOf m) (noIn : Bool) : m Declarator := do
  let target ← bindingTarget sub
  if ← eat .eq then
    return .mk target (some (← sub.assignment noIn))
  else return .mk target none

/-- The variables of a declaration, whose keyword is current. -/
def declarators (sub : LevelOf m) (noIn : Bool) : m (List Declarator) := do
  advance
  let first ← declarator sub noIn
  let others ← many do
    if ← eat .comma then return some (← declarator sub noIn) else return none
  return first :: others

def declaration (sub : LevelOf m) (kind : VarKind) : m (Span → Stmt) := do
  let declared ← declarators sub false
  endStatement
  return fun span => .declaration span kind declared

/-- A declaration of a function after its keyword. -/
def functionDeclaration (sub : LevelOf m) : m (Span → Stmt) := do
  let _ ← eat .star
  match ← functionName? with
  | some name =>
    let (params, body) ← functionRest sub
    return fun span => .function span name params body
  | none => unexpected

/-! ## Loops -/

/-- What stands first in the head of a loop. -/
def forInit (sub : LevelOf m) : m ForInit := do
  match ← declarationKind? with
  | some kind => return .declaration kind (← declarators sub true)
  | none => return .expression (← sequence sub true)

/-- An expression, unless the punctuator after it comes at once. -/
def unlessAt (sub : LevelOf m) (s : Symbol) : m (Option Expr) := do
  if ← check s then return none else return some (← sequence sub false)

/-- The rest of a loop over keys or items. -/
def forEachRest (sub : LevelOf m) (left : ForInit) : m (Span → Stmt) := do
  let of ← checkWord "of"
  advance
  let right ← if of then sub.assignment false else sequence sub false
  expect .rparen
  let body ← sub.statement
  return fun span => .forEach span left right body of

def forLoopRest (sub : LevelOf m) (init : Option ForInit) : m (Span → Stmt) := do
  expect .semicolon
  let test ← unlessAt sub .semicolon
  expect .semicolon
  let update ← unlessAt sub .rparen
  expect .rparen
  let body ← sub.statement
  return fun span => .forLoop span init test update body

/-- A loop with a head of its own. -/
def forStatement (sub : LevelOf m) : m (Span → Stmt) := do
  advance
  expect .lparen
  if ← check .semicolon then forLoopRest sub none
  else
    let left ← forInit sub
    let t ← peek
    if t.isWord "in" || t.isWord "of" then forEachRest sub left
    else forLoopRest sub (some left)

/-- A loop with its test before its body. -/
def whileStatement (sub : LevelOf m) : m (Span → Stmt) := do
  advance
  let test ← parenthesized sub
  let body ← sub.statement
  return fun span => .whileLoop span test body

/-- A loop with its test after its body. -/
def doStatement (sub : LevelOf m) : m (Span → Stmt) := do
  advance
  let body ← sub.statement
  expectWord "while"
  let test ← parenthesized sub
  let _ ← eat .semicolon
  return fun span => .doWhile span body test

/-! ## Branches and jumps -/

def ifStatement (sub : LevelOf m) : m (Span → Stmt) := do
  advance
  let test ← parenthesized sub
  let whenTrue ← sub.statement
  if ← eatWord "else" then
    let whenFalse ← sub.statement
    return fun span => .branch span test whenTrue (some whenFalse)
  else return fun span => .branch span test whenTrue none

def returnStatement (sub : LevelOf m) : m (Span → Stmt) := do
  advance
  let value ← if ← atStatementEnd then pure none else some <$> sequence sub false
  endStatement
  return fun span => .returning span value

/-- The label of a jump, if it stands on the same line. -/
def jumpLabel? : m (Option String) := do
  let t ← peek
  match t.name?, t.newlineBefore with
  | some name, false =>
    advance
    return some name
  | _, _ => return none

/-- A jump out of or within a loop. -/
def jumpStatement (make : Span → Option String → Stmt) : m (Span → Stmt) := do
  advance
  let label ← jumpLabel?
  endStatement
  return fun span => make span label

/-- A throw; its value has to start on the same line. -/
def throwStatement (sub : LevelOf m) : m (Span → Stmt) := do
  advance
  if (← peek).newlineBefore then fail .newlineAfterThrow
  let value ← sequence sub false
  endStatement
  return fun span => .throwing span value

/-- The parameter of a handler, if it has one. -/
def handlerParam? (sub : LevelOf m) : m (Option Expr) := do
  if ← eat .lparen then
    let param ← bindingTarget sub
    expect .rparen
    return some param
  else return none

/-- A block with a handler, a last part, or both. -/
def tryStatement (sub : LevelOf m) : m (Span → Stmt) := do
  advance
  let body ← block sub
  let handler ←
    if ← eatWord "catch" then
      let param ← handlerParam? sub
      pure (some (Handler.mk param (← block sub)))
    else pure none
  let finalizer ← if ← eatWord "finally" then some <$> block sub else pure none
  if handler.isNone && finalizer.isNone then fail .missingHandler
  return fun span => .trying span body handler finalizer

/-- The test of a part of a switch; the default one has none. -/
def caseTest (sub : LevelOf m) : m (Option Expr) := do
  if ← eatWord "case" then return some (← sequence sub false)
  else if ← eatWord "default" then return none
  else unexpected

def caseBody (sub : LevelOf m) : m (List Stmt) :=
  many do
    let t ← peek
    if t.isSymbol .rbrace || t.isWord "case" || t.isWord "default" then return none
    if t.body == .eof then unexpected
    return some (← sub.statement)

def switchStatement (sub : LevelOf m) : m (Span → Stmt) := do
  advance
  let subject ← parenthesized sub
  expect .lbrace
  let cases ← many do
    if ← eat .rbrace then return none
    let test ← caseTest sub
    expect .colon
    return some (Case.mk test (← caseBody sub))
  return fun span => .switch span subject cases

/-! ## Statements -/

def expressionStatement (sub : LevelOf m) : m (Span → Stmt) := do
  let value ← sequence sub false
  endStatement
  return fun span => .expression span value

/-- A statement with a label, or an expression that starts with a word. -/
def labeledOrExpression (sub : LevelOf m) (name : String) : m (Span → Stmt) := do
  if (← peekSecond).isSymbol .colon && !isReserved name then
    advance
    advance
    let body ← sub.statement
    return fun span => .labeled span name body
  else expressionStatement sub

/-- A statement that starts with a word. -/
def wordStatement (sub : LevelOf m) (name : String) : m (Span → Stmt) := do
  match ← declarationKind? with
  | some kind => declaration sub kind
  | none =>
    match name with
    | "function" =>
      advance
      functionDeclaration sub
    | "async" =>
      if ← asyncFunctionAhead then
        advance
        advance
        functionDeclaration sub
      else labeledOrExpression sub name
    | "if" => ifStatement sub
    | "for" => forStatement sub
    | "while" => whileStatement sub
    | "do" => doStatement sub
    | "return" => returnStatement sub
    | "break" => jumpStatement .breaking
    | "continue" => jumpStatement .continuing
    | "throw" => throwStatement sub
    | "try" => tryStatement sub
    | "switch" => switchStatement sub
    | "debugger" =>
      advance
      endStatement
      return fun span => .debugger span
    | _ => labeledOrExpression sub name

/-- A statement, given its level's parts. -/
def statementAt (sub : LevelOf m) : m Stmt := do
  let start ← here
  let make ← match (← peek).body with
    | .symbol .lbrace => do
      let body ← block sub
      pure fun span => Stmt.block span body
    | .symbol .semicolon => do
      advance
      pure fun span => Stmt.empty span
    | .word name => wordStatement sub name
    | _ => expressionStatement sub
  return make (← spanFrom start)

end WidgetLint.Script.Parser
