import WidgetLint.Script.Parser.Basic

/-!
# Reading expressions

Each part of the grammar is given the level below it, which reads the parts that spend budget.
-/

namespace WidgetLint.Script.Parser

open Text

variable {m : Type → Type} [Monad m] [MonadStateOf Input m] [MonadExceptOf ScriptError m]

/-! ## Names -/

/-- A name that is not reserved. -/
def identifier : m Expr := do
  let start ← here
  match (← peek).name? with
  | some name =>
    advance
    return .ident (← spanFrom start) name
  | none => unexpected

/-- A member's name after a point. -/
def memberName : m (String × Span) := do
  let start ← here
  match (← peek).body.memberName? with
  | some name =>
    advance
    return (name, ← spanFrom start)
  | none => unexpected

/-! ## Lists of expressions -/

def sequence (sub : LevelOf m) (noIn : Bool) : m Expr := do
  let start ← here
  let first ← sub.assignment noIn
  if ← check .comma then
    let others ← many do
      if ← eat .comma then return some (← sub.assignment noIn) else return none
    return .sequence (← spanFrom start) (first :: others)
  else return first

def parenthesized (sub : LevelOf m) : m Expr := do
  expect .lparen
  let e ← sequence sub false
  expect .rparen
  return e

/-- An expression, or the items of one. -/
def spreadOrAssignment (sub : LevelOf m) : m Expr := do
  let start ← here
  if ← eat .ellipsis then
    let argument ← sub.assignment false
    return .spread (← spanFrom start) argument
  else sub.assignment false

def arguments (sub : LevelOf m) : m (List Expr) :=
  bracketed .lparen .rparen (spreadOrAssignment sub)

def array (sub : LevelOf m) : m Expr := do
  let start ← here
  expect .lbracket
  let items ← many do
    if ← check .rbracket then return none
    if ← eat .comma then return some none
    let item ← spreadOrAssignment sub
    unless ← check .rbracket do expect .comma
    return some (some item)
  expect .rbracket
  return .array (← spanFrom start) items

/-! ## Functions and objects -/

/-- Statements between braces. -/
def block (sub : LevelOf m) : m (List Stmt) := do
  expect .lbrace
  let body ← many do
    if ← check .rbrace then return none
    if ← atEnd then unexpected
    return some (← sub.statement)
  advance
  return body

/-- The key of a member in brackets. -/
def computedKey (sub : LevelOf m) : m Key := do
  advance
  let key ← sub.assignment false
  expect .rbracket
  return .computed key

def memberKey (sub : LevelOf m) : m Key := do
  match (← peek).body with
  | .string value =>
    advance
    return .string value
  | .number value =>
    advance
    return .number value
  | .symbol .lbracket => computedKey sub
  | body =>
    match body.memberName? with
    | some name =>
      advance
      return .ident name
    | none => unexpected

/-- Whether a token may begin the key of a member. -/
def opensKey (t : Token) : Bool :=
  match t.body with
  | .word _ | .string _ | .number _ | .boolean _ | .null => true
  | .symbol .lbracket => true
  | _ => false

/-- The kind of member that a word before the key announces. -/
def announcedKind? (t next : Token) : Option MemberKind :=
  if opensKey next then
    if t.isWord "get" then some .getter
    else if t.isWord "set" then some .setter
    else if t.isWord "async" && !next.newlineBefore then some .method
    else none
  else none

/-- A pattern or name, perhaps with a default. -/
def bindingElement (sub : LevelOf m) (target : m Expr) : m Expr := do
  let start ← here
  let name ← target
  if ← eat .eq then
    let value ← sub.assignment false
    return .assign (← spanFrom start) .assign name value
  else return name

/-- A parameter: a pattern or name, perhaps with a default, or all further arguments. -/
def param (sub : LevelOf m) (target : m Expr) : m Expr := do
  let start ← here
  if ← eat .ellipsis then
    let name ← target
    return .spread (← spanFrom start) name
  else bindingElement sub target

/-- The parameters of a function, given how their patterns are read. -/
def paramsWith (sub : LevelOf m) (target : m Expr) : m (List Expr) :=
  bracketed .lparen .rparen (param sub target)

/-- The parameters and body of a method, as a function. -/
def methodValue (sub : LevelOf m) (target : m Expr) : m Expr := do
  let start ← here
  let params ← paramsWith sub target
  let body ← block sub
  return .function (← spanFrom start) none params body

/-- What follows the key of a member without a word before it. -/
def memberValue (sub : LevelOf m) (target : m Expr) (start : Position) (generator : Bool)
    (keyToken : Token) : m (MemberKind × Expr) := do
  match (← peek).body, generator, keyToken.name? with
  | .symbol .colon, false, _ =>
    advance
    return (.pair, ← sub.assignment false)
  | .symbol .lparen, _, _ => return (.method, ← methodValue sub target)
  | .symbol .comma, false, some name => return (.shorthand, .ident keyToken.span name)
  | .symbol .rbrace, false, some name => return (.shorthand, .ident keyToken.span name)
  | .symbol .eq, false, some name =>
    advance
    let value ← sub.assignment false
    return (.shorthand, .assign (← spanFrom start) .assign (.ident keyToken.span name) value)
  | _, _, _ => unexpected

/-- A member of an object, given how patterns are read. -/
def memberWith (sub : LevelOf m) (target : m Expr) : m Member := do
  let start ← here
  if ← eat .ellipsis then
    return .spread (← sub.assignment false)
  match announcedKind? (← peek) (← peekSecond) with
  | some kind =>
    advance
    let key ← memberKey sub
    let value ← methodValue sub target
    return .named (← spanFrom start) kind key value
  | none =>
    let generator ← eat .star
    let keyToken ← peek
    let key ← memberKey sub
    let (kind, value) ← memberValue sub target start generator keyToken
    return .named (← spanFrom start) kind key value

/-- An object, given how patterns are read. -/
def objectWith (sub : LevelOf m) (target : m Expr) : m Expr := do
  let start ← here
  let members ← bracketed .lbrace .rbrace (memberWith sub target)
  return .object (← spanFrom start) members

/-- An object or array pattern, or a name, given how objects are read. -/
def bindingTargetWith (sub : LevelOf m) (object : m Expr) : m Expr := do
  match (← peek).body with
  | .symbol .lbrace => object
  | .symbol .lbracket => array sub
  | _ => identifier

/-- An object in which at most `fuel` objects nest as patterns of methods' parameters. -/
def objectUpTo (sub : LevelOf m) : (fuel : Nat) → m Expr
  | 0 => unexpected
  | fuel + 1 => objectWith sub (bindingTargetWith sub (objectUpTo sub fuel))

/-- An object. Patterns nest without spending budget, but every one takes a token. -/
def object (sub : LevelOf m) : m Expr := do
  objectUpTo sub (← get).rest.length

/-- An object or array pattern, or a name. -/
def bindingTarget (sub : LevelOf m) : m Expr :=
  bindingTargetWith sub (object sub)

def params (sub : LevelOf m) : m (List Expr) :=
  paramsWith sub (bindingTarget sub)

/-- The name of a function, if it has one. -/
def functionName? : m (Option String) := do
  if (← peek).isAnyWord then
    match (← peek).name? with
    | some name =>
      advance
      return some name
    | none => unexpected
  else return none

def functionRest (sub : LevelOf m) : m (List Expr × List Stmt) := do
  let params ← params sub
  let body ← block sub
  return (params, body)

/-- A function expression after its keyword. -/
def functionExpr (sub : LevelOf m) (start : Position) : m Expr := do
  let _ ← eat .star
  let name ← functionName?
  let (params, body) ← functionRest sub
  return .function (← spanFrom start) name params body

/-! ## Operands -/

/-- Whether the word `async` announces a function. -/
def asyncFunctionAhead : m Bool := do
  let next ← peekSecond
  return next.isWord "function" && !next.newlineBefore

/-- An expression that is a single token. -/
def atom (make : Span → Expr) : m Expr := do
  let start ← here
  advance
  return make (← spanFrom start)

/-- An operand that starts with a word. -/
def wordOperand (sub : LevelOf m) (name : String) : m Expr := do
  let start ← here
  if name = "this" then atom .this
  else if name = "function" then
    advance
    functionExpr sub start
  else if name = "async" && (← asyncFunctionAhead) then
    advance
    advance
    functionExpr sub start
  else if isReserved name then unexpected
  else atom (.ident · name)

/-- An operand without operators. -/
def primary (sub : LevelOf m) : m Expr := do
  match (← peek).body with
  | .number value => atom (.number · value)
  | .string value => atom (.string · value)
  | .template raw => atom (.template · raw)
  | .regex pattern flags => atom (.regex · pattern flags)
  | .boolean value => atom (.boolean · value)
  | .null => atom .null
  | .word name => wordOperand sub name
  | .symbol .lparen => parenthesized sub
  | .symbol .lbracket => array sub
  | .symbol .lbrace => object sub
  | _ => unexpected

/-- A computed key in brackets after an object. -/
def indexKey (sub : LevelOf m) : m Expr := do
  expect .lbracket
  let key ← sequence sub false
  expect .rbracket
  return key

/-- Reads an access by name or by key, whose punctuator is current, to the given object. -/
def access (sub : LevelOf m) (start : Position) (e : Expr) (optional : Bool) : m Expr := do
  if ← check .lbracket then
    let key ← indexKey sub
    return .index (← spanFrom start) e optional key
  else
    let (name, nameSpan) ← memberName
    return .dot (← spanFrom start) e optional name nameSpan

def callOf (sub : LevelOf m) (start : Position) (e : Expr) (optional : Bool) : m Expr := do
  let arguments ← arguments sub
  return .call (← spanFrom start) e optional arguments

/-- Reads one link of a chain of accesses and calls. -/
def chainLink (sub : LevelOf m) (start : Position) (e : Expr) (s : Symbol) : m Expr := do
  match s with
  | .dot =>
    advance
    let (name, nameSpan) ← memberName
    return .dot (← spanFrom start) e false name nameSpan
  | .questionDot =>
    advance
    if ← check .lparen then callOf sub start e true else access sub start e true
  | .lparen => callOf sub start e false
  | _ => access sub start e false

/-- Goes on with a chain as long as one of the given punctuators follows. The state is the budget
and the chain so far. -/
def chainStep (lower : Nat → Level) (start : Position) (links : List Symbol) :
    Nat × Expr → Parser ((Nat × Expr) ⊕ (Nat × Expr))
  | (budget, e) => do
    match (← peek).body with
    | .symbol s =>
      if links.contains s then
        link budget fun budget => return .inl (budget, ← chainLink (lower budget) start e s)
      else return .inr (budget, e)
    | _ => return .inr (budget, e)

/-- An operand after the word `new`: what is created, and its arguments. The budget left by the
accesses in it is what its arguments have. -/
def newRest (lower : Nat → Level) (budget : Nat) (start : Position) : Parser Expr := do
  let callee ← if ← checkWord "new" then (lower budget).construction else primary (lower budget)
  let (budget, callee) ← iterate (chainStep lower start [.dot, .lbracket]) (budget, callee)
  let arguments ← if ← check .lparen then arguments (lower budget) else pure []
  return .new (← spanFrom start) callee arguments

/-- An operand that starts with the word `new`. -/
def constructionAt (lower : Nat → Level) (budget : Nat) : Parser Expr := do
  let start ← here
  advance
  if ← eat .dot then
    let object := Expr.ident (← spanFrom start) "new"
    let (name, nameSpan) ← memberName
    return .dot (← spanFrom start) object false name nameSpan
  else newRest lower budget start

/-- An operand with accesses and calls. -/
def callMember (lower : Nat → Level) (budget : Nat) : Parser Expr := do
  let start ← here
  let first ← if ← checkWord "new" then (lower budget).construction else primary (lower budget)
  let (_, e) ← iterate (chainStep lower start [.dot, .questionDot, .lbracket, .lparen])
    (budget, first)
  return e

/-- The update operator that a token spells. -/
def updateOp? (t : Token) : Option UpdateOp :=
  match t.body with
  | .symbol s => UpdateOp.ofSymbol? s
  | _ => none

def unaryOp? (t : Token) : Option UnaryOp :=
  match t.body with
  | .symbol s => UnaryOp.ofSymbol? s
  | .word name => UnaryOp.ofWord? name
  | _ => none

def binaryOp? (noIn : Bool) (t : Token) : Option BinaryOp :=
  match t.body with
  | .symbol s => BinaryOp.ofSymbol? s
  | .word name => BinaryOp.ofWord? noIn name
  | _ => none

def assignOp? (t : Token) : Option AssignOp :=
  match t.body with
  | .symbol s => AssignOp.ofSymbol? s
  | _ => none

/-- An operand with an update operator behind it on the same line, given how the operand is read. -/
def postfixedFrom (operand : m Expr) : m Expr := do
  let start ← here
  let e ← operand
  let t ← peek
  match updateOp? t, t.newlineBefore with
  | some op, false =>
    advance
    return .update (← spanFrom start) op .behind e
  | _, _ => return e

@[inherit_doc postfixedFrom]
def postfixed (lower : Nat → Level) (budget : Nat) : Parser Expr :=
  postfixedFrom (callMember lower budget)

/-- An operand with operators before it. -/
def unaryAt (lower : Nat → Level) (budget : Nat) : Parser Expr := do
  let start ← here
  let t ← peek
  match unaryOp? t, updateOp? t with
  | some op, _ =>
    advance
    let operand ← (lower budget).unary
    return .unary (← spanFrom start) op operand
  | none, some op =>
    advance
    let operand ← (lower budget).unary
    return .update (← spanFrom start) op .before operand
  | none, none => postfixed lower budget

/-! ## Operators -/

/-- Goes on with a chain of binary operators that bind tighter than `least`. The state is the
budget and the left operand. A power is right-associative. -/
def binaryStep (lower : Nat → Level) (noIn : Bool) (least : Nat) (start : Position) :
    Nat × Expr → Parser ((Nat × Expr) ⊕ Expr)
  | (budget, left) => do
    match binaryOp? noIn (← peek) with
    | none => return .inr left
    | some op =>
      if op.precedence ≤ least then return .inr left
      else link budget fun budget => do
        advance
        let rightLeast := if op = .exp then op.precedence - 1 else op.precedence
        let right ← (lower budget).binary noIn rightLeast
        return .inl (budget, .binary (← spanFrom start) op left right)

/-- A chain of binary operators that bind tighter than `least`. -/
def binaryAt (lower : Nat → Level) (budget : Nat) (noIn : Bool) (least : Nat) : Parser Expr := do
  let start ← here
  let left ← (lower budget).unary
  iterate (binaryStep lower noIn least start) (budget, left)

/-- A conditional, or an expression of tighter operators. -/
def conditional (sub : LevelOf m) (noIn : Bool) : m Expr := do
  let start ← here
  let test ← sub.binary noIn 0
  if ← eat .question then
    let whenTrue ← sub.assignment false
    expect .colon
    let whenFalse ← sub.assignment noIn
    return .conditional (← spanFrom start) test whenTrue whenFalse
  else return test

/-! ## Arrow functions and assignments -/

/-- The tokens after the bracket that closes the innermost of `depth` open ones. -/
def afterClose : (depth : Nat) → List Token → Option (List Token)
  | _, [] => none
  | depth, t :: rest =>
    match t.body with
    | .symbol .lparen | .symbol .lbracket | .symbol .lbrace => afterClose (depth + 1) rest
    | .symbol .rparen | .symbol .rbracket | .symbol .rbrace =>
      if depth ≤ 1 then some rest else afterClose (depth - 1) rest
    | _ => afterClose depth rest

/-- Whether a name or parentheses come first and an arrow on the same line second. -/
def arrowAhead (tokens : List Token) : Bool :=
  let rest := match tokens with
    | [] => none
    | t :: rest =>
      if t.isAnyWord then some rest
      else if t.isSymbol .lparen then afterClose 0 tokens
      else none
  match rest with
  | some (t :: _) => t.isSymbol .arrow && !t.newlineBefore
  | _ => false

/-- Whether the word `async` comes first and announces an arrow function. -/
def asyncArrowAhead (input : Input) : Bool :=
  input.current.isWord "async" && !(input.ahead 1).newlineBefore && arrowAhead (input.rest.drop 1)

def arrow (sub : LevelOf m) (noIn : Bool) (start : Position) : m Expr := do
  let params ← if (← peek).isAnyWord then pure [← identifier] else params sub
  expect .arrow
  let body ←
    if ← check .lbrace then pure (ArrowBody.block (← block sub))
    else pure (ArrowBody.expression (← sub.assignment noIn))
  return .arrow (← spanFrom start) params body

/-- Whether an expression can be assigned to; patterns only plainly. -/
def isTarget (op : AssignOp) : Expr → Bool
  | .ident .. | .dot .. | .index .. => true
  | .object .. | .array .. => op == .assign
  | _ => false

/-- An assignment, or an expression of tighter operators. -/
def plainAssignment (sub : LevelOf m) (noIn : Bool) : m Expr := do
  let start ← here
  let left ← conditional sub noIn
  match assignOp? (← peek) with
  | none => return left
  | some op =>
    if isTarget op left then
      advance
      let value ← sub.assignment noIn
      return .assign (← spanFrom start) op left value
    else throw ⟨.badTarget, left.span.start⟩

/-- An arrow function, an assignment, or an expression of tighter operators. -/
def assignmentAt (sub : LevelOf m) (noIn : Bool) : m Expr := do
  let input ← get
  let start ← here
  if asyncArrowAhead input then
    advance
    arrow sub noIn start
  else if arrowAhead input.rest then arrow sub noIn start
  else plainAssignment sub noIn

end WidgetLint.Script.Parser
