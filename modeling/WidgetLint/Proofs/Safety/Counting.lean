import WidgetLint.Proofs.Safety.Checked
import WidgetLint.Script.Parser

/-!
# A parser that counts what it spends

The parser of scripts hands down what is left of its budget. This one reads by the same grammar and
keeps a counter of what is spent: `nest` adds to it and fails if that is too much, and on every way
out of a part of the grammar `leave` takes off again what the part has spent, links of chains
included. Neither the counter nor the precedence that a power asks of its right operand may go below
zero: where one would, there is no result.
-/

namespace WidgetLint.Script

open Text

/-- A parser with a counter of the budget spent so far. -/
abbrev Counting := StateT Input (StateT Nat (ExceptT ScriptError Option))

namespace Counting

open WidgetLint.Script.Parser

/-- Spends some of the budget. -/
def nest (cost : Nat) : Counting Unit := do
  let depth := (← getThe Nat) + cost
  set depth
  if nestingBudget < depth then fail .nestedTooDeep

/-- Gives back some of what was spent. -/
def leave (cost : Nat) : Counting Unit := do
  set (← liftM (minus? (← getThe Nat) cost))

/-! ## The parts of the grammar that spend -/

section
variable (sub : LevelOf Counting)

def statement : Counting Stmt := do
  nest nestCost
  let s ← statementAt sub
  leave nestCost
  return s

/-- Goes on with a chain as long as one of the given punctuators follows. The state is the number
of links and the chain so far. -/
def chainStep (start : Position) (links : List Symbol) :
    Nat × Expr → Counting ((Nat × Expr) ⊕ (Nat × Expr))
  | (n, e) => do
    match (← peek).body with
    | .symbol s =>
      if links.contains s then
        nest linkCost
        return .inl (n + 1, ← chainLink sub start e s)
      else return .inr (n, e)
    | _ => return .inr (n, e)

def newRest (start : Position) : Counting Expr := do
  let callee ← if ← checkWord "new" then sub.construction else primary sub
  let (n, callee) ← iterate (chainStep sub start [.dot, .lbracket]) (0, callee)
  let arguments ← if ← check .lparen then arguments sub else pure []
  leave (nestCost + n * linkCost)
  return .new (← spanFrom start) callee arguments

def construction : Counting Expr := do
  nest nestCost
  let start ← here
  advance
  if ← eat .dot then
    let object := Expr.ident (← spanFrom start) "new"
    let (name, nameSpan) ← memberName
    leave nestCost
    return .dot (← spanFrom start) object false name nameSpan
  else newRest sub start

def callMember : Counting Expr := do
  let start ← here
  let first ← if ← checkWord "new" then sub.construction else primary sub
  let (n, e) ← iterate (chainStep sub start [.dot, .questionDot, .lbracket, .lparen]) (0, first)
  leave (n * linkCost)
  return e

def unary : Counting Expr := do
  nest nestCost
  let start ← here
  let t ← peek
  match unaryOp? t, updateOp? t with
  | some op, _ =>
    advance
    let operand ← sub.unary
    leave nestCost
    return .unary (← spanFrom start) op operand
  | none, some op =>
    advance
    let operand ← sub.unary
    leave nestCost
    return .update (← spanFrom start) op .before operand
  | none, none =>
    let e ← postfixedFrom (callMember sub)
    leave nestCost
    return e

/-- What an operator on the right of another has to bind tighter than. A power is
right-associative. -/
def rightLeast (op : BinaryOp) : Counting Nat :=
  if op = .exp then liftM (minus? op.precedence 1) else return op.precedence

def binaryStep (noIn : Bool) (least : Nat) (start : Position) :
    Nat × Expr → Counting ((Nat × Expr) ⊕ (Nat × Expr))
  | (n, left) => do
    match binaryOp? noIn (← peek) with
    | none => return .inr (n, left)
    | some op =>
      if op.precedence ≤ least then return .inr (n, left)
      else
        nest linkCost
        advance
        let right ← sub.binary noIn (← rightLeast op)
        return .inl (n + 1, .binary (← spanFrom start) op left right)

def binary (noIn : Bool) (least : Nat) : Counting Expr := do
  nest nestCost
  let start ← here
  let left ← sub.unary
  let (n, e) ← iterate (binaryStep sub noIn least start) (0, left)
  leave (nestCost + n * linkCost)
  return e

def plainAssignment (noIn : Bool) : Counting Expr := do
  let start ← here
  let left ← conditional sub noIn
  match assignOp? (← peek) with
  | none =>
    leave nestCost
    return left
  | some op =>
    if isTarget op left then
      advance
      let value ← sub.assignment noIn
      leave nestCost
      return .assign (← spanFrom start) op left value
    else throw ⟨.badTarget, left.span.start⟩

def assignment (noIn : Bool) : Counting Expr := do
  nest nestCost
  let input ← get
  let start ← here
  if asyncArrowAhead input then
    advance
    let e ← arrow sub noIn start
    leave nestCost
    return e
  else if arrowAhead input.rest then
    let e ← arrow sub noIn start
    leave nestCost
    return e
  else plainAssignment sub noIn

end

def level : (descents : Nat) → LevelOf Counting
  | 0 => .exhausted
  | descents + 1 =>
    { statement := statement (level descents)
      assignment := assignment (level descents)
      binary := binary (level descents)
      unary := unary (level descents)
      construction := construction (level descents) }

def top : LevelOf Counting :=
  level (nestingBudget / nestCost)

end Counting

end WidgetLint.Script
