import WidgetLint.Script.Symbol

/-!
# Operators of scripts

The operators of expressions, their spellings and, for binary operators, how tightly they bind.
-/

namespace WidgetLint.Script

inductive BinaryOp where
  | add | sub | mul | div | mod | exp
  | eq | notEq | strictEq | strictNotEq | less | greater | lessEq | greaterEq
  | shl | shr | ushr | bitAnd | bitOr | bitXor
  | and | or | nullish | within | instanceOf
deriving DecidableEq, Repr

/-- An operator before its operand that only computes. -/
inductive UnaryOp where
  | not | neg | plus | bitNot | typeOf | void | delete
deriving DecidableEq, Repr

/-- An operator that changes its operand. -/
inductive UpdateOp where
  | increment | decrement
deriving DecidableEq, Repr

/-- On which side of its operand an update operator stands. -/
inductive UpdateSide where
  | before | behind
deriving DecidableEq, Repr

/-- An assignment operator: a plain assignment, or one that computes first. -/
inductive AssignOp where
  | assign | add | sub | mul | div | mod | exp | shl | shr | ushr | bitAnd | bitOr | bitXor
  | and | or | nullish
deriving DecidableEq, Repr

namespace BinaryOp

def text : BinaryOp → String
  | add => "+"
  | sub => "-"
  | mul => "*"
  | div => "/"
  | mod => "%"
  | exp => "**"
  | eq => "=="
  | notEq => "!="
  | strictEq => "==="
  | strictNotEq => "!=="
  | less => "<"
  | greater => ">"
  | lessEq => "<="
  | greaterEq => ">="
  | shl => "<<"
  | shr => ">>"
  | ushr => ">>>"
  | bitAnd => "&"
  | bitOr => "|"
  | bitXor => "^"
  | and => "&&"
  | or => "||"
  | nullish => "??"
  | within => "in"
  | instanceOf => "instanceof"

/-- How tightly a binary operator binds; a greater number binds tighter. -/
def precedence : BinaryOp → Nat
  | or | nullish => 1
  | and => 2
  | bitOr => 3
  | bitXor => 4
  | bitAnd => 5
  | eq | notEq | strictEq | strictNotEq => 6
  | less | greater | lessEq | greaterEq | within | instanceOf => 7
  | shl | shr | ushr => 8
  | add | sub => 9
  | mul | div | mod => 10
  | exp => 11

def ofSymbol? : Symbol → Option BinaryOp
  | .orOr => some or
  | .questionQuestion => some nullish
  | .andAnd => some and
  | .or => some bitOr
  | .caret => some bitXor
  | .and => some bitAnd
  | .eqEq => some eq
  | .notEq => some notEq
  | .eqEqEq => some strictEq
  | .notEqEq => some strictNotEq
  | .less => some less
  | .greater => some greater
  | .lessEq => some lessEq
  | .greaterEq => some greaterEq
  | .shl => some shl
  | .shr => some shr
  | .ushr => some ushr
  | .plus => some add
  | .minus => some sub
  | .star => some mul
  | .slash => some div
  | .percent => some mod
  | .starStar => some exp
  | _ => none

/-- The binary operator that a word spells. Where `noIn` holds, `in` is none. -/
def ofWord? (noIn : Bool) (name : String) : Option BinaryOp :=
  if name = "instanceof" then some instanceOf
  else if name = "in" && !noIn then some within
  else none

end BinaryOp

namespace UnaryOp

def text : UnaryOp → String
  | not => "!"
  | neg => "-"
  | plus => "+"
  | bitNot => "~"
  | typeOf => "typeof"
  | void => "void"
  | delete => "delete"

def isWord : UnaryOp → Bool
  | typeOf | void | delete => true
  | _ => false

def ofSymbol? : Symbol → Option UnaryOp
  | .not => some not
  | .minus => some neg
  | .plus => some plus
  | .tilde => some bitNot
  | _ => none

def ofWord? (name : String) : Option UnaryOp :=
  if name = "typeof" then some typeOf
  else if name = "void" then some void
  else if name = "delete" then some delete
  else none

end UnaryOp

namespace UpdateOp

def text : UpdateOp → String
  | increment => "++"
  | decrement => "--"

def ofSymbol? : Symbol → Option UpdateOp
  | .plusPlus => some increment
  | .minusMinus => some decrement
  | _ => none

end UpdateOp

namespace AssignOp

def text : AssignOp → String
  | assign => "="
  | add => "+="
  | sub => "-="
  | mul => "*="
  | div => "/="
  | mod => "%="
  | exp => "**="
  | shl => "<<="
  | shr => ">>="
  | ushr => ">>>="
  | bitAnd => "&="
  | bitOr => "|="
  | bitXor => "^="
  | and => "&&="
  | or => "||="
  | nullish => "??="

def ofSymbol? : Symbol → Option AssignOp
  | .eq => some assign
  | .plusEq => some add
  | .minusEq => some sub
  | .starEq => some mul
  | .slashEq => some div
  | .percentEq => some mod
  | .starStarEq => some exp
  | .shlEq => some shl
  | .shrEq => some shr
  | .ushrEq => some ushr
  | .andEq => some bitAnd
  | .orEq => some bitOr
  | .caretEq => some bitXor
  | .andAndEq => some and
  | .orOrEq => some or
  | .questionQuestionEq => some nullish
  | _ => none

end AssignOp

end WidgetLint.Script
