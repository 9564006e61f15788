import WidgetLint.Number.Decimal
import WidgetLint.Text.Position
import WidgetLint.Script.Operator

/-!
# Trees of scripts

Expressions and statements. Every expression, statement and named member knows the stretch of text
it was read from. Patterns that take values apart are written as object and array expressions.
-/

namespace WidgetLint.Script

open Text Number

/-- The keyword of a variable declaration. -/
inductive VarKind where
  | var | letting | const
deriving DecidableEq, Repr

/-- How a named member of an object is written. -/
inductive MemberKind where
  /-- A key, a colon and a value. -/
  | pair
  /-- Only a name, perhaps with a default, which is both key and value. -/
  | shorthand
  | getter
  | setter
  | method
deriving DecidableEq, Repr

mutual

inductive Expr where
  | number (span : Span) (value : Binary64)
  | string (span : Span) (value : String)
  | template (span : Span) (raw : String)
  | regex (span : Span) (pattern flags : String)
  | boolean (span : Span) (value : Bool)
  | null (span : Span)
  | ident (span : Span) (name : String)
  | this (span : Span)
  /-- An array; an item may be left out. -/
  | array (span : Span) (items : List (Option Expr))
  | object (span : Span) (members : List Member)
  | function (span : Span) (name : Option String) (params : List Expr) (body : List Stmt)
  | arrow (span : Span) (params : List Expr) (body : ArrowBody)
  | unary (span : Span) (op : UnaryOp) (operand : Expr)
  | update (span : Span) (op : UpdateOp) (side : UpdateSide) (operand : Expr)
  | binary (span : Span) (op : BinaryOp) (left right : Expr)
  | assign (span : Span) (op : AssignOp) (target value : Expr)
  | conditional (span : Span) (test whenTrue whenFalse : Expr)
  /-- Access to a member by its name. -/
  | dot (span : Span) (object : Expr) (optional : Bool) (name : String) (nameSpan : Span)
  /-- Access to a member by a computed key. -/
  | index (span : Span) (object : Expr) (optional : Bool) (key : Expr)
  | call (span : Span) (callee : Expr) (optional : Bool) (arguments : List Expr)
  | new (span : Span) (callee : Expr) (arguments : List Expr)
  | sequence (span : Span) (items : List Expr)
  | spread (span : Span) (argument : Expr)

/-- A part of an object expression. -/
inductive Member where
  | named (span : Span) (kind : MemberKind) (key : Key) (value : Expr)
  | spread (argument : Expr)

inductive Key where
  | ident (name : String)
  | string (value : String)
  | number (value : Binary64)
  | computed (key : Expr)

/-- The body of an arrow function. -/
inductive ArrowBody where
  | expression (value : Expr)
  | block (body : List Stmt)

inductive Stmt where
  | expression (span : Span) (value : Expr)
  | declaration (span : Span) (kind : VarKind) (declarators : List Declarator)
  | function (span : Span) (name : String) (params : List Expr) (body : List Stmt)
  | returning (span : Span) (value : Option Expr)
  | branch (span : Span) (test : Expr) (whenTrue : Stmt) (whenFalse : Option Stmt)
  | forLoop (span : Span) (init : Option ForInit) (test update : Option Expr) (body : Stmt)
  /-- A loop over the keys or, if `of` holds, the items of a value. -/
  | forEach (span : Span) (left : ForInit) (right : Expr) (body : Stmt) (of : Bool)
  | whileLoop (span : Span) (test : Expr) (body : Stmt)
  | doWhile (span : Span) (body : Stmt) (test : Expr)
  | block (span : Span) (body : List Stmt)
  | breaking (span : Span) (label : Option String)
  | continuing (span : Span) (label : Option String)
  | throwing (span : Span) (value : Expr)
  | trying (span : Span) (body : List Stmt) (handler : Option Handler)
      (finalizer : Option (List Stmt))
  | switch (span : Span) (subject : Expr) (cases : List Case)
  | labeled (span : Span) (label : String) (body : Stmt)
  | empty (span : Span)
  | debugger (span : Span)

/-- A variable and its initial value. -/
inductive Declarator where
  | mk (target : Expr) (value : Option Expr)

/-- What stands first in the head of a loop. -/
inductive ForInit where
  | declaration (kind : VarKind) (declarators : List Declarator)
  | expression (value : Expr)

/-- What happens when a block throws. -/
inductive Handler where
  | mk (param : Option Expr) (body : List Stmt)

/-- A part of a switch; the default one has no test. -/
inductive Case where
  | mk (test : Option Expr) (body : List Stmt)

end

structure Program where
  body : List Stmt
  span : Span

def Expr.span : Expr → Span
  | number span .. | string span .. | template span .. | regex span .. | boolean span ..
  | null span | ident span .. | this span | array span .. | object span .. | function span ..
  | arrow span .. | unary span .. | update span .. | binary span .. | assign span ..
  | conditional span .. | dot span .. | index span .. | call span .. | new span ..
  | sequence span .. | spread span .. => span

def Stmt.span : Stmt → Span
  | expression span .. | declaration span .. | function span .. | returning span ..
  | branch span .. | forLoop span .. | forEach span .. | whileLoop span .. | doWhile span ..
  | block span .. | breaking span .. | continuing span .. | throwing span .. | trying span ..
  | switch span .. | labeled span .. | empty span | debugger span => span

/-- The name of a key, if it does not have to be computed. -/
def Key.name? : Key → Option String
  | ident name => some name
  | string value => some value
  | number value => some value.render
  | computed _ => none

end WidgetLint.Script
