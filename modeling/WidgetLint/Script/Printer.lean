import WidgetLint.Script.Lexeme
import WidgetLint.Script.Quoted
import WidgetLint.Script.Tree

/-!
# Scripts as text

Trees are written in one fixed layout: double quotes around strings, as few parentheses as the
operators allow, one statement per line and four spaces for each block. Two texts that differ only
in layout are written alike.
-/

namespace WidgetLint.Script

/-! ## How tightly expressions bind -/

/-- The strengths with which expressions hold together, loosest first. A binary operator binds
with its precedence on top of `Strength.binaryBase`. -/
abbrev Strength := Nat

namespace Strength

def any : Strength := 0
def sequence : Strength := 1
def assignment : Strength := 2
def conditional : Strength := 3
def binaryBase : Strength := 3
def unary : Strength := 15
def postfixed : Strength := 16
def call : Strength := 17
def member : Strength := 18
def primary : Strength := 20

end Strength

def BinaryOp.strength (op : BinaryOp) : Strength :=
  Strength.binaryBase + op.precedence

/-- The strength with which an expression holds together. -/
def Expr.strength : Expr → Strength
  | sequence .. => .sequence
  | assign .. | arrow .. | spread .. => .assignment
  | conditional .. => .conditional
  | binary _ op .. => op.strength
  | unary .. => .unary
  | update _ _ .before _ => .unary
  | update _ _ .behind _ => .postfixed
  | call .. => .call
  | dot .. | index .. | new .. => .member
  | _ => .primary

/-! ## Pieces of text -/

/-- Parts with commas between them. -/
def commas (parts : List String) : String :=
  ", ".intercalate parts

def parens (text : String) : String :=
  "(" ++ text ++ ")"

/-- The indentation of a line. -/
def pad (indent : Nat) : String :=
  String.ofList (List.replicate (4 * indent) ' ')

/-- The lines of a block between braces, each with its indentation. -/
def braced (indent : Nat) (lines : List String) : String :=
  if lines.isEmpty then "\x7b\x7d"
  else "\x7b\n" ++ "\n".intercalate lines ++ "\n" ++ pad indent ++ "\x7d"

/-- Whether a text can be written as a key without quotes. -/
def isWordText (s : String) : Bool :=
  match s.toList with
  | [] => false
  | c :: rest => isWordStart c && rest.all isWordPart

/-- A unary operator and its operand; a blank keeps apart what would run together. -/
def unaryText (op : UnaryOp) (operand : String) : String :=
  let clash := op == .neg && operand.startsWith "-" || op == .plus && operand.startsWith "+"
  op.text ++ (if op.isWord || clash then " " else "") ++ operand

def jumpText (keyword : String) (label : Option String) : String :=
  match label with
  | some name => keyword ++ " " ++ name ++ ";"
  | none => keyword ++ ";"

/-- An expression as a statement. What would be read as a block or a function declaration is put in
parentheses. -/
def expressionLine (text : String) : String :=
  if text.startsWith "\x7b" || text.startsWith "function" then parens text ++ ";" else text ++ ";"

def VarKind.text : VarKind → String
  | var => "var"
  | letting => "let"
  | const => "const"

/-- What stands before the key of a member. -/
def MemberKind.lead : MemberKind → String
  | getter => "get "
  | setter => "set "
  | _ => ""

/-- Whether an array ends with an item that is left out. -/
def endsWithHole : List (Option Expr) → Bool
  | [] => false
  | [item] => item.isNone
  | _ :: rest => endsWithHole rest

/-- Whether an arrow function's value has to be put in parentheses. -/
def Expr.isObject : Expr → Bool
  | object .. => true
  | _ => false

/-- Whether an expression is a number, after which a point would belong to the number. -/
def Expr.isNumber : Expr → Bool
  | number .. => true
  | _ => false

/-- A text in parentheses if the expression it stands for binds looser than `least`. -/
def Expr.guard (e : Expr) (least : Strength) (text : String) : String :=
  if e.strength < least then parens text else text

/-! ## Expressions and statements -/

mutual

/-- An expression as text, in a block of the given indentation. -/
def Expr.render (indent : Nat) : Expr → String
  | .number _ value => value.render
  | .string _ value => quote value
  | .template _ raw => "\x60" ++ raw ++ "\x60"
  | .regex _ pattern flags => "/" ++ pattern ++ "/" ++ flags
  | .boolean _ value => if value then "true" else "false"
  | .null _ => "null"
  | .ident _ name => name
  | .this _ => "this"
  | .array _ items =>
    "[" ++ commas (renderItems indent items) ++ (if endsWithHole items then "," else "") ++ "]"
  | .object _ members =>
    if members.isEmpty then "\x7b\x7d"
    else "\x7b " ++ commas (renderMembers indent members) ++ " \x7d"
  | .function _ name params body =>
    "function" ++ (name.elim "" (" " ++ ·)) ++ "(" ++ commas (renderAll indent params) ++ ") " ++
      braced indent (renderLines (indent + 1) body)
  | .arrow _ params body =>
    "(" ++ commas (renderAll indent params) ++ ") => " ++ body.render indent
  | .unary _ op operand => unaryText op (operand.guard .unary (operand.render indent))
  | .update _ op .before operand => op.text ++ operand.guard .unary (operand.render indent)
  | .update _ op .behind operand => operand.guard .call (operand.render indent) ++ op.text
  | .binary _ op left right =>
    let (leftLeast, rightLeast) :=
      if op = .exp then (op.strength + 1, op.strength) else (op.strength, op.strength + 1)
    left.guard leftLeast (left.render indent) ++ " " ++ op.text ++ " " ++
      right.guard rightLeast (right.render indent)
  | .assign _ op target value =>
    target.guard .call (target.render indent) ++ " " ++ op.text ++ " " ++
      value.guard .assignment (value.render indent)
  | .conditional _ test whenTrue whenFalse =>
    test.guard (Strength.conditional + 1) (test.render indent) ++ " ? " ++
      whenTrue.guard .assignment (whenTrue.render indent) ++ " : " ++
      whenFalse.guard .assignment (whenFalse.render indent)
  | .dot _ object optional name _ =>
    let text := object.guard .call (object.render indent)
    (if object.isNumber then parens text else text) ++ (if optional then "?." else ".") ++ name
  | .index _ object optional key =>
    object.guard .call (object.render indent) ++ (if optional then "?." else "") ++ "[" ++
      key.render indent ++ "]"
  | .call _ callee optional arguments =>
    callee.guard .call (callee.render indent) ++ (if optional then "?." else "") ++ "(" ++
      commas (renderAll indent arguments) ++ ")"
  | .new _ callee arguments =>
    "new " ++ callee.guard .member (callee.render indent) ++ "(" ++
      commas (renderAll indent arguments) ++ ")"
  | .sequence _ items => commas (renderAll indent items)
  | .spread _ argument => "..." ++ argument.guard .assignment (argument.render indent)

def renderAll (indent : Nat) : List Expr → List String
  | [] => []
  | e :: rest => e.guard .assignment (e.render indent) :: renderAll indent rest

def renderItems (indent : Nat) : List (Option Expr) → List String
  | [] => []
  | none :: rest => "" :: renderItems indent rest
  | some e :: rest => e.guard .assignment (e.render indent) :: renderItems indent rest

def renderMembers (indent : Nat) : List Member → List String
  | [] => []
  | member :: rest => member.render indent :: renderMembers indent rest

def Member.render (indent : Nat) : Member → String
  | .spread argument => "..." ++ argument.guard .assignment (argument.render indent)
  | .named _ .shorthand key (.assign _ _ _ value) =>
    key.render indent ++ " = " ++ value.guard .assignment (value.render indent)
  | .named _ .shorthand key _ => key.render indent
  | .named _ .pair key value =>
    key.render indent ++ ": " ++ value.guard .assignment (value.render indent)
  | .named _ kind key (.function _ _ params body) =>
    kind.lead ++ key.render indent ++ "(" ++ commas (renderAll indent params) ++ ") " ++
      braced indent (renderLines (indent + 1) body)
  | .named _ _ key value =>
    key.render indent ++ ": " ++ value.guard .assignment (value.render indent)

def Key.render (indent : Nat) : Key → String
  | .ident name => name
  | .string value => if isWordText value then value else quote value
  | .number value => value.render
  | .computed key => "[" ++ key.guard .assignment (key.render indent) ++ "]"

def ArrowBody.render (indent : Nat) : ArrowBody → String
  | .expression value =>
    let text := value.guard .assignment (value.render indent)
    if value.isObject then parens text else text
  | .block body => braced indent (renderLines (indent + 1) body)

/-- Statements, each on a line with the given indentation. -/
def renderLines (indent : Nat) : List Stmt → List String
  | [] => []
  | s :: rest => (pad indent ++ s.render indent) :: renderLines indent rest

/-- A statement as text. -/
def Stmt.render (indent : Nat) : Stmt → String
  | .expression _ value => expressionLine (value.render indent)
  | .declaration _ kind declarators =>
    kind.text ++ " " ++ commas (renderDeclarators indent declarators) ++ ";"
  | .function _ name params body =>
    "function " ++ name ++ "(" ++ commas (renderAll indent params) ++ ") " ++
      braced indent (renderLines (indent + 1) body)
  | .returning _ value => "return" ++ renderSpaced indent value ++ ";"
  | .branch _ test whenTrue whenFalse =>
    "if (" ++ test.render indent ++ ") " ++ whenTrue.render indent ++
      renderElse indent whenFalse
  | .forLoop _ init test update body =>
    "for (" ++ renderInit indent init ++ ";" ++ renderSpaced indent test ++ ";" ++
      renderSpaced indent update ++ ") " ++ body.render indent
  | .forEach _ left right body of =>
    "for (" ++ left.render indent ++ (if of then " of " else " in ") ++ right.render indent ++
      ") " ++ body.render indent
  | .whileLoop _ test body => "while (" ++ test.render indent ++ ") " ++ body.render indent
  | .doWhile _ body test =>
    "do " ++ body.render indent ++ " while (" ++ test.render indent ++ ");"
  | .block _ body => braced indent (renderLines (indent + 1) body)
  | .breaking _ label => jumpText "break" label
  | .continuing _ label => jumpText "continue" label
  | .throwing _ value => "throw " ++ value.render indent ++ ";"
  | .trying _ body handler finalizer =>
    "try " ++ braced indent (renderLines (indent + 1) body) ++ renderHandler indent handler ++
      renderFinalizer indent finalizer
  | .switch _ subject cases =>
    "switch (" ++ subject.render indent ++ ") \x7b\n" ++
      String.join ((renderCases (indent + 1) cases).map (· ++ "\n")) ++ pad indent ++ "\x7d"
  | .labeled _ label body => label ++ ": " ++ body.render indent
  | .empty _ => ";"
  | .debugger _ => "debugger;"

def renderSpaced (indent : Nat) : Option Expr → String
  | none => ""
  | some e => " " ++ e.render indent

def renderElse (indent : Nat) : Option Stmt → String
  | none => ""
  | some s => " else " ++ s.render indent

def renderDeclarators (indent : Nat) : List Declarator → List String
  | [] => []
  | d :: rest => d.render indent :: renderDeclarators indent rest

def Declarator.render (indent : Nat) : Declarator → String
  | .mk target none => target.render indent
  | .mk target (some value) =>
    target.render indent ++ " = " ++ value.guard .assignment (value.render indent)

def ForInit.render (indent : Nat) : ForInit → String
  | .declaration kind declarators =>
    kind.text ++ " " ++ commas (renderDeclarators indent declarators)
  | .expression value => value.render indent

def renderInit (indent : Nat) : Option ForInit → String
  | none => ""
  | some init => init.render indent

def renderHandler (indent : Nat) : Option Handler → String
  | none => ""
  | some handler => " catch " ++ handler.render indent

def Handler.render (indent : Nat) : Handler → String
  | .mk none body => braced indent (renderLines (indent + 1) body)
  | .mk (some param) body =>
    "(" ++ param.render indent ++ ") " ++ braced indent (renderLines (indent + 1) body)

def renderFinalizer (indent : Nat) : Option (List Stmt) → String
  | none => ""
  | some body => " finally " ++ braced indent (renderLines (indent + 1) body)

def renderCases (indent : Nat) : List Case → List String
  | [] => []
  | c :: rest => c.render indent ++ renderCases indent rest

def Case.render (indent : Nat) : Case → List String
  | .mk none body => (pad indent ++ "default:") :: renderLines (indent + 1) body
  | .mk (some test) body =>
    (pad indent ++ "case " ++ test.render indent ++ ":") :: renderLines (indent + 1) body

end

/-- An expression as text. -/
def Expr.text (e : Expr) : String :=
  e.render 0

/-- A script as text, one statement per line. -/
def Program.text (p : Program) : String :=
  "\n".intercalate (renderLines 0 p.body)

end WidgetLint.Script
