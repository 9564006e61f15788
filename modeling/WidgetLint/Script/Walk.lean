import WidgetLint.Script.Tree

/-!
# Walking trees

The nodes of a script in the order in which a reader meets them: every node before the nodes
inside it. A member's name is no node of its own, and the test of a loop comes before its body
wherever it is written.
-/

namespace WidgetLint.Script

inductive Node where
  | expr (e : Expr)
  | stmt (s : Stmt)

/-- A node and how many nodes are around it. -/
structure Visit where
  depth : Nat
  node : Node

/-- The visits of an expression, given those inside it. -/
def Expr.visit (depth : Nat) (e : Expr) (inside : List Visit) : List Visit :=
  ⟨depth, .expr e⟩ :: inside

def Stmt.visit (depth : Nat) (s : Stmt) (inside : List Visit) : List Visit :=
  ⟨depth, .stmt s⟩ :: inside

mutual

/-- The visits inside an expression, the outermost at the given depth. -/
def Expr.inside (d : Nat) : Expr → List Visit
  | .number .. | .string .. | .template .. | .regex .. | .boolean .. | .null _ | .ident ..
  | .this _ => []
  | .array _ items => visitItems d items
  | .object _ members => visitMembers d members
  | .function _ _ params body => visitAll d params ++ visitBody d body
  | .arrow _ params body => visitAll d params ++ body.inside d
  | .unary _ _ operand => operand.visit d (operand.inside (d + 1))
  | .update _ _ _ operand => operand.visit d (operand.inside (d + 1))
  | .binary _ _ left right =>
    left.visit d (left.inside (d + 1)) ++ right.visit d (right.inside (d + 1))
  | .assign _ _ target value =>
    target.visit d (target.inside (d + 1)) ++ value.visit d (value.inside (d + 1))
  | .conditional _ test whenTrue whenFalse =>
    test.visit d (test.inside (d + 1)) ++ whenTrue.visit d (whenTrue.inside (d + 1)) ++
      whenFalse.visit d (whenFalse.inside (d + 1))
  | .dot _ object _ _ _ => object.visit d (object.inside (d + 1))
  | .index _ object _ key =>
    object.visit d (object.inside (d + 1)) ++ key.visit d (key.inside (d + 1))
  | .call _ callee _ arguments =>
    callee.visit d (callee.inside (d + 1)) ++ visitAll d arguments
  | .new _ callee arguments => callee.visit d (callee.inside (d + 1)) ++ visitAll d arguments
  | .sequence _ items => visitAll d items
  | .spread _ argument => argument.visit d (argument.inside (d + 1))

def visitAll (d : Nat) : List Expr → List Visit
  | [] => []
  | e :: rest => e.visit d (e.inside (d + 1)) ++ visitAll d rest

def visitOptional (d : Nat) : Option Expr → List Visit
  | none => []
  | some e => e.visit d (e.inside (d + 1))

def visitItems (d : Nat) : List (Option Expr) → List Visit
  | [] => []
  | item :: rest => visitOptional d item ++ visitItems d rest

def visitMembers (d : Nat) : List Member → List Visit
  | [] => []
  | member :: rest => member.inside d ++ visitMembers d rest

def Member.inside (d : Nat) : Member → List Visit
  | .named _ _ key value => key.inside d ++ value.visit d (value.inside (d + 1))
  | .spread argument => argument.visit d (argument.inside (d + 1))

def Key.inside (d : Nat) : Key → List Visit
  | .computed key => key.visit d (key.inside (d + 1))
  | .ident _ | .string _ | .number _ => []

def ArrowBody.inside (d : Nat) : ArrowBody → List Visit
  | .expression value => value.visit d (value.inside (d + 1))
  | .block body => visitBody d body

def Stmt.inside (d : Nat) : Stmt → List Visit
  | .expression _ value => value.visit d (value.inside (d + 1))
  | .declaration _ _ declarators => visitDeclarators d declarators
  | .function _ _ params body => visitAll d params ++ visitBody d body
  | .returning _ value => visitOptional d value
  | .branch _ test whenTrue whenFalse =>
    test.visit d (test.inside (d + 1)) ++ whenTrue.visit d (whenTrue.inside (d + 1)) ++
      visitElse d whenFalse
  | .forLoop _ init test update body =>
    visitInit d init ++ visitOptional d test ++ visitOptional d update ++
      body.visit d (body.inside (d + 1))
  | .forEach _ left right body _ =>
    left.inside d ++ right.visit d (right.inside (d + 1)) ++ body.visit d (body.inside (d + 1))
  | .whileLoop _ test body =>
    test.visit d (test.inside (d + 1)) ++ body.visit d (body.inside (d + 1))
  | .doWhile _ body test =>
    test.visit d (test.inside (d + 1)) ++ body.visit d (body.inside (d + 1))
  | .block _ body => visitBody d body
  | .throwing _ value => value.visit d (value.inside (d + 1))
  | .trying _ body handler finalizer =>
    visitBody d body ++ visitHandler d handler ++ visitFinalizer d finalizer
  | .switch _ subject cases => subject.visit d (subject.inside (d + 1)) ++ visitCases d cases
  | .labeled _ _ body => body.visit d (body.inside (d + 1))
  | .breaking .. | .continuing .. | .empty _ | .debugger _ => []

def visitBody (d : Nat) : List Stmt → List Visit
  | [] => []
  | s :: rest => s.visit d (s.inside (d + 1)) ++ visitBody d rest

def visitElse (d : Nat) : Option Stmt → List Visit
  | none => []
  | some s => s.visit d (s.inside (d + 1))

def visitDeclarators (d : Nat) : List Declarator → List Visit
  | [] => []
  | .mk target value :: rest =>
    target.visit d (target.inside (d + 1)) ++ visitOptional d value ++ visitDeclarators d rest

def ForInit.inside (d : Nat) : ForInit → List Visit
  | .declaration _ declarators => visitDeclarators d declarators
  | .expression value => value.visit d (value.inside (d + 1))

def visitInit (d : Nat) : Option ForInit → List Visit
  | none => []
  | some init => init.inside d

def visitHandler (d : Nat) : Option Handler → List Visit
  | none => []
  | some (.mk param body) => visitOptional d param ++ visitBody d body

def visitFinalizer (d : Nat) : Option (List Stmt) → List Visit
  | none => []
  | some body => visitBody d body

def visitCases (d : Nat) : List Case → List Visit
  | [] => []
  | .mk test body :: rest => visitOptional d test ++ visitBody d body ++ visitCases d rest

end

/-- The visits of a script, its statements at depth zero. -/
def Program.visits (p : Program) : List Visit :=
  visitBody 0 p.body

end WidgetLint.Script
