import WidgetLint.Proofs.Script.Relabel
import WidgetLint.Script.Walk

/-!
# Walks of moved trees

A walk visits the nodes of a moved tree in the order of the tree itself, each of them moved. The
proof follows the walk through every kind of node.
-/

namespace WidgetLint.Script

open Text

def Visit.move (f : Position → Position) : Visit → Visit
  | ⟨depth, .expr e⟩ => ⟨depth, .expr (e.move f)⟩
  | ⟨depth, .stmt s⟩ => ⟨depth, .stmt (s.move f)⟩

@[simp] theorem Expr.map_visit (f : Position → Position) (d : Nat) (e : Expr)
    (inside : List Visit) :
    (e.visit d inside).map (Visit.move f) = (e.move f).visit d (inside.map (Visit.move f)) := rfl

@[simp] theorem Stmt.map_visit (f : Position → Position) (d : Nat) (s : Stmt)
    (inside : List Visit) :
    (s.visit d inside).map (Visit.move f) = (s.move f).visit d (inside.map (Visit.move f)) := rfl

section
variable (f : Position → Position)

mutual

theorem Expr.inside_move (d : Nat) (e : Expr) :
    (e.move f).inside d = (e.inside d).map (Visit.move f) := by
  cases e with
  | number | string | template | regex | boolean | null | ident | this =>
    simp [Expr.relabel, Expr.inside]
  | array s items => simp [Expr.relabel, Expr.inside, visitItems_move d items]
  | object s members => simp [Expr.relabel, Expr.inside, visitMembers_move d members]
  | function s name params body =>
    simp [Expr.relabel, Expr.inside, visitAll_move d params, visitBody_move d body]
  | arrow s params body =>
    simp [Expr.relabel, Expr.inside, visitAll_move d params, body.inside_move d]
  | unary s op operand => simp [Expr.relabel, Expr.inside, operand.inside_move (d + 1)]
  | update s op side operand => simp [Expr.relabel, Expr.inside, operand.inside_move (d + 1)]
  | binary s op left right =>
    simp [Expr.relabel, Expr.inside, left.inside_move (d + 1), right.inside_move (d + 1)]
  | assign s op target value =>
    simp [Expr.relabel, Expr.inside, target.inside_move (d + 1), value.inside_move (d + 1)]
  | conditional s test whenTrue whenFalse =>
    simp [Expr.relabel, Expr.inside, test.inside_move (d + 1), whenTrue.inside_move (d + 1),
      whenFalse.inside_move (d + 1)]
  | dot s object optional name nameSpan =>
    simp [Expr.relabel, Expr.inside, object.inside_move (d + 1)]
  | index s object optional key =>
    simp [Expr.relabel, Expr.inside, object.inside_move (d + 1), key.inside_move (d + 1)]
  | call s callee optional arguments =>
    simp [Expr.relabel, Expr.inside, callee.inside_move (d + 1), visitAll_move d arguments]
  | new s callee arguments =>
    simp [Expr.relabel, Expr.inside, callee.inside_move (d + 1), visitAll_move d arguments]
  | sequence s items => simp [Expr.relabel, Expr.inside, visitAll_move d items]
  | spread s argument => simp [Expr.relabel, Expr.inside, argument.inside_move (d + 1)]

theorem visitAll_move (d : Nat) (es : List Expr) :
    visitAll d (relabelAll (.moving f) es) = (visitAll d es).map (Visit.move f) := by
  cases es with
  | nil => simp [relabelAll, visitAll]
  | cons e rest =>
    simp [relabelAll, visitAll, e.inside_move (d + 1), visitAll_move d rest]

theorem visitOptional_move (d : Nat) (e : Option Expr) :
    visitOptional d (relabelOption (.moving f) e) = (visitOptional d e).map (Visit.move f) := by
  cases e with
  | none => simp [relabelOption, visitOptional]
  | some e => simp [relabelOption, visitOptional, e.inside_move (d + 1)]

theorem visitItems_move (d : Nat) (items : List (Option Expr)) :
    visitItems d (relabelItems (.moving f) items) = (visitItems d items).map (Visit.move f) := by
  cases items with
  | nil => simp [relabelItems, visitItems]
  | cons item rest =>
    simp [relabelItems, visitItems, visitOptional_move d item, visitItems_move d rest]

theorem visitMembers_move (d : Nat) (members : List Member) :
    visitMembers d (relabelMembers (.moving f) members) =
      (visitMembers d members).map (Visit.move f) := by
  cases members with
  | nil => simp [relabelMembers, visitMembers]
  | cons member rest =>
    simp [relabelMembers, visitMembers, member.inside_move d, visitMembers_move d rest]

theorem Member.inside_move (d : Nat) (member : Member) :
    (member.relabel (.moving f)).inside d = (member.inside d).map (Visit.move f) := by
  cases member with
  | named s kind key value =>
    simp [Member.relabel, Member.inside, key.inside_move d, value.inside_move (d + 1)]
  | spread argument => simp [Member.relabel, Member.inside, argument.inside_move (d + 1)]

theorem Key.inside_move (d : Nat) (key : Key) :
    (key.relabel (.moving f)).inside d = (key.inside d).map (Visit.move f) := by
  cases key with
  | ident | string | number => simp [Key.relabel, Key.inside]
  | computed key => simp [Key.relabel, Key.inside, key.inside_move (d + 1)]

theorem ArrowBody.inside_move (d : Nat) (body : ArrowBody) :
    (body.relabel (.moving f)).inside d = (body.inside d).map (Visit.move f) := by
  cases body with
  | expression value =>
    simp [ArrowBody.relabel, ArrowBody.inside, value.inside_move (d + 1)]
  | block body => simp [ArrowBody.relabel, ArrowBody.inside, visitBody_move d body]

theorem Stmt.inside_move (d : Nat) (s : Stmt) :
    (s.move f).inside d = (s.inside d).map (Visit.move f) := by
  cases s with
  | breaking | continuing | empty | debugger => simp [Stmt.relabel, Stmt.inside]
  | expression s value => simp [Stmt.relabel, Stmt.inside, value.inside_move (d + 1)]
  | declaration s kind declarators =>
    simp [Stmt.relabel, Stmt.inside, visitDeclarators_move d declarators]
  | function s name params body =>
    simp [Stmt.relabel, Stmt.inside, visitAll_move d params, visitBody_move d body]
  | returning s value => simp [Stmt.relabel, Stmt.inside, visitOptional_move d value]
  | branch s test whenTrue whenFalse =>
    simp [Stmt.relabel, Stmt.inside, test.inside_move (d + 1), whenTrue.inside_move (d + 1),
      visitElse_move d whenFalse]
  | forLoop s init test update body =>
    simp [Stmt.relabel, Stmt.inside, visitInit_move d init, visitOptional_move d test,
      visitOptional_move d update, body.inside_move (d + 1)]
  | forEach s left right body of =>
    simp [Stmt.relabel, Stmt.inside, left.inside_move d, right.inside_move (d + 1),
      body.inside_move (d + 1)]
  | whileLoop s test body =>
    simp [Stmt.relabel, Stmt.inside, test.inside_move (d + 1), body.inside_move (d + 1)]
  | doWhile s body test =>
    simp [Stmt.relabel, Stmt.inside, test.inside_move (d + 1), body.inside_move (d + 1)]
  | block s body => simp [Stmt.relabel, Stmt.inside, visitBody_move d body]
  | throwing s value => simp [Stmt.relabel, Stmt.inside, value.inside_move (d + 1)]
  | trying s body handler finalizer =>
    simp [Stmt.relabel, Stmt.inside, visitBody_move d body, visitHandler_move d handler,
      visitFinalizer_move d finalizer]
  | switch s subject cases =>
    simp [Stmt.relabel, Stmt.inside, subject.inside_move (d + 1), visitCases_move d cases]
  | labeled s label body => simp [Stmt.relabel, Stmt.inside, body.inside_move (d + 1)]

theorem visitBody_move (d : Nat) (body : List Stmt) :
    visitBody d (relabelBody (.moving f) body) = (visitBody d body).map (Visit.move f) := by
  cases body with
  | nil => simp [relabelBody, visitBody]
  | cons s rest => simp [relabelBody, visitBody, s.inside_move (d + 1), visitBody_move d rest]

theorem visitElse_move (d : Nat) (s : Option Stmt) :
    visitElse d (relabelElse (.moving f) s) = (visitElse d s).map (Visit.move f) := by
  cases s with
  | none => simp [relabelElse, visitElse]
  | some s => simp [relabelElse, visitElse, s.inside_move (d + 1)]

theorem visitDeclarators_move (d : Nat) (ds : List Declarator) :
    visitDeclarators d (relabelDeclarators (.moving f) ds) =
      (visitDeclarators d ds).map (Visit.move f) := by
  match ds with
  | [] => simp [relabelDeclarators, visitDeclarators]
  | .mk target value :: rest =>
    simp [relabelDeclarators, Declarator.relabel, visitDeclarators, target.inside_move (d + 1),
      visitOptional_move d value, visitDeclarators_move d rest]

theorem ForInit.inside_move (d : Nat) (init : ForInit) :
    (init.relabel (.moving f)).inside d = (init.inside d).map (Visit.move f) := by
  cases init with
  | declaration kind ds => simp [ForInit.relabel, ForInit.inside, visitDeclarators_move d ds]
  | expression value => simp [ForInit.relabel, ForInit.inside, value.inside_move (d + 1)]

theorem visitInit_move (d : Nat) (init : Option ForInit) :
    visitInit d (relabelInit (.moving f) init) = (visitInit d init).map (Visit.move f) := by
  cases init with
  | none => simp [relabelInit, visitInit]
  | some init => simp [relabelInit, visitInit, init.inside_move d]

theorem visitHandler_move (d : Nat) (handler : Option Handler) :
    visitHandler d (relabelHandler (.moving f) handler) =
      (visitHandler d handler).map (Visit.move f) := by
  match handler with
  | none => simp [relabelHandler, visitHandler]
  | some (.mk param body) =>
    simp [relabelHandler, Handler.relabel, visitHandler, visitOptional_move d param,
      visitBody_move d body]

theorem visitFinalizer_move (d : Nat) (finalizer : Option (List Stmt)) :
    visitFinalizer d (relabelFinalizer (.moving f) finalizer) =
      (visitFinalizer d finalizer).map (Visit.move f) := by
  cases finalizer with
  | none => simp [relabelFinalizer, visitFinalizer]
  | some body => simp [relabelFinalizer, visitFinalizer, visitBody_move d body]

theorem visitCases_move (d : Nat) (cases : List Case) :
    visitCases d (relabelCases (.moving f) cases) = (visitCases d cases).map (Visit.move f) := by
  match cases with
  | [] => simp [relabelCases, visitCases]
  | .mk test body :: rest =>
    simp [relabelCases, Case.relabel, visitCases, visitOptional_move d test,
      visitBody_move d body, visitCases_move d rest]

end

end

end WidgetLint.Script
