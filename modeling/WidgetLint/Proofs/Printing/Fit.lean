import WidgetLint.Proofs.Printing.Printed
import WidgetLint.Script.Parser.Expr
import WidgetLint.Script.Walk

/-!
# Trees that print faithfully

`Node.Shaped` says of a node what holds of every tree that was read: which expressions stand where,
and that names are no reserved words. `Node.Faithful` says that the printed node reads back as
itself. It fails where the printer leaves out parentheses that the grammar needs: around the callee
of `new`, around an object that starts the body of an arrow function, around `in` and `let` in the
head of a loop, around a comma expression after `of`; and where a name is a literal word.
-/

namespace WidgetLint.Script

open WidgetLint.Script.Parser

/-! ## Walks -/

/-- A predicate holds of all nodes of a walk. -/
def Everywhere (P : Node → Prop) (vs : List Visit) : Prop :=
  ∀ v ∈ vs, P v.node

section
variable {P Q : Node → Prop} {vs ws : List Visit} {d : Nat}

theorem everywhere_nil : Everywhere P [] :=
  nofun

theorem everywhere_append : Everywhere P (vs ++ ws) ↔ Everywhere P vs ∧ Everywhere P ws :=
  List.forall_mem_append

theorem everywhere_expr {e : Expr} :
    Everywhere P (e.visit d vs) ↔ P (.expr e) ∧ Everywhere P vs :=
  List.forall_mem_cons

theorem everywhere_stmt {s : Stmt} :
    Everywhere P (s.visit d vs) ↔ P (.stmt s) ∧ Everywhere P vs :=
  List.forall_mem_cons

theorem Everywhere.imp (h : Everywhere P vs) (himp : ∀ n, P n → Q n) : Everywhere Q vs :=
  fun v hv => himp v.node (h v hv)

end

/-! ## Shapes -/

/-- Whether an expression can stand by itself: it is no list of items, and not the word `new` before
a point. -/
def Expr.isOrdinary : Expr → Bool
  | .spread .. => false
  | .ident _ name => name != "new"
  | _ => true

/-- Whether an expression can stand in a list of arguments. -/
def Expr.isElement : Expr → Bool
  | .ident _ name => name != "new"
  | _ => true

/-- Whether an expression can be bound: a name or a pattern. -/
def Expr.isPattern : Expr → Bool
  | .ident _ name => name != "new"
  | .array .. | .object .. => true
  | _ => false

/-- Whether an expression can be a parameter. -/
def Expr.isParam : Expr → Bool
  | .assign _ op target _ => op == .assign && target.isPattern
  | .spread _ target => target.isPattern
  | e => e.isPattern

/-- What is said of a member by its kind. -/
def Member.Shaped : Member → Prop
  | .spread argument => argument.isOrdinary
  | .named _ kind key value =>
    (∀ e, key = .computed e → e.isOrdinary) ∧
      match kind with
      | .pair => value.isOrdinary
      | .shorthand =>
        ∃ name, key = .ident name ∧ isReserved name = false ∧
          ((∃ s, value = .ident s name) ∨
            ∃ s s' v, value = .assign s .assign (.ident s' name) v)
      | .getter | .setter | .method => ∃ s params body, value = .function s none params body

/-- What is said of an expression by its kind. -/
def Expr.Shaped : Expr → Prop
  | .ident _ name => isReserved name = false ∨ name = "new"
  | .array _ items => ∀ e, some e ∈ items → e.isElement
  | .object _ members => ∀ member ∈ members, member.Shaped
  | .function _ name params _ =>
    (∀ n, name = some n → isReserved n = false) ∧ ∀ p ∈ params, p.isParam
  | .arrow _ params body =>
    (∀ p ∈ params, p.isParam) ∧ ∀ value, body = .expression value → value.isOrdinary
  | .unary _ _ e | .update _ _ _ e | .spread _ e => e.isOrdinary
  | .binary _ _ left right => left.isOrdinary ∧ right.isOrdinary
  | .assign _ op target value => isTarget op target ∧ target.isOrdinary ∧ value.isOrdinary
  | .conditional _ test whenTrue whenFalse =>
    test.isOrdinary ∧ whenTrue.isOrdinary ∧ whenFalse.isOrdinary
  | .dot _ base optional _ _ =>
    base.isOrdinary ∨ (∃ s, base = .ident s "new") ∧ optional = false
  | .index _ base _ key => base.isOrdinary ∧ key.isOrdinary
  | .call _ callee _ arguments => callee.isOrdinary ∧ ∀ e ∈ arguments, e.isElement
  | .new _ callee arguments => callee.isOrdinary ∧ ∀ e ∈ arguments, e.isElement
  | .sequence _ items => 2 ≤ items.length ∧ ∀ e ∈ items, e.isOrdinary
  | _ => True

/-- Whether a statement ends with a branch that has no alternative. -/
def Stmt.endsOpen : Stmt → Bool
  | .branch _ _ _ none => true
  | .branch _ _ _ (some whenFalse) => whenFalse.endsOpen
  | .forLoop _ _ _ _ body | .forEach _ _ _ body _ | .whileLoop _ _ body | .labeled _ _ body =>
    body.endsOpen
  | _ => false

def Declarator.Shaped : Declarator → Prop
  | .mk target value => target.isPattern ∧ ∀ e, value = some e → e.isOrdinary

def ForInit.Shaped : ForInit → Prop
  | .declaration _ declarators => declarators ≠ [] ∧ ∀ d ∈ declarators, d.Shaped
  | .expression value => value.isOrdinary

/-- What is said of a statement by its kind. -/
def Stmt.Shaped : Stmt → Prop
  | .expression _ value | .throwing _ value => value.isOrdinary
  | .declaration _ _ declarators => declarators ≠ [] ∧ ∀ d ∈ declarators, d.Shaped
  | .function _ name params _ => isReserved name = false ∧ ∀ p ∈ params, p.isParam
  | .returning _ value => ∀ e, value = some e → e.isOrdinary
  | .branch _ test whenTrue whenFalse =>
    test.isOrdinary ∧ (whenFalse.isSome → whenTrue.endsOpen = false)
  | .forLoop _ init test update _ =>
    (∀ i, init = some i → i.Shaped) ∧ (∀ e, test = some e → e.isOrdinary) ∧
      ∀ e, update = some e → e.isOrdinary
  | .forEach _ left right _ _ => left.Shaped ∧ right.isOrdinary
  | .whileLoop _ test _ | .doWhile _ _ test => test.isOrdinary
  | .breaking _ label | .continuing _ label => ∀ n, label = some n → isReserved n = false
  | .trying _ _ handler finalizer =>
    (handler.isSome ∨ finalizer.isSome) ∧
      ∀ param body, handler = some (.mk (some param) body) → param.isPattern
  | .switch _ subject cases =>
    subject.isOrdinary ∧ ∀ test body, .mk (some test) body ∈ cases → test.isOrdinary
  | .labeled _ label _ => isReserved label = false
  | _ => True

def Node.Shaped : Node → Prop
  | .expr e => e.Shaped
  | .stmt s => s.Shaped

/-! ## Faithful printing -/

/-- The words that stand for values. -/
def isLiteralWord (name : String) : Bool :=
  name == "true" || name == "false" || name == "null"

theorem wordBody_eq {name : String} (h : isLiteralWord name = false) :
    wordBody name name.toList = .word name := by
  simp only [isLiteralWord, Bool.or_eq_false_iff, beq_eq_false_iff_ne] at h
  rw [wordBody, if_neg h.1.1, if_neg h.1.2, if_neg h.2]
  simp

/-- Whether an expression is a chain of accesses by the given punctuators, as far as it is printed
without parentheses. -/
def Expr.chains (links : List Symbol) : Expr → Bool
  | .dot _ base optional _ _ =>
    links.contains (if optional then .questionDot else .dot) &&
      (base.isNumber || base.strength < .call || base.chains links)
  | .index _ base optional _ =>
    links.contains (if optional then .questionDot else .lbracket) &&
      (base.strength < .call || base.chains links)
  | .call _ callee optional _ =>
    links.contains (if optional then .questionDot else .lparen) &&
      (callee.strength < .call || callee.chains links)
  | _ => true

/-- The first token of a printed expression. -/
def Expr.first : Expr → TokenBody
  | .number _ value => .number value
  | .string _ value => .string value
  | .template _ raw => .template raw
  | .regex _ pattern flags => .regex pattern flags
  | .boolean _ value => .boolean value
  | .null _ => .null
  | .ident _ name => wordBody name name.toList
  | .this _ => .word "this"
  | .array .. => .symbol .lbracket
  | .object .. => .symbol .lbrace
  | .function .. => .word "function"
  | .arrow .. => .symbol .lparen
  | .unary _ op _ => op.body
  | .update _ op .before _ => .symbol op.symbol
  | .update _ _ .behind operand =>
    if operand.strength < .call then .symbol .lparen else operand.first
  | .binary _ op left _ =>
    if left.strength < op.operandStrengths.1 then .symbol .lparen else left.first
  | .assign _ _ target _ => if target.strength < .call then .symbol .lparen else target.first
  | .conditional _ test _ _ =>
    if test.strength < Strength.conditional + 1 then .symbol .lparen else test.first
  | .dot _ base _ _ _ =>
    if base.isNumber || base.strength < .call then .symbol .lparen else base.first
  | .index _ base _ _ => if base.strength < .call then .symbol .lparen else base.first
  | .call _ callee _ _ => if callee.strength < .call then .symbol .lparen else callee.first
  | .new .. => .word "new"
  | .sequence _ [] => .eof
  | .sequence _ (e :: _) => if e.strength < .assignment then .symbol .lparen else e.first
  | .spread .. => .symbol .ellipsis

/-- Whether an expression is the name `let`. -/
def Expr.isLet : Expr → Bool
  | .ident _ name => name == "let"
  | _ => false

/-- Whether an operator is spelled as a word. -/
def BinaryOp.isWord : BinaryOp → Bool
  | .within | .instanceOf => true
  | _ => false

/-- Whether a printed expression starts with the name `let` and then a word or a bracket, as a
declaration does. -/
def Expr.looksDeclared : Expr → Bool
  | .update _ _ .behind operand => !(operand.strength < .call) && operand.looksDeclared
  | .binary _ op left _ =>
    !(left.strength < op.operandStrengths.1) && (left.isLet && op.isWord || left.looksDeclared)
  | .assign _ _ target _ => !(target.strength < .call) && target.looksDeclared
  | .conditional _ test _ _ =>
    !(test.strength < Strength.conditional + 1) && test.looksDeclared
  | .dot _ base _ _ _ => !(base.strength < .call) && base.looksDeclared
  | .index _ base optional _ =>
    !(base.strength < .call) && (base.isLet && !optional || base.looksDeclared)
  | .call _ callee _ _ => !(callee.strength < .call) && callee.looksDeclared
  | .sequence _ (e :: _) => !(e.strength < .assignment) && e.looksDeclared
  | _ => false

mutual

/-- Whether no operator `in` of an expression is printed outside of brackets. -/
def Expr.hidesIn : Expr → Bool
  | .binary _ op left right =>
    op != .within && (left.strength < op.operandStrengths.1 || left.hidesIn) &&
      (right.strength < op.operandStrengths.2 || right.hidesIn)
  | .assign _ _ _ value => value.strength < .assignment || value.hidesIn
  | .conditional _ test _ whenFalse =>
    (test.strength < Strength.conditional + 1 || test.hidesIn) &&
      (whenFalse.strength < .assignment || whenFalse.hidesIn)
  | .arrow _ _ (.expression value) =>
    value.isObject || value.strength < .assignment || value.hidesIn
  | .sequence _ items => hidesInAll items
  | _ => true

def hidesInAll : List Expr → Bool
  | [] => true
  | e :: rest => (e.strength < .assignment || e.hidesIn) && hidesInAll rest

end

/-- The printed expression reads back as itself, as far as its own node is concerned. -/
def Expr.Faithful : Expr → Prop
  | .ident _ name => isLiteralWord name = false
  | .function _ name _ _ => ∀ n, name = some n → isLiteralWord n = false
  | .arrow _ _ (.expression value) =>
    value.isObject ∨ value.strength < .assignment ∨ value.first ≠ .symbol .lbrace
  | .new _ callee _ => callee.strength < .member ∨ callee.chains [.dot, .lbracket]
  | _ => True

def ForInit.Faithful : ForInit → Prop
  | .declaration _ declarators =>
    ∀ target value, .mk target (some value) ∈ declarators →
      value.strength < .assignment ∨ value.hidesIn
  | .expression value => value.hidesIn ∧ value.looksDeclared = false

def Stmt.Faithful : Stmt → Prop
  | .expression _ value => value.looksDeclared = false
  | .function _ name _ _ => isLiteralWord name = false
  | .breaking _ label | .continuing _ label => ∀ n, label = some n → isLiteralWord n = false
  | .labeled _ label _ => isLiteralWord label = false
  | .forLoop _ init _ _ _ => ∀ i, init = some i → i.Faithful
  | .forEach _ left right _ of =>
    left.Faithful ∧ (∀ value, left = .expression value → value.isLet = false) ∧
      (of → .assignment ≤ right.strength)
  | _ => True

/-- The printed node reads back as itself, given that the nodes inside it do. -/
def Node.Faithful : Node → Prop
  | .expr e => e.Faithful
  | .stmt s => s.Faithful

/-- What reading back a printed node relies on. -/
def Node.Fit (n : Node) : Prop :=
  n.Shaped ∧ n.Faithful

/-- All nodes of a walk are fit. -/
def AllFit (vs : List Visit) : Prop :=
  Everywhere Node.Fit vs

/-- An expression and all expressions and statements inside it are fit. -/
abbrev Expr.FitAt (d : Nat) (e : Expr) : Prop :=
  AllFit (e.visit d (e.inside (d + 1)))

abbrev Stmt.FitAt (d : Nat) (s : Stmt) : Prop :=
  AllFit (s.visit d (s.inside (d + 1)))

theorem allFit_append {vs ws : List Visit} : AllFit (vs ++ ws) ↔ AllFit vs ∧ AllFit ws :=
  everywhere_append

theorem allFit_expr {d : Nat} {e : Expr} {vs : List Visit} :
    AllFit (e.visit d vs) ↔ (e.Shaped ∧ e.Faithful) ∧ AllFit vs :=
  everywhere_expr

theorem allFit_stmt {d : Nat} {s : Stmt} {vs : List Visit} :
    AllFit (s.visit d vs) ↔ (s.Shaped ∧ s.Faithful) ∧ AllFit vs :=
  everywhere_stmt

end WidgetLint.Script
