import WidgetLint.Proofs.Safety.Checked
import WidgetLint.Proofs.Text.Place
import WidgetLint.Script.Walk

/-!
# The parts of trees

A part of a tree is what knows the stretch of text it was read from: an expression, a statement, a
named member of an object, or the name in an access to a member. Every part has direct parts, in the
order of the text. It is well nested if its stretch is not empty, its direct parts lie within it, one
behind the other, and each of them is well nested (`Part.WellNested`).
-/

namespace WidgetLint.Text

theorem Span.Covers.stop_offset {text part : List Char} {span : Span} (h : span.Covers text part) :
    span.stop.offset = span.start.offset + byteSize part := by
  obtain ⟨before, behind, -, hstart, hstop⟩ := h
  rw [hstart, hstop, Position.after_append, Position.offset_after]

theorem Span.Covers.length_eq {text part : List Char} {span : Span} (h : span.Covers text part) :
    span.length = byteSize part := by
  rw [Span.length, h.stop_offset, Nat.add_sub_cancel_left]

end WidgetLint.Text

namespace WidgetLint.Script

open Text

/-- A part of a tree that knows where it stands. -/
inductive Part where
  | expr (e : Expr)
  | stmt (s : Stmt)
  /-- A named member of an object. -/
  | named (span : Span) (key : Key) (value : Expr)
  /-- The name in an access to a member. -/
  | name (span : Span)

def Part.span : Part → Span
  | expr e => e.span
  | stmt s => s.span
  | named span _ _ => span
  | name span => span

def Node.part : Node → Part
  | .expr e => .expr e
  | .stmt s => .stmt s

/-! ## Direct parts -/

def Key.parts : Key → List Part
  | computed key => [.expr key]
  | ident _ | string _ | number _ => []

def Member.parts : Member → List Part
  | named span _ key value => [.named span key value]
  | spread argument => [.expr argument]

def optionalPart (e : Option Expr) : List Part :=
  e.toList.map .expr

def ArrowBody.parts : ArrowBody → List Part
  | expression value => [.expr value]
  | block body => body.map .stmt

def Declarator.parts : Declarator → List Part
  | mk target value => .expr target :: optionalPart value

def ForInit.parts : ForInit → List Part
  | declaration _ declarators => declarators.flatMap Declarator.parts
  | expression value => [.expr value]

def Handler.parts : Handler → List Part
  | mk param body => optionalPart param ++ body.map .stmt

def Case.parts : Case → List Part
  | mk test body => optionalPart test ++ body.map .stmt

/-- The direct parts of an expression. -/
def Expr.parts : Expr → List Part
  | number .. | string .. | template .. | regex .. | boolean .. | null _ | ident .. | this _ => []
  | array _ items => items.flatMap optionalPart
  | object _ members => members.flatMap Member.parts
  | function _ _ params body => params.map .expr ++ body.map .stmt
  | arrow _ params body => params.map .expr ++ body.parts
  | unary _ _ operand | update _ _ _ operand => [.expr operand]
  | binary _ _ left right => [.expr left, .expr right]
  | assign _ _ target value => [.expr target, .expr value]
  | conditional _ test whenTrue whenFalse => [.expr test, .expr whenTrue, .expr whenFalse]
  | dot _ base _ _ nameSpan => [.expr base, .name nameSpan]
  | index _ base _ key => [.expr base, .expr key]
  | call _ callee _ arguments | new _ callee arguments => .expr callee :: arguments.map .expr
  | sequence _ items => items.map .expr
  | spread _ argument => [.expr argument]

def Stmt.parts : Stmt → List Part
  | expression _ value | throwing _ value => [.expr value]
  | declaration _ _ declarators => declarators.flatMap Declarator.parts
  | function _ _ params body => params.map .expr ++ body.map .stmt
  | returning _ value => optionalPart value
  | branch _ test whenTrue whenFalse =>
    .expr test :: .stmt whenTrue :: whenFalse.toList.map .stmt
  | forLoop _ init test update body =>
    init.toList.flatMap ForInit.parts ++ optionalPart test ++ optionalPart update ++ [.stmt body]
  | forEach _ left right body _ => left.parts ++ [.expr right, .stmt body]
  | whileLoop _ test body => [.expr test, .stmt body]
  | doWhile _ body test => [.stmt body, .expr test]
  | block _ body => body.map .stmt
  | trying _ body handler finalizer =>
    body.map .stmt ++ handler.toList.flatMap Handler.parts ++
      finalizer.toList.flatMap (·.map .stmt)
  | switch _ subject cases => .expr subject :: cases.flatMap Case.parts
  | labeled _ _ body => [.stmt body]
  | breaking .. | continuing .. | empty _ | debugger _ => []

/-- The direct parts of a part, in the order of the text. -/
def Part.parts : Part → List Part
  | expr e => e.parts
  | stmt s => s.parts
  | named _ key value => key.parts ++ [.expr value]
  | name _ => []

/-! ## Well nested parts -/

/-- One stretch of text lies within another. -/
def Span.Within (inner outer : Span) : Prop :=
  outer.start.offset ≤ inner.start.offset ∧ inner.stop.offset ≤ outer.stop.offset

/-- One part ends before the other one begins. -/
def Part.Precedes (p q : Part) : Prop :=
  p.span.stop.offset ≤ q.span.start.offset

/-- A part stands for characters of a text, as many bytes as its span is long; its direct parts lie
within it, one behind the other, and are well nested too. -/
inductive Part.WellNested (text : List Char) : Part → Prop
  | mk {p : Part} {stretch : List Char} : stretch ≠ [] → p.span.Covers text stretch →
    p.span.length = byteSize stretch → (∀ q ∈ p.parts, Span.Within q.span p.span) →
    p.parts.Pairwise Part.Precedes → (∀ q ∈ p.parts, q.WellNested text) → p.WellNested text

/-! ## Parts in order -/

/-- Parts follow one another from one byte up to another, and none of them is empty. -/
def Successive : Nat → List Part → Nat → Prop
  | lo, [], hi => lo ≤ hi
  | lo, p :: ps, hi => lo ≤ p.span.start.offset ∧ p.span.start.offset < p.span.stop.offset ∧
    Successive p.span.stop.offset ps hi

section
variable {lo mid hi : Nat} {ps qs : List Part} {text : List Char}

theorem Successive.le (h : Successive lo ps hi) : lo ≤ hi := by
  induction ps generalizing lo with
  | nil => exact h
  | cons p ps ih => exact Nat.le_trans h.1 (Nat.le_trans (Nat.le_of_lt h.2.1) (ih h.2.2))

theorem Successive.append (h : Successive lo ps mid) (hqs : Successive mid qs hi) :
    Successive lo (ps ++ qs) hi := by
  induction ps generalizing lo with
  | nil =>
    cases qs with
    | nil => exact Nat.le_trans h hqs
    | cons q qs => exact ⟨Nat.le_trans h hqs.1, hqs.2⟩
  | cons p ps ih => exact ⟨h.1, h.2.1, ih h.2.2⟩

theorem Successive.extend (h : Successive lo ps mid) (hle : mid ≤ hi) : Successive lo ps hi := by
  have hrest : Successive lo (ps ++ []) hi := h.append hle
  rwa [List.append_nil] at hrest

theorem Successive.within (h : Successive lo ps hi) :
    ∀ p ∈ ps, lo ≤ p.span.start.offset ∧ p.span.stop.offset ≤ hi := by
  induction ps generalizing lo with
  | nil => simp
  | cons p ps ih =>
    refine List.forall_mem_cons.2 ⟨⟨h.1, h.2.2.le⟩, fun q hq => ?_⟩
    have hq := ih h.2.2 q hq
    exact ⟨Nat.le_trans (Nat.le_trans h.1 (Nat.le_of_lt h.2.1)) hq.1, hq.2⟩

theorem Successive.apart (h : Successive lo ps hi) : ps.Pairwise Part.Precedes := by
  induction ps generalizing lo with
  | nil => exact .nil
  | cons p ps ih => exact .cons (fun q hq => (h.2.2.within q hq).1) (ih h.2.2)

end

/-- A part that stands between two places is well nested if its direct parts follow one another
there. -/
theorem Part.wellNested_of_successive {text : List Char} {p : Part}
    (hstart : PlaceOf text p.span.start) (hstop : PlaceOf text p.span.stop)
    (hlt : p.span.start.offset < p.span.stop.offset)
    (hparts : Successive p.span.start.offset p.parts p.span.stop.offset)
    (hnested : ∀ q ∈ p.parts, q.WellNested text) : p.WellNested text := by
  obtain ⟨stretch, hcovers⟩ := covers_of_le hstart hstop (Nat.le_of_lt hlt)
  have hends : p.span.stop.offset = p.span.start.offset + byteSize stretch := hcovers.stop_offset
  refine .mk (fun hnil => ?_) hcovers hcovers.length_eq hparts.within hparts.apart hnested
  rw [hnil, byteSize_nil] at hends
  omega

end WidgetLint.Script
