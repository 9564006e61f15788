import WidgetLint.Proofs.Script.Relabel
import WidgetLint.Script.Printer

/-!
# Printing does not look at positions

A tree whose positions are replaced is printed as the tree itself (`Expr.text_move`), and so is one
whose string keys become other keys, if these are written alike (`Expr.text_relabel`). The proof
follows the printer through every kind of node.
-/

namespace WidgetLint.Script

open Text

section
variable (r : Relabeling)

@[simp] theorem Expr.strength_relabel (e : Expr) : (e.relabel r).strength = e.strength := by
  cases e with
  | update s op side operand => cases side <;> rfl
  | _ => rfl

@[simp] theorem Expr.isObject_relabel (e : Expr) : (e.relabel r).isObject = e.isObject := by
  cases e <;> rfl

@[simp] theorem Expr.isNumber_relabel (e : Expr) : (e.relabel r).isNumber = e.isNumber := by
  cases e <;> rfl

@[simp] theorem Expr.guard_relabel (e : Expr) (least : Strength) (text : String) :
    (e.relabel r).guard least text = e.guard least text := by
  rw [Expr.guard, Expr.guard, Expr.strength_relabel]

@[simp] theorem endsWithHole_relabel (items : List (Option Expr)) :
    endsWithHole (relabelItems r items) = endsWithHole items := by
  induction items with
  | nil => rfl
  | cons item rest ih =>
    cases rest with
    | nil => cases item <;> rfl
    | cons next others => exact ih

@[simp] theorem isEmpty_relabelMembers (members : List Member) :
    (relabelMembers r members).isEmpty = members.isEmpty := by
  cases members <;> rfl

/-- A named member prints its key, its value or, of a default or a function, the parts inside. -/
theorem Member.render_named_relabel {s : Span} {kind : MemberKind} {key : Key} {value : Expr}
    {indent : Nat} (hkey : (key.relabel r).render indent = key.render indent)
    (hvalue : (value.relabel r).render indent = value.render indent)
    (hdefault : ∀ t op target inner, value = .assign t op target inner →
      (inner.relabel r).render indent = inner.render indent)
    (hfunction : ∀ t name params body, value = .function t name params body →
      renderAll indent (relabelAll r params) = renderAll indent params ∧
        renderLines (indent + 1) (relabelBody r body) = renderLines (indent + 1) body) :
    ((Member.named s kind key value).relabel r).render indent =
      (Member.named s kind key value).render indent := by
  have hpair : (key.relabel r).render indent ++ ": " ++
        (value.relabel r).guard .assignment ((value.relabel r).render indent) =
      key.render indent ++ ": " ++ value.guard .assignment (value.render indent) := by
    rw [hkey, Expr.guard_relabel, hvalue]
  cases kind with
  | pair => exact hpair
  | shorthand =>
    cases value with
    | assign t op target inner =>
      simp [Member.relabel, Member.render, Expr.relabel, hkey, hdefault t op target inner rfl]
    | _ => exact hkey
  | _ =>
    cases value with
    | function t name params body =>
      obtain ⟨hparams, hbody⟩ := hfunction t name params body rfl
      simp [Member.relabel, Member.render, Expr.relabel, hkey, hparams, hbody]
    | _ => exact hpair

/-- A relabelling keeps the text of keys. -/
def Relabeling.KeepsKeys (r : Relabeling) : Prop :=
  ∀ indent value, (r.stringKey value).render indent = (Key.string value).render indent

mutual

theorem Expr.render_relabel (hr : r.KeepsKeys) (indent : Nat) (e : Expr) :
    (e.relabel r).render indent = e.render indent := by
  cases e with
  | number | string | template | regex | boolean | null | ident | this =>
    simp [Expr.relabel, Expr.render]
  | array s items => simp [Expr.relabel, Expr.render, renderItems_relabel hr indent items]
  | object s members => simp [Expr.relabel, Expr.render, renderMembers_relabel hr indent members]
  | function s name params body =>
    simp [Expr.relabel, Expr.render, renderAll_relabel hr indent params,
      renderLines_relabel hr (indent + 1) body]
  | arrow s params body =>
    simp [Expr.relabel, Expr.render, renderAll_relabel hr indent params,
      body.render_relabel hr indent]
  | unary s op operand => simp [Expr.relabel, Expr.render, operand.render_relabel hr indent]
  | update s op side operand =>
    cases side <;> simp [Expr.relabel, Expr.render, operand.render_relabel hr indent]
  | binary s op left right =>
    simp [Expr.relabel, Expr.render, left.render_relabel hr indent, right.render_relabel hr indent]
  | assign s op target value =>
    simp [Expr.relabel, Expr.render, target.render_relabel hr indent,
      value.render_relabel hr indent]
  | conditional s test whenTrue whenFalse =>
    simp [Expr.relabel, Expr.render, test.render_relabel hr indent,
      whenTrue.render_relabel hr indent, whenFalse.render_relabel hr indent]
  | dot s object optional name nameSpan =>
    simp [Expr.relabel, Expr.render, object.render_relabel hr indent]
  | index s object optional key =>
    simp [Expr.relabel, Expr.render, object.render_relabel hr indent, key.render_relabel hr indent]
  | call s callee optional arguments =>
    simp [Expr.relabel, Expr.render, callee.render_relabel hr indent,
      renderAll_relabel hr indent arguments]
  | new s callee arguments =>
    simp [Expr.relabel, Expr.render, callee.render_relabel hr indent,
      renderAll_relabel hr indent arguments]
  | sequence s items => simp [Expr.relabel, Expr.render, renderAll_relabel hr indent items]
  | spread s argument => simp [Expr.relabel, Expr.render, argument.render_relabel hr indent]

theorem renderAll_relabel (hr : r.KeepsKeys) (indent : Nat) (es : List Expr) :
    renderAll indent (relabelAll r es) = renderAll indent es := by
  cases es with
  | nil => rfl
  | cons e rest =>
    simp [relabelAll, renderAll, e.render_relabel hr indent, renderAll_relabel hr indent rest]

theorem renderItems_relabel (hr : r.KeepsKeys) (indent : Nat) (items : List (Option Expr)) :
    renderItems indent (relabelItems r items) = renderItems indent items := by
  match items with
  | [] => rfl
  | none :: rest =>
    simp [relabelItems, relabelOption, renderItems, renderItems_relabel hr indent rest]
  | some e :: rest =>
    simp [relabelItems, relabelOption, renderItems, e.render_relabel hr indent,
      renderItems_relabel hr indent rest]

theorem renderMembers_relabel (hr : r.KeepsKeys) (indent : Nat) (members : List Member) :
    renderMembers indent (relabelMembers r members) = renderMembers indent members := by
  cases members with
  | nil => rfl
  | cons member rest =>
    simp [relabelMembers, renderMembers, member.render_relabel hr indent,
      renderMembers_relabel hr indent rest]

theorem Member.render_relabel (hr : r.KeepsKeys) (indent : Nat) (member : Member) :
    (member.relabel r).render indent = member.render indent := by
  cases member with
  | spread argument => simp [Member.relabel, Member.render, argument.render_relabel hr indent]
  | named s kind key value =>
    refine Member.render_named_relabel r (key.render_relabel hr indent)
      (value.render_relabel hr indent) ?_ ?_
    · cases value with
      | assign t op target inner =>
        rintro _ _ _ _ ⟨⟩
        exact inner.render_relabel hr indent
      | _ => rintro _ _ _ _ ⟨⟩
    · cases value with
      | function t name params body =>
        rintro _ _ _ _ ⟨⟩
        exact ⟨renderAll_relabel hr indent params, renderLines_relabel hr (indent + 1) body⟩
      | _ => rintro _ _ _ _ ⟨⟩

theorem Key.render_relabel (hr : r.KeepsKeys) (indent : Nat) (key : Key) :
    (key.relabel r).render indent = key.render indent := by
  cases key with
  | ident | number => simp [Key.relabel, Key.render]
  | string value => exact hr indent value
  | computed key => simp [Key.relabel, Key.render, key.render_relabel hr indent]

theorem ArrowBody.render_relabel (hr : r.KeepsKeys) (indent : Nat) (body : ArrowBody) :
    (body.relabel r).render indent = body.render indent := by
  cases body with
  | expression value => simp [ArrowBody.relabel, ArrowBody.render, value.render_relabel hr indent]
  | block body =>
    simp [ArrowBody.relabel, ArrowBody.render, renderLines_relabel hr (indent + 1) body]

theorem renderLines_relabel (hr : r.KeepsKeys) (indent : Nat) (body : List Stmt) :
    renderLines indent (relabelBody r body) = renderLines indent body := by
  cases body with
  | nil => rfl
  | cons s rest =>
    simp [relabelBody, renderLines, s.render_relabel hr indent, renderLines_relabel hr indent rest]

theorem Stmt.render_relabel (hr : r.KeepsKeys) (indent : Nat) (s : Stmt) :
    (s.relabel r).render indent = s.render indent := by
  cases s with
  | breaking | continuing | empty | debugger => simp [Stmt.relabel, Stmt.render]
  | expression s value => simp [Stmt.relabel, Stmt.render, value.render_relabel hr indent]
  | declaration s kind declarators =>
    simp [Stmt.relabel, Stmt.render, renderDeclarators_relabel hr indent declarators]
  | function s name params body =>
    simp [Stmt.relabel, Stmt.render, renderAll_relabel hr indent params,
      renderLines_relabel hr (indent + 1) body]
  | returning s value => simp [Stmt.relabel, Stmt.render, renderSpaced_relabel hr indent value]
  | branch s test whenTrue whenFalse =>
    simp [Stmt.relabel, Stmt.render, test.render_relabel hr indent,
      whenTrue.render_relabel hr indent, renderElse_relabel hr indent whenFalse]
  | forLoop s init test update body =>
    simp [Stmt.relabel, Stmt.render, renderInit_relabel hr indent init,
      renderSpaced_relabel hr indent test,
      renderSpaced_relabel hr indent update, body.render_relabel hr indent]
  | forEach s left right body of =>
    simp [Stmt.relabel, Stmt.render, left.render_relabel hr indent, right.render_relabel hr indent,
      body.render_relabel hr indent]
  | whileLoop s test body =>
    simp [Stmt.relabel, Stmt.render, test.render_relabel hr indent, body.render_relabel hr indent]
  | doWhile s body test =>
    simp [Stmt.relabel, Stmt.render, test.render_relabel hr indent, body.render_relabel hr indent]
  | block s body => simp [Stmt.relabel, Stmt.render, renderLines_relabel hr (indent + 1) body]
  | throwing s value => simp [Stmt.relabel, Stmt.render, value.render_relabel hr indent]
  | trying s body handler finalizer =>
    simp [Stmt.relabel, Stmt.render, renderLines_relabel hr (indent + 1) body,
      renderHandler_relabel hr indent handler, renderFinalizer_relabel hr indent finalizer]
  | switch s subject cases =>
    simp [Stmt.relabel, Stmt.render, subject.render_relabel hr indent,
      renderCases_relabel hr (indent + 1) cases]
  | labeled s label body => simp [Stmt.relabel, Stmt.render, body.render_relabel hr indent]

theorem renderSpaced_relabel (hr : r.KeepsKeys) (indent : Nat) (e : Option Expr) :
    renderSpaced indent (relabelOption r e) = renderSpaced indent e := by
  cases e with
  | none => rfl
  | some e => simp [relabelOption, renderSpaced, e.render_relabel hr indent]

theorem renderElse_relabel (hr : r.KeepsKeys) (indent : Nat) (s : Option Stmt) :
    renderElse indent (relabelElse r s) = renderElse indent s := by
  cases s with
  | none => rfl
  | some s => simp [relabelElse, renderElse, s.render_relabel hr indent]

theorem renderDeclarators_relabel (hr : r.KeepsKeys) (indent : Nat) (ds : List Declarator) :
    renderDeclarators indent (relabelDeclarators r ds) = renderDeclarators indent ds := by
  cases ds with
  | nil => rfl
  | cons d rest =>
    simp [relabelDeclarators, renderDeclarators, d.render_relabel hr indent,
      renderDeclarators_relabel hr indent rest]

theorem Declarator.render_relabel (hr : r.KeepsKeys) (indent : Nat) (d : Declarator) :
    (d.relabel r).render indent = d.render indent := by
  match d with
  | .mk target none =>
    simp [Declarator.relabel, relabelOption, Declarator.render, target.render_relabel hr indent]
  | .mk target (some value) =>
    simp [Declarator.relabel, relabelOption, Declarator.render, target.render_relabel hr indent,
      value.render_relabel hr indent]

theorem ForInit.render_relabel (hr : r.KeepsKeys) (indent : Nat) (init : ForInit) :
    (init.relabel r).render indent = init.render indent := by
  cases init with
  | declaration kind declarators =>
    simp [ForInit.relabel, ForInit.render, renderDeclarators_relabel hr indent declarators]
  | expression value => simp [ForInit.relabel, ForInit.render, value.render_relabel hr indent]

theorem renderInit_relabel (hr : r.KeepsKeys) (indent : Nat) (init : Option ForInit) :
    renderInit indent (relabelInit r init) = renderInit indent init := by
  cases init with
  | none => rfl
  | some init => simp [relabelInit, renderInit, init.render_relabel hr indent]

theorem renderHandler_relabel (hr : r.KeepsKeys) (indent : Nat) (handler : Option Handler) :
    renderHandler indent (relabelHandler r handler) = renderHandler indent handler := by
  cases handler with
  | none => rfl
  | some handler => simp [relabelHandler, renderHandler, handler.render_relabel hr indent]

theorem Handler.render_relabel (hr : r.KeepsKeys) (indent : Nat) (handler : Handler) :
    (handler.relabel r).render indent = handler.render indent := by
  match handler with
  | .mk none body =>
    simp [Handler.relabel, relabelOption, Handler.render, renderLines_relabel hr (indent + 1) body]
  | .mk (some param) body =>
    simp [Handler.relabel, relabelOption, Handler.render, param.render_relabel hr indent,
      renderLines_relabel hr (indent + 1) body]

theorem renderFinalizer_relabel (hr : r.KeepsKeys) (indent : Nat) (finalizer : Option (List Stmt)) :
    renderFinalizer indent (relabelFinalizer r finalizer) =
      renderFinalizer indent finalizer := by
  cases finalizer with
  | none => rfl
  | some body =>
    simp [relabelFinalizer, renderFinalizer, renderLines_relabel hr (indent + 1) body]

theorem renderCases_relabel (hr : r.KeepsKeys) (indent : Nat) (cases : List Case) :
    renderCases indent (relabelCases r cases) = renderCases indent cases := by
  cases cases with
  | nil => rfl
  | cons c rest =>
    simp [relabelCases, renderCases, c.render_relabel hr indent, renderCases_relabel hr indent rest]

theorem Case.render_relabel (hr : r.KeepsKeys) (indent : Nat) (c : Case) :
    (c.relabel r).render indent = c.render indent := by
  match c with
  | .mk none body =>
    simp [Case.relabel, relabelOption, Case.render, renderLines_relabel hr (indent + 1) body]
  | .mk (some test) body =>
    simp [Case.relabel, relabelOption, Case.render, test.render_relabel hr indent,
      renderLines_relabel hr (indent + 1) body]

end

/-- **A relabelled expression is printed as before**, if its keys are. -/
theorem Expr.text_relabel (hr : r.KeepsKeys) (e : Expr) : (e.relabel r).text = e.text :=
  e.render_relabel r hr 0

end

theorem keepsKeys_moving (f : Position → Position) : (Relabeling.moving f).KeepsKeys :=
  fun _ _ => rfl

/-- **Moving an expression does not change its text.** -/
theorem Expr.text_move (f : Position → Position) (e : Expr) : (e.move f).text = e.text :=
  e.text_relabel (.moving f) (keepsKeys_moving f)

theorem renderLines_move (f : Position → Position) (indent : Nat) (body : List Stmt) :
    renderLines indent (relabelBody (.moving f) body) = renderLines indent body :=
  renderLines_relabel (.moving f) (keepsKeys_moving f) indent body

end WidgetLint.Script
