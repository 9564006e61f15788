import WidgetLint.Lint.Settings
import WidgetLint.Script.Walk
import WidgetLint.Text.Slice

/-!
# Component calls in scripts

A component is created by calling a method whose name is a fixed beginning followed by the name of
the component, such as `$("#grid").kendoGrid({ ... })`.
-/

namespace WidgetLint.Lint

open Text Script

/-- The component name in the method that a callee names, and where the method's name stands. A
computed name does not count, and neither does the bare beginning. -/
def componentMethod? (lead : String) : Expr → Option (String × Span)
  | .dot _ _ _ name nameSpan =>
    match afterWord? lead name with
    | some component => if component.isEmpty then none else some (component, nameSpan)
    | none => none
  | _ => none

/-- Whether a callee is the library's function that binds elements. -/
def isBindCall (root : String) : Expr → Bool
  | .dot _ (.ident _ object) _ name _ => object == root && name == "bind"
  | _ => false

/-- A call that creates a component and configures it with an object. -/
structure CallSite where
  component : String
  /-- Where the method's name stands. -/
  method : Span
  config : Expr

def isObjectExpr : Expr → Bool
  | .object .. => true
  | _ => false

/-- The call site that an expression is, if it is one. -/
def callSite? (lead : String) : Expr → Option CallSite
  | .call _ callee _ (config :: _) =>
    match componentMethod? lead callee with
    | some (component, method) =>
      if isObjectExpr config then some ⟨component, method, config⟩ else none
    | none => none
  | _ => none

theorem componentMethod?_eq_some {lead component : String} {callee : Expr} {method : Span}
    (h : componentMethod? lead callee = some (component, method)) :
    ∃ span object optional name, callee = .dot span object optional name method := by
  unfold componentMethod? at h
  split at h
  · rename_i span object optional name nameSpan
    split at h
    · split at h
      · cases h
      · cases h
        exact ⟨span, object, optional, name, rfl⟩
    · cases h
  · cases h

/-- A call site is a call of a component's method whose first argument is its configuration. -/
theorem callSite?_eq_some {lead : String} {e : Expr} {site : CallSite}
    (h : callSite? lead e = some site) :
    ∃ span callee optional others, e = .call span callee optional (site.config :: others) ∧
      componentMethod? lead callee = some (site.component, site.method) := by
  unfold callSite? at h
  split at h
  · rename_i span callee optional config others
    split at h
    · rename_i component method hmethod
      split at h
      · cases h
        exact ⟨span, callee, optional, others, rfl, hmethod⟩
      · cases h
    · cases h
  · cases h

/-- The expressions of a script, in the order of a walk. -/
def expressions (p : Program) : List Expr :=
  p.visits.filterMap fun v =>
    match v.node with
    | .expr e => some e
    | .stmt _ => none

/-- The call sites of a script, in the order of a walk. -/
def callSites (lead : String) (p : Program) : List CallSite :=
  (expressions p).filterMap (callSite? lead)

theorem mem_callSites {lead : String} {p : Program} {site : CallSite} :
    site ∈ callSites lead p ↔
      ∃ depth e, ⟨depth, .expr e⟩ ∈ p.visits ∧ callSite? lead e = some site := by
  simp only [callSites, expressions, List.mem_filterMap]
  constructor
  · rintro ⟨e, ⟨⟨depth, node⟩, hvisit, hnode⟩, hsite⟩
    cases node with
    | expr e' =>
      cases hnode
      exact ⟨depth, e, hvisit, hsite⟩
    | stmt s => cases hnode
  · rintro ⟨depth, e, hvisit, hsite⟩
    exact ⟨e, ⟨_, hvisit, rfl⟩, hsite⟩

end WidgetLint.Lint
