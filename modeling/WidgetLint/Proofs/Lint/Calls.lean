import WidgetLint.Lint.CallSite
import WidgetLint.Proofs.Inset.Call
import WidgetLint.Proofs.Script.Walk

/-!
# The call sites of a configured component

Moving a script moves its call sites (`callSites_move`). A script that only configures a component,
with values in which no component is created, has a single call site (`callSites_configScript`).
-/

namespace WidgetLint.Script

/-- A walk of the expression meets another one. -/
def Expr.Contains (e part : Expr) : Prop :=
  ∃ d depth, ⟨depth, .expr part⟩ ∈ e.visit d (e.inside (d + 1))

end WidgetLint.Script

namespace WidgetLint.Lint

open Text Script

variable {lead : String} {f : Position → Position}

/-! ## Call sites of moved scripts -/

def CallSite.move (f : Position → Position) (site : CallSite) : CallSite :=
  ⟨site.component, site.method.move f, site.config.move f⟩

theorem componentMethod?_move (callee : Expr) :
    componentMethod? lead (callee.move f) =
      (componentMethod? lead callee).map fun found => (found.1, found.2.move f) := by
  cases callee with
  | dot s object optional name nameSpan =>
    simp only [Expr.relabel, componentMethod?]
    cases afterWord? lead name with
    | none => rfl
    | some component =>
      dsimp only
      split <;> rfl
  | _ => rfl

theorem isObjectExpr_move (e : Expr) : isObjectExpr (e.move f) = isObjectExpr e := by
  cases e <;> rfl

theorem callSite?_move (e : Expr) :
    callSite? lead (e.move f) = (callSite? lead e).map (CallSite.move f) := by
  cases e with
  | call s callee optional arguments =>
    cases arguments with
    | nil => rfl
    | cons config others =>
      simp only [Expr.relabel, relabelAll, callSite?, componentMethod?_move]
      cases componentMethod? lead callee with
      | none => rfl
      | some found =>
        dsimp only [Option.map_some]
        rw [isObjectExpr_move]
        split <;> rfl
  | _ => rfl

def sitesIn (lead : String) (visits : List Visit) : List CallSite :=
  (visits.filterMap fun v =>
    match v.node with
    | .expr e => some e
    | .stmt _ => none).filterMap (callSite? lead)

@[simp] theorem sitesIn_nil : sitesIn lead [] = [] := rfl

@[simp] theorem sitesIn_append (visits others : List Visit) :
    sitesIn lead (visits ++ others) = sitesIn lead visits ++ sitesIn lead others := by
  simp [sitesIn]

@[simp] theorem sitesIn_expr (lead : String) (d : Nat) (e : Expr) (inside : List Visit) :
    sitesIn lead (e.visit d inside) = (callSite? lead e).toList ++ sitesIn lead inside := by
  rw [sitesIn, Expr.visit, List.filterMap_cons]
  dsimp only
  rw [List.filterMap_cons]
  cases callSite? lead e <;> rfl

@[simp] theorem sitesIn_stmt (d : Nat) (s : Stmt) (inside : List Visit) :
    sitesIn lead (s.visit d inside) = sitesIn lead inside := rfl

theorem sitesIn_move (lead : String) (visits : List Visit) :
    sitesIn lead (visits.map (Visit.move f)) = (sitesIn lead visits).map (CallSite.move f) := by
  induction visits with
  | nil => rfl
  | cons v visits ih =>
    obtain ⟨d, e | s⟩ := v
    · have hmoved := sitesIn_expr lead d (e.move f) (visits.map (Visit.move f))
      have hvisit := sitesIn_expr lead d e visits
      rw [callSite?_move, ih] at hmoved
      rw [Expr.visit] at hmoved hvisit
      rw [List.map_cons, Visit.move, hmoved, hvisit, List.map_append]
      cases callSite? lead e <;> rfl
    · exact ih

theorem callSites_move (lead : String) {p : Program} {body : List Stmt}
    (h : p.body.map (Stmt.move f) = body) (span : Span) :
    (callSites lead p).map (CallSite.move f) = callSites lead ⟨body, span⟩ := by
  subst h
  have hvisits : Program.visits ⟨p.body.map (Stmt.move f), span⟩ = p.visits.map (Visit.move f) := by
    rw [Program.visits, ← relabelBody_eq, visitBody_move, Program.visits]
  exact (sitesIn_move lead p.visits).symm.trans (congrArg (sitesIn lead) hvisits.symm)

/-! ## Values without calls of components -/

/-- No call in the expression is one of a method that creates a component. -/
def CreatesNone (lead : String) (e : Expr) : Prop :=
  ∀ span callee optional arguments, e.Contains (.call span callee optional arguments) →
    componentMethod? lead callee = none

theorem CreatesNone.sitesIn_eq_nil {e : Expr} (h : CreatesNone lead e) (d : Nat) :
    sitesIn lead (e.visit d (e.inside (d + 1))) = [] := by
  rw [sitesIn, List.filterMap_filterMap, List.filterMap_eq_nil_iff]
  rintro ⟨depth, part | s⟩ hvisit
  · cases part with
    | call span callee optional arguments =>
      have hnone := h span callee optional arguments ⟨d, depth, hvisit⟩
      cases arguments with
      | nil => rfl
      | cons config others => simp [callSite?, hnone]
    | _ => rfl
  · rfl

theorem sitesIn_members {os : List WrittenOption} (h : ∀ o ∈ os, CreatesNone lead o.tree)
    (d : Nat) : sitesIn lead (visitMembers d (os.map WrittenOption.member)) = [] := by
  induction os with
  | nil => rfl
  | cons o os ih =>
    have hvalue := (h o (by simp)).sitesIn_eq_nil d
    have hmoved := @sitesIn_move (fun _ => .first) lead
      (o.tree.visit d (o.tree.inside (d + 1)))
    rw [Expr.map_visit, ← Expr.inside_move, hvalue] at hmoved
    rw [List.map_cons, visitMembers, sitesIn_append, ih fun o ho => h o (by simp [ho]),
      WrittenOption.member, Member.inside, Key.inside, List.nil_append, hmoved]
    rfl

/-! ## Scripts that configure a component -/

theorem componentMethod?_methodName {component : String} (h : component ≠ "") (span nameSpan : Span)
    (object : Expr) (optional : Bool) :
    componentMethod? "kendo" (.dot span object optional (methodName component) nameSpan) =
      some (component, nameSpan) := by
  have hempty : component.isEmpty = false := by simpa using h
  simp [componentMethod?, methodName, afterWord?_append, hempty]

theorem callSites_configScript {component : String} (hname : component ≠ "")
    {os : List WrittenOption} (h : ∀ o ∈ os, CreatesNone "kendo" o.tree) (span : Span) :
    callSites "kendo" ⟨configScript component os, span⟩ =
      [⟨component, nowhere, configObject os⟩] := by
  have hcall : callSite? "kendo" (configCall component os) =
      some ⟨component, nowhere, configObject os⟩ := by
    rw [configCall, callSite?, componentMethod?_methodName hname]
    rfl
  have hmembers : sitesIn "kendo" (visitMembers 3 (os.map WrittenOption.member)) = [] :=
    sitesIn_members h 3
  have hinside : sitesIn "kendo" ((configCall component os).inside 2) = [] := by
    simp [configCall, Expr.inside, visitAll, configObject, hmembers, callSite?]
  show sitesIn "kendo" (visitBody 0 (configScript component os)) = _
  rw [configScript, visitBody, visitBody, Stmt.inside, List.append_nil, sitesIn_stmt, sitesIn_expr,
    hcall, hinside]
  rfl

end WidgetLint.Lint
