import WidgetLint.Proofs.Check.Conformance
import WidgetLint.Proofs.Check.Findings

/-!
# Less literal configurations have fewer errors

A tree is loosened where the value of a property gives way to an expression that is no literal, such
as a variable. **The errors of a loosened configuration are among those of the configuration, in the
same order** (`errors_loosened`). The values around the loosened one are printed differently, but
what is printed only matters for warnings.
-/

namespace WidgetLint.Check

open Text Script Schema

/-! ## Loosened trees -/

/-- The second tree is the first one with the value of one property made unresolved. -/
inductive Loosened : Expr → Expr → Prop
  /-- The value of a property is replaced. -/
  | value {s t : Span} {before after : List Member} {kind : MemberKind} {key : Key}
      {value unresolved : Expr} : Literal.classify unresolved = .unresolved →
      Loosened (.object s (before ++ .named t kind key value :: after))
        (.object s (before ++ .named t kind key unresolved :: after))
  /-- A value is loosened inside the value of a property. -/
  | inside {s t : Span} {before after : List Member} {kind : MemberKind} {key : Key}
      {value loosened : Expr} : Loosened value loosened →
      Loosened (.object s (before ++ .named t kind key value :: after))
        (.object s (before ++ .named t kind key loosened :: after))
  /-- A value is loosened inside the key of a property that is computed. -/
  | key {s t : Span} {before after : List Member} {kind : MemberKind} {name loosened value : Expr} :
      Loosened name loosened →
      Loosened (.object s (before ++ .named t kind (.computed name) value :: after))
        (.object s (before ++ .named t kind (.computed loosened) value :: after))
  /-- A value is loosened inside a member that is spread. -/
  | spread {s : Span} {before after : List Member} {argument loosened : Expr} :
      Loosened argument loosened →
      Loosened (.object s (before ++ .spread argument :: after))
        (.object s (before ++ .spread loosened :: after))
  /-- A value is loosened inside an expression that is no object, such as an array or a call, which
  stands where it stood and is the same kind of literal as before. -/
  | elsewhere {e changed : Expr} : (Literal.classify e).isObject = false → changed.span = e.span →
      (Literal.classify changed).hull = (Literal.classify e).hull → Loosened e changed

variable {model : Model} {scope : Scope} {e loosened value : Expr}

theorem Loosened.span (h : Loosened e loosened) : loosened.span = e.span := by
  cases h with
  | elsewhere _ hspan _ => exact hspan
  | _ => rfl

theorem Loosened.hull (h : Loosened e loosened) :
    (Literal.classify loosened).hull = (Literal.classify e).hull := by
  cases h with
  | elsewhere _ _ hhull => exact hhull
  | _ => rfl

/-! ## Errors -/

def errors (found : List Diagnostic) : List Diagnostic :=
  found.filter (·.severity = .error)

@[simp] theorem errors_nil : errors [] = [] := rfl

@[simp] theorem errors_append (found found' : List Diagnostic) :
    errors (found ++ found') = errors found ++ errors found' :=
  List.filter_append ..

@[simp] theorem errors_sameAsDefault? (d : Descriptor) (entry : Entry) :
    errors (sameAsDefault? d entry).toList = [] := by
  have hfree := sameAsDefault?_errorFree d entry
  exact List.filter_eq_nil_iff.2 fun found hfound => by simpa using hfree found hfound

theorem errors_judge_undocumented {entry : Entry} {inside : Scope → List Diagnostic}
    (hfind : scope.find? entry.key = none) :
    errors (judge model scope entry inside) = [notFound entry] := by
  rw [judge, hfind]
  rfl

theorem errors_judge {entry : Entry} {d : Descriptor} {inside : Scope → List Diagnostic}
    (hfind : scope.find? entry.key = some d) :
    errors (judge model scope entry inside) =
      if accepts d (.classify entry.value) then
        errors (if (Literal.classify entry.value).isObject && !d.types.isEmpty then
          (innerScope? model d).elim [] inside else [])
      else [badType d entry] := by
  rw [judge, hfind]
  dsimp only
  split
  · rw [errors_append, errors_sameAsDefault?, List.append_nil]
  · rfl

theorem errors_judge_unresolved {entry : Entry} {d : Descriptor} {inside : Scope → List Diagnostic}
    (hfind : scope.find? entry.key = some d)
    (hunresolved : Literal.classify entry.value = .unresolved) :
    errors (judge model scope entry inside) = [] := by
  have haccepts : accepts d .unresolved = true := by simp [accepts, Literal.isResolved]
  rw [errors_judge hfind, hunresolved, haccepts]
  rfl

/-- Two entries with the same key, of which the second has fewer errors if its value is unresolved,
or is the same kind of literal with fewer errors inside. -/
theorem errors_judge_sublist {entry entry' : Entry} {inside inside' : Scope → List Diagnostic}
    (hkey : entry'.key = entry.key) (hnotFound : notFound entry' = notFound entry)
    (h : Literal.classify entry'.value = .unresolved ∨
      (Literal.classify entry'.value).hull = (Literal.classify entry.value).hull ∧
        entry'.value.span = entry.value.span ∧
        ∀ inner, (errors (inside' inner)).Sublist (errors (inside inner))) :
    (errors (judge model scope entry' inside')).Sublist (errors (judge model scope entry inside)) := by
  cases hfind : scope.find? entry.key with
  | none =>
    rw [errors_judge_undocumented hfind, errors_judge_undocumented (hkey ▸ hfind), hnotFound]
  | some d =>
    have hfind' : scope.find? entry'.key = some d := hkey ▸ hfind
    rcases h with hunresolved | ⟨hhull, hspan, hinside⟩
    · rw [errors_judge_unresolved hfind' hunresolved]
      exact List.nil_sublist _
    · have haccepts : accepts d (.classify entry'.value) = accepts d (.classify entry.value) := by
        rw [← accepts_hull, hhull, accepts_hull]
      have hobject : (Literal.classify entry'.value).isObject =
          (Literal.classify entry.value).isObject := by
        rw [← isObject_hull, hhull, isObject_hull]
      have hbadType : badType d entry' = badType d entry := by rw [badType, badType, hspan]
      rw [errors_judge hfind', errors_judge hfind, haccepts, hobject, hbadType]
      split
      · split
        · cases innerScope? model d with
          | none => exact .refl _
          | some inner => exact hinside inner
        · exact .refl _
      · exact .refl _

/-! ## Members -/

theorem checkMembers_append (model : Model) (scope : Scope) (before after : List Member) :
    checkMembers model scope (before ++ after) =
      checkMembers model scope before ++ checkMembers model scope after := by
  induction before with
  | nil => rfl
  | cons member rest ih => rw [List.cons_append, checkMembers, checkMembers, ih, List.append_assoc]

theorem checkObject_eq_nil (h : (Literal.classify e).isObject = false) :
    checkObject model scope e = [] := by
  cases e with
  | object s members => cases h
  | _ => simp [checkObject]

theorem errors_object_sublist {s s' : Span} {before after : List Member} {member member' : Member}
    (h : (errors (checkMember model scope member')).Sublist
      (errors (checkMember model scope member))) :
    (errors (checkObject model scope (.object s' (before ++ member' :: after)))).Sublist
      (errors (checkObject model scope (.object s (before ++ member :: after)))) := by
  simp only [checkObject, checkMembers_append, checkMembers, errors_append]
  exact (List.Sublist.refl _).append (h.append (.refl _))

/-- A named member with another value has fewer errors if the value is unresolved, or is the same
kind of literal with fewer errors inside. -/
theorem errors_named_sublist {t : Span} {kind : MemberKind} {key : Key}
    (h : Literal.classify loosened = .unresolved ∨
      (Literal.classify loosened).hull = (Literal.classify value).hull ∧
        loosened.span = value.span ∧
        ∀ inner, (errors (checkObject model inner loosened)).Sublist
          (errors (checkObject model inner value))) :
    (errors (checkMember model scope (.named t kind key loosened))).Sublist
      (errors (checkMember model scope (.named t kind key value))) := by
  rw [checkMember, checkMember]
  cases key.name? with
  | none => exact .refl _
  | some name => exact errors_judge_sublist rfl rfl h

theorem Loosened.errors_checkObject (h : Loosened e loosened) :
    ∀ scope, (errors (checkObject model scope loosened)).Sublist
      (errors (checkObject model scope e)) := by
  induction h with
  | value hunresolved =>
    exact fun scope => errors_object_sublist (errors_named_sublist (.inl hunresolved))
  | inside h ih =>
    exact fun scope => errors_object_sublist (errors_named_sublist (.inr ⟨h.hull, h.span, ih⟩))
  -- nothing is checked at a computed key or in a member that is spread
  | key => exact fun scope => errors_object_sublist (.refl _)
  | spread => exact fun scope => errors_object_sublist (.refl _)
  | elsewhere hobject _ hhull =>
    intro scope
    rw [← isObject_hull, ← hhull, isObject_hull] at hobject
    rw [checkObject_eq_nil hobject]
    exact List.nil_sublist _

/-- **The errors of a loosened configuration are errors of the configuration**, in the same order:
whatever is documented, no error is new, and none has moved. -/
theorem errors_loosened (model : Model) (c : Component) {e loosened : Expr}
    (h : Loosened e loosened) :
    (errors (checkComponent model c (Entry.ofObject loosened))).Sublist
      (errors (checkComponent model c (Entry.ofObject e))) := by
  rw [checkComponent, checkComponent, ← checkObject_eq, ← checkObject_eq]
  exact h.errors_checkObject c.scope

/-! ## A page size -/

/-- A component that documents how a list is cut into pages. -/
def pagedList : Component :=
  ⟨"list", "list",
    [⟨"pageable", none, [.boolean, .object], none,
      [⟨"pageSize", none, [.number], none, []⟩, ⟨"buttons", none, [.boolean], none, []⟩]⟩],
    [], [], []⟩

def pagedConfig (pageSize : Expr) : Expr :=
  .object nowhere [.named nowhere .pair (.ident "pageable") (.object nowhere
    [.named nowhere .pair (.ident "pageSize") pageSize,
      .named nowhere .pair (.ident "buttons") (.string nowhere "none")])]

def pagedErrors (pageSize : Expr) : List Diagnostic :=
  errors (checkComponent ⟨[pagedList], by decide⟩ pagedList (Entry.ofObject (pagedConfig pageSize)))

/-- A page size that is a string is an error, and one that is a variable is none; the error of the
buttons stays. -/
theorem errors_loosened_pageSize :
    Loosened (pagedConfig (.string nowhere "10")) (pagedConfig (.ident nowhere "size")) ∧
      (pagedErrors (.string nowhere "10")).length = 2 ∧
      (pagedErrors (.ident nowhere "size")).length = 1 ∧
      (pagedErrors (.ident nowhere "size")).Sublist (pagedErrors (.string nowhere "10")) := by
  have hloosened : Loosened (pagedConfig (.string nowhere "10"))
      (pagedConfig (.ident nowhere "size")) := by
    refine @Loosened.inside nowhere nowhere [] [] .pair _ _ _ ?_
    exact @Loosened.value nowhere nowhere [] _ .pair _ _ _ rfl
  exact ⟨hloosened, by decide, by decide, errors_loosened _ pagedList hloosened⟩

end WidgetLint.Check
