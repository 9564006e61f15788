import Mathlib.Data.List.Nodup
import WidgetLint.Check.Validation

/-!
# What a configuration has to conform to

`Conforms` says when an entry is in order, without regard to how a check goes about it: the first
descriptor of its name exists, its types admit the value, and inside an object all entries are in
order again, against the component that the types refer to or else against the nested options.
**A check finds no error exactly if all entries conform** (`checkComponent_conforms_iff`).

Components may refer to themselves and to each other; conformance is well-founded all the same,
because the entries inside a value are smaller than the value.
-/

namespace WidgetLint.Check

open Text Script Schema

/-! ## Conformance -/

/-- The descriptor is the first one of its name in a scope. -/
def FirstNamed (scope : Scope) (name : String) (d : Descriptor) : Prop :=
  d.name = name ∧ ∃ before after, scope = before ++ d :: after ∧ ∀ other ∈ before, other.name ≠ name

/-- The component is the one that the first reference among types refers to. -/
def RefersTo (model : Model) (types : List TypeTag) (c : Component) : Prop :=
  c ∈ model.components ∧ ∃ before after, types = before ++ .reference c.id :: after ∧
    ∀ tag ∈ before, ∀ id, tag ≠ .reference id

/-- The literals that a type admits, by their kind. -/
inductive Admits : TypeTag → Literal → Prop
  | array (items : List (Option Expr)) : Admits .array (.array items)
  | string (value : String) : Admits .string (.string value)
  | selector (value : String) : Admits .selector (.string value)
  | number (value : Number.Binary64) : Admits .number (.number value)
  | boolean (value : Bool) : Admits .boolean (.boolean value)
  | function : Admits .function .function
  | object (entries : List Entry) : Admits .object (.object entries)

/-- What the entries of an object have to conform to, if anything. -/
inductive Inner (model : Model) (d : Descriptor) : Scope → Prop
  | component {c : Component} : RefersTo model d.types c → Inner model d c.scope
  | options : (∀ c, ¬RefersTo model d.types c) → d.sub ≠ [] → Inner model d d.sub

/-- The entry conforms to the scope. -/
inductive Conforms (model : Model) : Scope → Entry → Prop
  | intro {scope : Scope} {entry : Entry} {d : Descriptor} :
      FirstNamed scope entry.key d →
      (d.types = [] ∨ Literal.classify entry.value = .unresolved ∨
        ∃ tag ∈ d.types, Admits tag (Literal.classify entry.value)) →
      (∀ entries inner, Literal.classify entry.value = .object entries → .object ∈ d.types →
        Inner model d inner → ∀ e ∈ entries, Conforms model inner e) →
      Conforms model scope entry

/-! ## The first of a list -/

theorem find?_eq_some_iff_firstNamed {scope : Scope} {name : String} {d : Descriptor} :
    scope.find? name = some d ↔ FirstNamed scope name d := by
  rw [Scope.find?, List.find?_eq_some_iff_append]
  simp [FirstNamed]

theorem reference?_eq_some_iff {types : List TypeTag} {id : String} :
    reference? types = some id ↔ ∃ before after, types = before ++ .reference id :: after ∧
      ∀ tag ∈ before, ∀ id, tag ≠ .reference id := by
  rw [reference?, List.findSome?_eq_some_iff]
  constructor
  · rintro ⟨before, tag, after, htypes, htag, hbefore⟩
    cases tag with
    | reference found =>
      cases htag
      refine ⟨before, after, htypes, ?_⟩
      rintro _ hmem other rfl
      cases hbefore _ hmem
    | _ => cases htag
  · rintro ⟨before, after, htypes, hbefore⟩
    refine ⟨before, _, after, htypes, rfl, fun tag hmem => ?_⟩
    cases tag with
    | reference other => exact absurd rfl (hbefore _ hmem other)
    | _ => rfl

theorem get?_eq_some_iff {model : Model} {id : String} {c : Component} :
    model.get? id = some c ↔ c ∈ model.components ∧ c.id = id := by
  constructor
  · intro h
    exact ⟨List.mem_of_find?_eq_some h, by simpa using List.find?_some h⟩
  · rintro ⟨hmem, rfl⟩
    obtain ⟨found, hfound⟩ : ∃ found, model.get? c.id = some found := by
      rw [Model.get?, ← Option.isSome_iff_exists, List.find?_isSome]
      exact ⟨c, hmem, beq_self_eq_true c.id⟩
    have hid : found.id = c.id := by simpa using List.find?_some hfound
    have hsame : found = c :=
      List.inj_on_of_nodup_map model.nodup (List.mem_of_find?_eq_some hfound) hmem hid
    rw [hfound, hsame]

theorem bind_get?_eq_some_iff {model : Model} {types : List TypeTag} {c : Component} :
    (reference? types).bind model.get? = some c ↔ RefersTo model types c := by
  rw [Option.bind_eq_some_iff]
  constructor
  · rintro ⟨id, href, hget⟩
    obtain ⟨hmem, rfl⟩ := get?_eq_some_iff.1 hget
    exact ⟨hmem, reference?_eq_some_iff.1 href⟩
  · rintro ⟨hmem, hfirst⟩
    exact ⟨c.id, reference?_eq_some_iff.2 hfirst, get?_eq_some_iff.2 ⟨hmem, rfl⟩⟩

theorem innerScope?_eq_some_iff {model : Model} {d : Descriptor} {inner : Scope} :
    innerScope? model d = some inner ↔ Inner model d inner := by
  unfold innerScope?
  cases htarget : (reference? d.types).bind model.get? with
  | some c =>
    have hrefers := bind_get?_eq_some_iff.1 htarget
    constructor
    · rintro ⟨⟩
      exact .component hrefers
    · rintro (hother | ⟨hnone, -⟩)
      · rw [← bind_get?_eq_some_iff, htarget] at hother
        cases hother
        rfl
      · exact absurd hrefers (hnone c)
  | none =>
    have hnone : ∀ c, ¬RefersTo model d.types c := by
      intro c hc
      rw [← bind_get?_eq_some_iff, htarget] at hc
      cases hc
    by_cases hsub : d.sub = []
    · simp only [hsub, List.isEmpty_nil, if_true, reduceCtorEq, false_iff]
      rintro (hc | ⟨-, hne⟩)
      · exact hnone _ hc
      · exact hne hsub
    · have hempty : d.sub.isEmpty = false := by simpa using hsub
      simp only [hempty, Bool.false_eq_true, if_false, Option.some.injEq]
      constructor
      · rintro rfl
        exact .options hnone hsub
      · rintro (hc | _)
        · exact absurd hc (hnone _)
        · rfl

/-! ## Types -/

theorem admits_iff {tag : TypeTag} {literal : Literal} :
    admits tag literal = true ↔ Admits tag literal := by
  constructor
  · intro h
    cases tag <;> cases literal <;> cases h <;> constructor
  · rintro (_ | _ | _ | _ | _ | _ | _) <;> rfl

theorem isResolved_eq_false_iff {literal : Literal} :
    literal.isResolved = false ↔ literal = .unresolved := by
  cases literal <;> simp [Literal.isResolved]

theorem accepts_iff {d : Descriptor} {literal : Literal} :
    accepts d literal = true ↔
      d.types = [] ∨ literal = .unresolved ∨ ∃ tag ∈ d.types, Admits tag literal := by
  simp only [accepts, Bool.or_eq_true, List.isEmpty_iff, Bool.not_eq_true', isResolved_eq_false_iff,
    List.any_eq_true, admits_iff, or_assoc]

theorem object_mem_iff {d : Descriptor} {entries : List Entry}
    (h : accepts d (.object entries) = true) : .object ∈ d.types ↔ d.types ≠ [] := by
  constructor
  · exact List.ne_nil_of_mem
  · intro hne
    rcases accepts_iff.1 h with hnil | hunresolved | ⟨tag, hmem, hadmits⟩
    · exact absurd hnil hne
    · cases hunresolved
    · cases hadmits
      exact hmem

/-! ## Diagnostics -/

def ErrorFree (diagnostics : List Diagnostic) : Prop :=
  ∀ d ∈ diagnostics, d.severity ≠ .error

theorem errorFree_append {first later : List Diagnostic} :
    ErrorFree (first ++ later) ↔ ErrorFree first ∧ ErrorFree later :=
  List.forall_mem_append

theorem not_errorFree_singleton {d : Diagnostic} (h : d.severity = .error) : ¬ErrorFree [d] :=
  fun hfree => hfree d (List.mem_singleton_self d) h

theorem sameAsDefault?_errorFree (d : Descriptor) (entry : Entry) :
    ErrorFree (sameAsDefault? d entry).toList := by
  unfold sameAsDefault?
  split
  · split
    · rintro _ (_ | ⟨_, ⟨⟩⟩) ⟨⟩
    · nofun
  · nofun

theorem errorFree_nested_iff {literal : Literal} {types : List TypeTag} {scope? : Option Scope}
    {inside : Scope → List Diagnostic} :
    ErrorFree (if literal.isObject && !types.isEmpty then scope?.elim [] inside else []) ↔
      ∀ entries inner, literal = .object entries → types ≠ [] → scope? = some inner →
        ErrorFree (inside inner) := by
  cases literal with
  | object entries =>
    by_cases htypes : types = []
    · simp [htypes, ErrorFree]
    · have hempty : types.isEmpty = false := by simpa using htypes
      cases scope? with
      | none => simp [hempty, ErrorFree]
      | some inner => simp [hempty, htypes, Literal.isObject]
  | _ => simp [Literal.isObject, ErrorFree]

/-- What a judgement without errors says, given the judgement of the entries inside. -/
theorem judge_errorFree_iff {model : Model} {scope : Scope} {entry : Entry}
    {inside : Scope → List Diagnostic} :
    ErrorFree (judge model scope entry inside) ↔
      ∃ d, scope.find? entry.key = some d ∧ accepts d (Literal.classify entry.value) = true ∧
        ∀ entries inner, Literal.classify entry.value = .object entries → d.types ≠ [] →
          innerScope? model d = some inner → ErrorFree (inside inner) := by
  unfold judge
  cases hfind : scope.find? entry.key with
  | none =>
    simp only [reduceCtorEq, false_and, exists_false, iff_false]
    exact not_errorFree_singleton rfl
  | some d =>
    simp only [Option.some.injEq, exists_eq_left']
    by_cases haccepts : accepts d (Literal.classify entry.value) = true
    · rw [if_pos haccepts, errorFree_append]
      simp only [haccepts, sameAsDefault?_errorFree, and_true, true_and]
      exact errorFree_nested_iff
    · rw [if_neg haccepts]
      simp only [haccepts, Bool.false_eq_true, false_and, iff_false]
      exact not_errorFree_singleton rfl

theorem checkEntries_errorFree_iff {model : Model} {scope : Scope} {entries : List Entry} :
    ErrorFree (checkEntries model scope entries) ↔
      ∀ entry ∈ entries, ErrorFree (checkEntry model scope entry) := by
  simp only [ErrorFree, checkEntries, List.mem_flatMap]
  constructor
  · exact fun h entry he d hd => h d ⟨entry, he, hd⟩
  · rintro h d ⟨entry, he, hd⟩
    exact h entry he d hd

/-! ## Checking is conformance -/

theorem sizeOf_lt_of_mem_ofObject {e : Expr} {entry : Entry} (h : entry ∈ Entry.ofObject e) :
    sizeOf entry.value < sizeOf e := by
  cases e with
  | object span members =>
    obtain ⟨member, hmem, hentry⟩ := List.mem_filterMap.1 h
    have hmember := List.sizeOf_lt_of_mem hmem
    cases member with
    | spread argument => cases hentry
    | named span kind key value =>
      obtain ⟨name, -, rfl⟩ := Option.map_eq_some_iff.1 hentry
      simp only [Member.named.sizeOf_spec] at hmember
      simp only [Expr.object.sizeOf_spec]
      omega
  | _ => cases h

theorem ofObject_eq_of_classify {e : Expr} {entries : List Entry}
    (h : Literal.classify e = .object entries) : Entry.ofObject e = entries := by
  cases e with
  | object => exact Literal.object.inj h
  | template span raw =>
    rw [Literal.classify] at h
    split at h <;> cases h
  | unary span op operand => cases op <;> cases operand <;> cases h
  | _ => cases h

theorem checkEntry_errorFree_iff (model : Model) (scope : Scope) (entry : Entry) :
    ErrorFree (checkEntry model scope entry) ↔ Conforms model scope entry := by
  -- the entries inside the value, against any scope
  have hinside (inner : Scope) : ErrorFree (checkObject model inner entry.value) ↔
      ∀ e ∈ Entry.ofObject entry.value, Conforms model inner e := by
    rw [checkObject_eq, checkEntries_errorFree_iff]
    refine forall₂_congr fun e he => ?_
    have hsmaller := sizeOf_lt_of_mem_ofObject he
    exact checkEntry_errorFree_iff model inner e
  rw [checkEntry, judge_errorFree_iff]
  constructor
  · rintro ⟨d, hfind, haccepts, hnested⟩
    refine .intro (find?_eq_some_iff_firstNamed.1 hfind) (accepts_iff.1 haccepts) ?_
    intro entries inner hobject hmem hinner
    rw [← ofObject_eq_of_classify hobject]
    exact (hinside inner).1 (hnested entries inner hobject (List.ne_nil_of_mem hmem)
      (innerScope?_eq_some_iff.2 hinner))
  · rintro ⟨hfirst, haccepted, hnested⟩
    have haccepts := accepts_iff.2 haccepted
    refine ⟨_, find?_eq_some_iff_firstNamed.2 hfirst, haccepts, ?_⟩
    intro entries inner hobject htypes hinner
    rw [hobject] at haccepts
    rw [hinside, ofObject_eq_of_classify hobject]
    exact hnested entries inner hobject ((object_mem_iff haccepts).2 htypes)
      (innerScope?_eq_some_iff.1 hinner)
termination_by sizeOf entry.value

/-- **A check finds no error exactly if all entries conform**, whatever the documentation says: the
components may refer to each other in circles, and objects may nest as deep as they like. -/
theorem checkComponent_conforms_iff (model : Model) (c : Component) (entries : List Entry) :
    (∀ d ∈ checkComponent model c entries, d.severity ≠ .error) ↔
      ∀ entry ∈ entries, Conforms model c.scope entry := by
  have hentries := @checkEntries_errorFree_iff model c.scope entries
  simp only [checkEntry_errorFree_iff] at hentries
  exact hentries

end WidgetLint.Check
