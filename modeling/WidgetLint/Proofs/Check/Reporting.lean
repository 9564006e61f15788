import Mathlib.Data.List.Forall2
import Mathlib.Data.List.NodupEquivFin
import WidgetLint.Proofs.Check.Conformance

/-!
# Every property is reported at most once

`Run` is a run of the check, step by step: it goes through a list of entries, and for an object
whose descriptor refers to a component it starts again there, with the entries of the object.
Nothing in the documentation gets smaller on the way, and components may refer to each other in
circles. **Every check has exactly one run all the same, and its diagnostics are about different
properties of the configuration, in the order in which these end** (`check_reports_once`): each of
them stands at the key or at the value of its own property.
-/

namespace WidgetLint.Check

open Text Script Schema

/-! ## Runs -/

/-- A run of the check over entries, with what it reports. -/
inductive Run (model : Model) : Scope → List Entry → List Diagnostic → Prop
  | done {scope : Scope} : Run model scope [] []
  | undocumented {scope : Scope} {entry : Entry} {rest : List Entry} {found : List Diagnostic} :
      scope.find? entry.key = none → Run model scope rest found →
      Run model scope (entry :: rest) (notFound entry :: found)
  | rejected {scope : Scope} {entry : Entry} {rest : List Entry} {found : List Diagnostic}
      {d : Descriptor} :
      scope.find? entry.key = some d → accepts d (.classify entry.value) = false →
      Run model scope rest found → Run model scope (entry :: rest) (badType d entry :: found)
  /-- The value is accepted, and nothing inside it is looked at. -/
  | accepted {scope : Scope} {entry : Entry} {rest : List Entry} {found : List Diagnostic}
      {d : Descriptor} :
      scope.find? entry.key = some d → accepts d (.classify entry.value) = true →
      (∀ entries inner, Literal.classify entry.value = .object entries → d.types ≠ [] →
        innerScope? model d ≠ some inner) →
      Run model scope rest found →
      Run model scope (entry :: rest) ((sameAsDefault? d entry).toList ++ found)
  /-- The value is an object, and its entries are checked against what the types refer to or
  against the nested options. -/
  | entered {scope inner : Scope} {entry : Entry} {rest entries : List Entry}
      {inside found : List Diagnostic} {d : Descriptor} :
      scope.find? entry.key = some d → accepts d (.classify entry.value) = true →
      Literal.classify entry.value = .object entries → d.types ≠ [] →
      innerScope? model d = some inner → Run model inner entries inside →
      Run model scope rest found →
      Run model scope (entry :: rest) (inside ++ (sameAsDefault? d entry).toList ++ found)

variable {model : Model} {scope : Scope} {entry : Entry} {d : Descriptor}

/-! ## What a check of one entry does -/

theorem checkEntry_undocumented (hfind : scope.find? entry.key = none) :
    checkEntry model scope entry = [notFound entry] := by
  rw [checkEntry, judge, hfind]

theorem checkEntry_rejected (hfind : scope.find? entry.key = some d)
    (hrejects : accepts d (.classify entry.value) = false) :
    checkEntry model scope entry = [badType d entry] := by
  rw [checkEntry, judge, hfind]
  simp [hrejects]

theorem checkEntry_accepted (hfind : scope.find? entry.key = some d)
    (haccepts : accepts d (.classify entry.value) = true)
    (hclosed : ∀ entries inner, Literal.classify entry.value = .object entries → d.types ≠ [] →
      innerScope? model d ≠ some inner) :
    checkEntry model scope entry = (sameAsDefault? d entry).toList := by
  rw [checkEntry, judge, hfind]
  simp only [haccepts, if_true]
  cases hliteral : Literal.classify entry.value with
  | object entries =>
    by_cases htypes : d.types = []
    · simp [htypes]
    · cases hinner : innerScope? model d with
      | none => simp
      | some inner => exact absurd hinner (hclosed entries inner hliteral htypes)
  | _ => rfl

theorem checkEntry_entered {entries : List Entry} {inner : Scope}
    (hfind : scope.find? entry.key = some d)
    (haccepts : accepts d (.classify entry.value) = true)
    (hobject : Literal.classify entry.value = .object entries) (htypes : d.types ≠ [])
    (hinner : innerScope? model d = some inner) :
    checkEntry model scope entry =
      checkEntries model inner entries ++ (sameAsDefault? d entry).toList := by
  have hempty : d.types.isEmpty = false := by simpa using htypes
  rw [checkEntry, judge, hfind]
  simp only [haccepts, if_true, checkObject_eq, ofObject_eq_of_classify hobject, hinner,
    Option.elim_some]
  simp [hobject, Literal.isObject, hempty]

theorem checkEntries_cons (entry : Entry) (rest : List Entry) :
    checkEntries model scope (entry :: rest) =
      checkEntry model scope entry ++ checkEntries model scope rest :=
  List.flatMap_cons

/-! ## Every check has exactly one run -/

theorem Run.eq_checkEntries {entries : List Entry} {found : List Diagnostic}
    (h : Run model scope entries found) : found = checkEntries model scope entries := by
  induction h with
  | done => rfl
  | undocumented hfind _ ih =>
    rw [checkEntries_cons, checkEntry_undocumented hfind, ih]
    rfl
  | rejected hfind hrejects _ ih =>
    rw [checkEntries_cons, checkEntry_rejected hfind hrejects, ih]
    rfl
  | accepted hfind haccepts hclosed _ ih =>
    rw [checkEntries_cons, checkEntry_accepted hfind haccepts hclosed, ih]
  | entered hfind haccepts hobject htypes hinner _ _ ihinside ih =>
    rw [checkEntries_cons, checkEntry_entered hfind haccepts hobject htypes hinner, ihinside, ih]

theorem run_checkEntries {entries : List Entry}
    (h : ∀ entry ∈ entries, ∀ rest found, Run model scope rest found →
      Run model scope (entry :: rest) (checkEntry model scope entry ++ found)) :
    Run model scope entries (checkEntries model scope entries) := by
  induction entries with
  | nil => exact .done
  | cons entry rest ih =>
    rw [checkEntries_cons]
    exact h entry (by simp) rest _ (ih fun e he => h e (by simp [he]))

/-- A run over the rest of the entries goes on from one over the first: what has to run inside its
value is smaller than the value. -/
theorem Run.cons (model : Model) (scope : Scope) (entry : Entry) {rest : List Entry}
    {found : List Diagnostic} (h : Run model scope rest found) :
    Run model scope (entry :: rest) (checkEntry model scope entry ++ found) := by
  cases hfind : scope.find? entry.key with
  | none =>
    rw [checkEntry_undocumented hfind]
    exact .undocumented hfind h
  | some d =>
    cases haccepts : accepts d (.classify entry.value) with
    | false =>
      rw [checkEntry_rejected hfind haccepts]
      exact .rejected hfind haccepts h
    | true =>
      by_cases hopen : ∃ entries inner, Literal.classify entry.value = .object entries ∧
          d.types ≠ [] ∧ innerScope? model d = some inner
      · obtain ⟨entries, inner, hobject, htypes, hinner⟩ := hopen
        rw [checkEntry_entered hfind haccepts hobject htypes hinner]
        have hinside : Run model inner entries (checkEntries model inner entries) := by
          refine run_checkEntries fun e he rest found hrest => ?_
          have hsmaller : sizeOf e.value < sizeOf entry.value :=
            sizeOf_lt_of_mem_ofObject (ofObject_eq_of_classify hobject ▸ he)
          exact Run.cons model inner e hrest
        exact .entered hfind haccepts hobject htypes hinner hinside h
      · have hclosed : ∀ entries inner, Literal.classify entry.value = .object entries →
            d.types ≠ [] → innerScope? model d ≠ some inner :=
          fun entries inner hobject htypes hinner =>
            hopen ⟨entries, inner, hobject, htypes, hinner⟩
        rw [checkEntry_accepted hfind haccepts hclosed]
        exact .accepted hfind haccepts hclosed h
termination_by sizeOf entry.value

theorem run_iff {entries : List Entry} {found : List Diagnostic} :
    Run model scope entries found ↔ found = checkEntries model scope entries := by
  constructor
  · exact Run.eq_checkEntries
  · rintro rfl
    exact run_checkEntries fun entry _ _ _ h => h.cons model scope entry

/-! ## Properties -/

/-- The named properties of a configuration that an entry stands for: those of the object that is
its value, each behind the ones inside it, and then the entry itself. -/
def Entry.properties (entry : Entry) : List Entry :=
  ((Entry.ofObject entry.value).attach.flatMap fun ⟨e, _⟩ => e.properties) ++ [entry]
termination_by sizeOf entry.value
decreasing_by exact sizeOf_lt_of_mem_ofObject ‹_›

/-- The named properties of a configuration: the given entries, and those of the objects that are
their values. -/
def allProperties (entries : List Entry) : List Entry :=
  entries.flatMap Entry.properties

theorem Entry.properties_eq (entry : Entry) :
    entry.properties = allProperties (Entry.ofObject entry.value) ++ [entry] := by
  rw [Entry.properties, allProperties]
  simp

inductive Concerns : Diagnostic → Entry → Prop
  | notFound (entry : Entry) : Concerns (notFound entry) entry
  | badType (d : Descriptor) (entry : Entry) : Concerns (badType d entry) entry
  | sameAsDefault {d : Descriptor} {entry : Entry} {found : Diagnostic} :
      sameAsDefault? d entry = some found → Concerns found entry

/-- A diagnostic stands where the key of a property starts or where its value does. -/
def Diagnostic.StandsAt (found : Diagnostic) (property : Entry) : Prop :=
  found.position = some property.position ∨ found.position = some property.value.span.start

theorem Concerns.standsAt {found : Diagnostic} {property : Entry} (h : Concerns found property) :
    found.StandsAt property := by
  cases h with
  | notFound => exact .inl rfl
  | badType => exact .inr rfl
  | sameAsDefault h =>
    unfold sameAsDefault? at h
    split at h
    · split at h
      · cases h
        exact .inl rfl
      · cases h
    · cases h

/-- The diagnostics are about different ones of the properties, in the same order. -/
def Reports (found : List Diagnostic) (properties : List Entry) : Prop :=
  ∃ reported, List.Forall₂ Concerns found reported ∧ reported.Sublist properties

theorem reports_nil (properties : List Entry) : Reports [] properties :=
  ⟨[], .nil, List.nil_sublist _⟩

theorem reports_singleton {found : Diagnostic} (h : Concerns found entry) :
    Reports [found] [entry] :=
  ⟨[entry], .cons h .nil, .refl _⟩

theorem Reports.append {found found' : List Diagnostic} {properties properties' : List Entry}
    (h : Reports found properties) (h' : Reports found' properties') :
    Reports (found ++ found') (properties ++ properties') := by
  obtain ⟨reported, hconcerns, hsub⟩ := h
  obtain ⟨reported', hconcerns', hsub'⟩ := h'
  exact ⟨reported ++ reported', List.rel_append hconcerns hconcerns', hsub.append hsub'⟩

theorem sameAsDefault?_reports (d : Descriptor) (entry : Entry) :
    Reports (sameAsDefault? d entry).toList [entry] := by
  cases h : sameAsDefault? d entry with
  | none => exact reports_nil _
  | some found => exact reports_singleton (.sameAsDefault h)

theorem Reports.ofEntry {inside about : List Diagnostic}
    (hinside : Reports inside (allProperties (Entry.ofObject entry.value)))
    (habout : Reports about [entry]) : Reports (inside ++ about) entry.properties := by
  rw [Entry.properties_eq]
  exact hinside.append habout

theorem Run.reports {entries : List Entry} {found : List Diagnostic}
    (h : Run model scope entries found) : Reports found (allProperties entries) := by
  induction h with
  | done => exact reports_nil _
  | undocumented _ _ ih =>
    exact ((reports_nil _).ofEntry (reports_singleton (.notFound _))).append ih
  | rejected _ _ _ ih =>
    exact ((reports_nil _).ofEntry (reports_singleton (.badType _ _))).append ih
  | accepted _ _ _ _ ih =>
    exact ((reports_nil _).ofEntry (sameAsDefault?_reports _ _)).append ih
  | entered _ _ hobject _ _ _ _ ihinside ih =>
    rw [← ofObject_eq_of_classify hobject] at ihinside
    exact (ihinside.ofEntry (sameAsDefault?_reports _ _)).append ih

theorem Reports.length_le {found : List Diagnostic} {properties : List Entry}
    (h : Reports found properties) : found.length ≤ properties.length := by
  obtain ⟨reported, hconcerns, hsub⟩ := h
  calc found.length = reported.length := hconcerns.length_eq
    _ ≤ properties.length := hsub.length_le

theorem Reports.exists_embedding {found : List Diagnostic} {properties : List Entry}
    (h : Reports found properties) :
    ∃ subject : Fin found.length ↪o Fin properties.length,
      ∀ i, Concerns (found.get i) (properties.get (subject i)) := by
  obtain ⟨reported, hconcerns, hsub⟩ := h
  obtain ⟨place, hplace⟩ := List.sublist_iff_exists_fin_orderEmbedding_get_eq.1 hsub
  refine ⟨(Fin.castOrderIso hconcerns.length_eq).toOrderEmbedding.trans place, fun i => ?_⟩
  have hi : i.1 < reported.length := hconcerns.length_eq ▸ i.2
  have hget := hconcerns.get i.2 hi
  rw [hplace ⟨i.1, hi⟩] at hget
  exact hget

/-- **A check ends and reports every property at most once**, whatever the documentation says. It
has exactly one run, and its diagnostics are sent in order to different properties of the
configuration, each to the one at whose key or value it stands. -/
theorem check_reports_once (model : Model) (c : Component) (entries : List Entry) :
    (∀ found, Run model c.scope entries found ↔ found = checkComponent model c entries) ∧
    (∃ subject : Fin (checkComponent model c entries).length ↪o Fin (allProperties entries).length,
      ∀ i, Concerns ((checkComponent model c entries).get i)
          ((allProperties entries).get (subject i)) ∧
        ((checkComponent model c entries).get i).StandsAt
          ((allProperties entries).get (subject i))) ∧
    (checkComponent model c entries).length ≤ (allProperties entries).length := by
  have hrun : Run model c.scope entries (checkComponent model c entries) := run_iff.2 rfl
  obtain ⟨subject, hconcerns⟩ := hrun.reports.exists_embedding
  refine ⟨fun found => run_iff, ⟨subject, fun i => ⟨hconcerns i, (hconcerns i).standsAt⟩⟩, ?_⟩
  exact hrun.reports.length_le

end WidgetLint.Check
