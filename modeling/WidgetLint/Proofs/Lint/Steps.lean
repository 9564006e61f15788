import WidgetLint.Lint.Linter
import WidgetLint.Lint.Usage
import WidgetLint.Proofs.Lint.Places
import WidgetLint.Proofs.Printing.ParsedStmt

/-!
# Linting by steps that agree with the plain ones

A monad has results if one can say of a value of it what it results in, and that passes through
`pure` and `bind` (`Results`). **If each step results in what the plain step gives, so does the
linter** (`lintScriptBy_results`, `lintMarkupBy_results`, `detectBy_results`). Spans only have to be
measured where they do not end before they start, and diagnostics only to be moved if they stand at
a place of a text.
-/

namespace WidgetLint.Lint

open Text Script Markup Schema Check

/-- What the values of a monad result in. -/
structure Results (m : Type → Type) [Monad m] where
  In {α : Type} : m α → α → Prop
  pure {α : Type} (a : α) : In (Pure.pure a) a
  bind {α β : Type} {x : m α} {a : α} {k : α → m β} {b : β} : In x a → In (k a) b → In (x >>= k) b

variable {m : Type → Type} [Monad m] {results : Results m} {steps : Steps m}

namespace Results

variable [LawfulMonad m] {α β : Type}

theorem mapM {f : α → m β} {g : α → β} {l : List α} (h : ∀ a ∈ l, results.In (f a) (g a)) :
    results.In (l.mapM f) (l.map g) := by
  induction l with
  | nil => exact results.pure []
  | cons a l ih =>
    rw [List.mapM_cons, List.map_cons]
    obtain ⟨ha, hl⟩ := List.forall_mem_cons.1 h
    exact results.bind ha (results.bind (ih hl) (results.pure _))

theorem flatMapM {f : α → m (List β)} {g : α → List β} {l : List α}
    (h : ∀ a ∈ l, results.In (f a) (g a)) : results.In (l.flatMapM f) (l.flatMap g) := by
  induction l with
  | nil => exact results.pure []
  | cons a l ih =>
    rw [List.flatMapM_cons, List.flatMap_cons]
    obtain ⟨ha, hl⟩ := List.forall_mem_cons.1 h
    exact results.bind ha (results.bind (ih hl) (results.pure _))

end Results

/-- Each step results in what the plain step gives. -/
structure Steps.Agree (steps : Steps m) (results : Results m) : Prop where
  program (text : String) : results.In (steps.program text) (parseProgram text)
  expression (text : String) (origin : Position) :
    results.In (steps.expression text origin) (parseExpressionAt text origin)
  page (s : Settings) (text : String) : results.In (steps.page s text) (readPage s text)
  resolve? (model : Model) (s : Settings) (name : String) :
    results.In (steps.resolve? model s name) (model.resolve? name s.namespaceText)
  length (s : Span) (h : s.start.offset ≤ s.stop.offset) : results.In (steps.length s) s.length
  translate {part : List Char} {d : Diagnostic} (h : d.Within (PlaceOf part)) (origin : Position) :
    results.In (steps.translate d origin) (d.translate origin)

theorem callSites_ordered {text lead : String} {p : Program} (h : parseProgram text = .ok p) :
    ∀ site ∈ callSites lead p, site.method.start.offset ≤ site.method.stop.offset := by
  intro site hsite
  have hformed : Everywhere Node.Formed p.visits := visitBody_sound (parseProgram_sound h) 0
  obtain ⟨depth, e, hvisit, hsite⟩ := mem_callSites.1 hsite
  obtain ⟨span, callee, optional, others, rfl, hmethod⟩ := callSite?_eq_some hsite
  obtain ⟨dotSpan, object, dotOptional, name, rfl⟩ := componentMethod?_eq_some hmethod
  exact (hformed _ hvisit).2

variable (hsteps : steps.Agree results)
include hsteps

/-! ## Linting -/

namespace Linter

section
variable (l : Linter)

theorem checkSiteBy_results {site : CallSite}
    (h : site.method.start.offset ≤ site.method.stop.offset) :
    results.In (l.checkSiteBy steps site) (l.checkSite site) := by
  refine results.bind (hsteps.resolve? _ _ _) ?_
  cases hresolves : l.model.resolve? site.component l.settings.namespaceText with
  | some c =>
    rw [l.checkSite_some hresolves]
    exact results.pure _
  | none =>
    rw [l.checkSite_none hresolves]
    exact results.bind (hsteps.length _ h) (results.pure _)

theorem readAttributeBy_results (s : Settings) (index : Nat) (a : Attribute) :
    results.In (readAttributeBy steps s index a) (readAttribute s index a) := by
  unfold readAttribute readAttributeBy
  cases afterWord? s.dataPrefix a.name with
  | none => exact results.pure _
  | some option =>
    dsimp only
    split
    · exact results.pure _
    · refine results.bind (hsteps.expression _ _) ?_
      simp only [Steps.plain, Id.run]
      cases hparse : parseExpressionAt (a.value.elim "true" (·.text))
          (a.value.elim a.nameSpan.start (·.span.start)) with
      | ok value => exact results.pure _
      | error e => exact results.pure _

variable [LawfulMonad m]

theorem checkScriptBy_results (text : String) :
    results.In (l.checkScriptBy steps text) (l.checkScript text) := by
  refine results.bind (hsteps.program text) ?_
  cases hparse : parseProgram text with
  | error e =>
    rw [l.checkScript_error hparse]
    exact results.pure _
  | ok p =>
    rw [l.checkScript_ok hparse]
    exact Results.flatMapM fun site hsite =>
      l.checkSiteBy_results hsteps (callSites_ordered hparse site hsite)

theorem readAttributesBy_results (s : Settings) (e : Element) :
    results.In (readAttributesBy steps s e) (readAttributes s e) := by
  rw [readAttributesBy, readAttributes_eq, List.mapIdx_eq_zipIdx_map, List.mapIdx_eq_zipIdx_map,
    List.mapM_map]
  exact Results.mapM fun x _ => readAttributeBy_results hsteps s x.2 x.1

theorem checkRoleBy_results (e : Element) (role : Attribute) :
    results.In (l.checkRoleBy steps e role) (l.checkRole e role) := by
  refine results.bind (hsteps.resolve? _ _ _) ?_
  cases hresolves : l.model.resolve? (role.value.elim "" (·.text)) l.settings.namespaceText with
  | none =>
    rw [l.checkRole_none hresolves]
    exact results.pure _
  | some c =>
    rw [l.checkRole_some hresolves]
    exact results.bind (readAttributesBy_results hsteps l.settings e) (results.pure _)

variable {template : String → List Diagnostic} {templateBy : String → m (List Diagnostic)}

theorem checkSpotBy_results (htemplate : ∀ body, results.In (templateBy body) (template body))
    (hplaces : ∀ body, ∀ d ∈ template body, d.Within (PlaceOf body.toList)) (spot : Spot) :
    results.In (l.checkSpotBy steps templateBy spot) (l.checkSpot template spot) := by
  cases spot with
  | role e role => exact l.checkRoleBy_results hsteps e role
  | embedded kind body span =>
    cases kind with
    | script =>
      rw [checkSpot_script]
      exact results.bind (l.checkScriptBy_results hsteps body) (Results.mapM fun d hd =>
        hsteps.translate (l.checkScript_within body d hd) span.start)
    | template =>
      rw [checkSpot_template]
      exact results.bind (htemplate body) (Results.mapM fun d hd =>
        hsteps.translate (hplaces body d hd) span.start)

theorem checkPageBy_results (htemplate : ∀ body, results.In (templateBy body) (template body))
    (hplaces : ∀ body, ∀ d ∈ template body, d.Within (PlaceOf body.toList)) (text : String) :
    results.In (l.checkPageBy steps templateBy text) (l.checkPage template text) := by
  rw [checkPage_eq]
  exact results.bind (hsteps.page _ _) (results.bind
    (Results.flatMapM fun spot _ => l.checkSpotBy_results hsteps htemplate hplaces spot)
    (results.pure _))

theorem checkDocumentBy_results (levels : Nat) (text : String) :
    results.In (l.checkDocumentBy steps levels text) (l.checkDocument levels text) := by
  induction levels generalizing text with
  | zero =>
    refine l.checkPageBy_results hsteps (fun _ => results.pure _) (fun body d hd => ?_) text
    rw [List.mem_singleton] at hd
    subst hd
    exact ⟨.first, rfl, 0, Nat.zero_le _, rfl⟩
  | succ levels ih => exact l.checkPageBy_results hsteps ih (l.checkDocument_within levels) text

/-- **A script is linted by the steps as it is by plain ones.** -/
theorem lintScriptBy_results (text filename : String) :
    results.In (l.lintScriptBy steps text filename) (l.lintScript text filename) :=
  results.bind (l.checkScriptBy_results hsteps text) (results.pure _)

/-- **A page is linted by the steps as it is by plain ones.** -/
theorem lintMarkupBy_results (text filename : String) :
    results.In (l.lintMarkupBy steps text filename) (l.lintMarkup text filename) :=
  results.bind (l.checkDocumentBy_results hsteps maxTemplateDepth text) (results.pure _)

end

end Linter

/-! ## Detecting -/

section
variable [LawfulMonad m] (s : Settings)

omit [LawfulMonad m] in
theorem scriptMentionsBy_results (text : String) :
    results.In (scriptMentionsBy steps s text) (scriptMentions s text) := by
  refine results.bind (hsteps.program text) ?_
  cases hparse : parseProgram text with
  | error e =>
    rw [scriptMentions_error s hparse]
    exact results.pure _
  | ok p =>
    rw [scriptMentions_ok s hparse]
    exact results.pure _

theorem pageMentionsBy_results {template : String → List Mention}
    {templateBy : String → m (List Mention)}
    (htemplate : ∀ body, results.In (templateBy body) (template body)) (text : String) :
    results.In (pageMentionsBy steps s templateBy text) (pageMentions s template text) := by
  rw [pageMentions_eq]
  refine results.bind (hsteps.page s text) (Results.flatMapM fun spot _ => ?_)
  cases spot with
  | role e role => exact results.pure _
  | embedded kind body span =>
    cases kind with
    | script => exact scriptMentionsBy_results hsteps s body
    | template => exact htemplate body

theorem documentMentionsBy_results (levels : Nat) (text : String) :
    results.In (documentMentionsBy steps s levels text) (documentMentions s levels text) := by
  induction levels generalizing text with
  | zero => exact pageMentionsBy_results hsteps s (fun _ => results.pure _) text
  | succ levels ih => exact pageMentionsBy_results hsteps s ih text

/-- **Usage is detected by the steps as it is by plain ones.** -/
theorem detectBy_results (scripts pages : List String) :
    results.In (detectBy steps s scripts pages) (detect scripts pages s) := by
  rw [detect_eq]
  exact results.bind (Results.flatMapM fun text _ => scriptMentionsBy_results hsteps s text)
    (results.bind (Results.flatMapM fun text _ => documentMentionsBy_results hsteps s _ text)
      (results.pure _))

end

end WidgetLint.Lint
