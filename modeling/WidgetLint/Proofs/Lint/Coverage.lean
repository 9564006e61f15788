import WidgetLint.Proofs.Lint.Steps
import WidgetLint.Proofs.Lint.Usage

/-!
# Usage detection covers what the linter looks up

The linter asks the documentation for a component at every role and at every call site, in every
script and template it enters. The detector of usage walks the same texts on its own. **Every name
that the linter asks for is one of the detected components**, up to ASCII case, unless it is the
empty name of a role without a value (`lookups_covered`). So a bundle made from the detected
components has whatever the linter knows the page to need.

The names are taken down by a linter that takes the plain steps and notes what it asks for at each
(`Steps.traced`).
-/

namespace WidgetLint.Lint

open Text Script Markup Schema Check

/-! ## A linter that takes down the names it asks for -/

/-- What a part of the linter finds, with the names it asks the documentation for on the way. -/
structure Trace (α : Type) where
  asked : List String
  found : α

instance : Monad Trace where
  pure found := ⟨[], found⟩
  bind t k := ⟨t.asked ++ (k t.found).asked, (k t.found).found⟩

instance : LawfulMonad Trace :=
  LawfulMonad.mk' Trace (fun t => congrArg (Trace.mk · t.found) (List.append_nil _))
    (fun _ _ => rfl) (fun _ _ _ => congrArg (Trace.mk · _) (List.append_assoc _ _ _))

namespace Trace

variable {α β : Type}

theorem asked_map (f : α → β) (t : Trace α) : (f <$> t).asked = t.asked :=
  List.append_nil _

theorem asked_mapM (f : α → Trace β) (l : List α) :
    (l.mapM f).asked = l.flatMap fun a => (f a).asked := by
  induction l with
  | nil => rfl
  | cons a l ih =>
    rw [List.mapM_cons, List.flatMap_cons, ← ih]
    exact congrArg ((f a).asked ++ ·) (List.append_nil _)

theorem asked_flatMapM (f : α → Trace (List β)) (l : List α) :
    (l.flatMapM f).asked = l.flatMap fun a => (f a).asked := by
  induction l with
  | nil => rfl
  | cons a l ih =>
    rw [List.flatMapM_cons, List.flatMap_cons, ← ih]
    exact congrArg ((f a).asked ++ ·) (List.append_nil _)

theorem found_flatMapM (f : α → Trace (List β)) (l : List α) :
    (l.flatMapM f).found = l.flatMap fun a => (f a).found := by
  induction l with
  | nil => rfl
  | cons a l ih =>
    rw [List.flatMapM_cons, List.flatMap_cons, ← ih]
    rfl

end Trace

/-- Plain steps that take down the names they ask for. -/
def Steps.traced : Steps Trace where
  program text := pure (parseProgram text)
  expression text origin := pure (parseExpressionAt text origin)
  page s text := pure (readPage s text)
  resolve? model s name := ⟨[name], model.resolve? name s.namespaceText⟩
  length s := pure s.length
  translate d origin := pure (d.translate origin)

def Results.trace : Results Trace where
  In t a := t.found = a
  pure _ := rfl
  bind hx hk := by
    subst hx
    exact hk

theorem Steps.traced_agree : Steps.traced.Agree Results.trace where
  program _ := rfl
  expression _ _ := rfl
  page _ _ := rfl
  resolve? _ _ _ := rfl
  length _ _ := rfl
  translate _ _ := rfl

namespace Linter

def lintScriptTrace (l : Linter) (text filename : String) : Trace (List Diagnostic) :=
  l.lintScriptBy .traced text filename

def lintMarkupTrace (l : Linter) (text filename : String) : Trace (List Diagnostic) :=
  l.lintMarkupBy .traced text filename

theorem translate_traced (t : Trace (List Diagnostic)) (origin : Position) :
    (do (← t).mapM (Steps.traced.translate · origin)) = (·.map (·.translate origin)) <$> t := by
  simp only [Steps.traced, List.mapM_pure, map_eq_pure_bind]

theorem checkPageBy_traced (l : Linter) (template : String → Trace (List Diagnostic))
    (text : String) :
    l.checkPageBy .traced template text =
      ((readPage l.settings text).problems.map
        (fun p => ⟨.warning, p.message, some p.position, none, none⟩) ++ ·) <$>
        (spotsIn l.settings isStyle (readPage l.settings text).root.toNode).flatMapM
          (l.checkSpotBy .traced template) := by
  rw [map_eq_pure_bind]
  exact pure_bind (readPage l.settings text) _

end Linter

/-! ## The detector goes wherever the linter goes -/

section
variable (s : Settings)

mutual

theorem spotsIn_subset (skips : String → Bool) :
    ∀ node, spotsIn s skips node ⊆ spotsIn s (fun _ => false) node
  | .leaf .. => List.Subset.refl _
  | .element tag children => by
    rw [spotsIn, spotsIn]
    simp only [Bool.false_eq_true, if_false]
    by_cases hskips : skips tag.name = true
    · rw [if_pos hskips]
      exact List.nil_subset _
    · rw [if_neg hskips]
      cases readElement s ⟨tag, children⟩ with
      | embedded spots => exact List.Subset.refl _
      | plain spots =>
        exact List.append_subset.2 ⟨List.subset_append_left _ _,
          List.subset_append_of_subset_right _ (spotsInAll_subset skips children)⟩

theorem spotsInAll_subset (skips : String → Bool) :
    ∀ nodes, spotsInAll s skips nodes ⊆ spotsInAll s (fun _ => false) nodes
  | [] => List.Subset.refl _
  | node :: rest => by
    rw [spotsInAll, spotsInAll]
    exact List.append_subset.2
      ⟨List.subset_append_of_subset_left _ (spotsIn_subset skips node),
        List.subset_append_of_subset_right _ (spotsInAll_subset skips rest)⟩

end

theorem mentionsIn_of_callSite {e : Expr} {site : CallSite}
    (h : callSite? s.methodPrefix e = some site) :
    .component site.component ∈ mentionsIn s e := by
  obtain ⟨span, callee, optional, others, rfl, hmethod⟩ := callSite?_eq_some h
  simp [mentionsIn, hmethod]

end

namespace Linter

variable (l : Linter)

theorem checkSiteBy_asked (site : CallSite) :
    (l.checkSiteBy .traced site).asked = [site.component] := by
  show [site.component] ++ Trace.asked _ = _
  cases (Steps.traced.resolve? l.model l.settings site.component).found with
  | none => rfl
  | some c => rfl

theorem checkScriptBy_mentioned {text name : String}
    (h : name ∈ (l.checkScriptBy .traced text).asked) :
    .component name ∈ scriptMentions l.settings text := by
  simp only [checkScriptBy, Steps.traced, pure_bind] at h
  cases hp : parseProgram text with
  | error e =>
    rw [hp] at h
    cases h
  | ok p =>
    rw [scriptMentions_ok _ hp]
    rw [hp] at h
    change name ∈ Trace.asked ((callSites _ p).flatMapM (l.checkSiteBy .traced)) at h
    simp only [Trace.asked_flatMapM, checkSiteBy_asked, List.mem_flatMap, List.mem_singleton,
      callSites, List.mem_filterMap] at h
    obtain ⟨site, ⟨e, he, hsite⟩, rfl⟩ := h
    exact List.mem_flatMap.2 ⟨e, he, mentionsIn_of_callSite l.settings hsite⟩

theorem readAttributeBy_asked (s : Settings) (index : Nat) (a : Attribute) :
    (readAttributeBy .traced s index a).asked = [] := by
  unfold readAttributeBy
  cases afterWord? s.dataPrefix a.name with
  | none => rfl
  | some option =>
    dsimp only
    split
    · rfl
    · simp only [Steps.traced, pure_bind]
      split
      · rfl
      · rfl

theorem readAttributesBy_asked (s : Settings) (e : Element) :
    (readAttributesBy .traced s e).asked = [] := by
  rw [readAttributesBy, List.mapIdx_eq_zipIdx_map, List.mapM_map, Trace.asked_mapM]
  exact List.flatMap_eq_nil_iff.2 fun x _ => readAttributeBy_asked s x.2 x.1

theorem checkRoleBy_asked (e : Element) (role : Attribute) :
    (l.checkRoleBy .traced e role).asked = [role.value.elim "" (·.text)] := by
  show [role.value.elim "" (·.text)] ++ Trace.asked _ = _
  cases (Steps.traced.resolve? l.model l.settings (role.value.elim "" (·.text))).found with
  | none => rfl
  | some c =>
    show [_] ++ ((readAttributesBy .traced l.settings e).asked ++ []) = _
    rw [readAttributesBy_asked]
    rfl

/-- A place of interest mentions the names that the linter asks for there, if templates do. -/
theorem checkSpotBy_mentioned {traced : String → Trace (List Diagnostic)}
    {template : String → List Mention}
    (htemplate : ∀ text, ∀ name ∈ (traced text).asked, name ≠ "" →
      .component name ∈ template text)
    {spot : Spot} {name : String} (h : name ∈ (l.checkSpotBy .traced traced spot).asked)
    (hname : name ≠ "") : .component name ∈ spotMentions l.settings template spot := by
  cases spot with
  | role e role =>
    rw [checkSpotBy, checkRoleBy_asked, List.mem_singleton] at h
    cases hvalue : role.value with
    | none => exact absurd (by rw [h, hvalue]; rfl) hname
    | some value =>
      subst h
      show _ ∈ (role.value.map fun v => Mention.component v.text).toList
      simp [hvalue]
  | embedded kind body span =>
    cases kind with
    | script =>
      rw [checkSpotBy, translate_traced, Trace.asked_map] at h
      exact l.checkScriptBy_mentioned h
    | template =>
      rw [checkSpotBy, translate_traced, Trace.asked_map] at h
      exact htemplate body name h hname

theorem checkPageBy_mentioned {traced : String → Trace (List Diagnostic)}
    {template : String → List Mention}
    (htemplate : ∀ text, ∀ name ∈ (traced text).asked, name ≠ "" →
      .component name ∈ template text)
    {text name : String} (h : name ∈ (l.checkPageBy .traced traced text).asked)
    (hname : name ≠ "") : .component name ∈ pageMentions l.settings template text := by
  rw [checkPageBy_traced, Trace.asked_map, Trace.asked_flatMapM] at h
  obtain ⟨spot, hspot, hasked⟩ := List.mem_flatMap.1 h
  rw [pageMentions_eq]
  exact List.mem_flatMap.2 ⟨spot, spotsIn_subset l.settings isStyle _ hspot,
    l.checkSpotBy_mentioned htemplate hasked hname⟩

/-- A page mentions the names that the linter asks for with the same number of levels left: at
each level both enter the same templates, and with none left neither does. -/
theorem checkDocumentBy_mentioned (levels : Nat) (text : String) :
    ∀ name ∈ (l.checkDocumentBy .traced levels text).asked, name ≠ "" →
      .component name ∈ documentMentions l.settings levels text := by
  induction levels generalizing text with
  | zero =>
    intro name h hname
    exact l.checkPageBy_mentioned (fun body other hother _ => absurd hother List.not_mem_nil) h
      hname
  | succ levels ih =>
    intro name h hname
    exact l.checkPageBy_mentioned ih h hname

end Linter

/-! ## Detected components -/

/-- A name is one of the detected components, up to ASCII case. -/
def Usage.Covers (u : Usage) (name : String) : Prop :=
  ∃ component ∈ u.components, sameIgnoringCase component name

instance (u : Usage) (name : String) : Decidable (u.Covers name) :=
  inferInstanceAs (Decidable (∃ component ∈ u.components, sameIgnoringCase component name))

theorem Usage.ofMentions_covers {mentions : List Mention} {name : String}
    (h : .component name ∈ mentions) : (Usage.ofMentions mentions).Covers name :=
  (firstNames_ofMentions mentions).covers name (mem_mentionedNames.2 h)

/-! ## Diagnostics of missing components -/

/-- Neither text begins with the other. -/
def Differs (words text : String) : Prop :=
  ¬ words.toList <+: text.toList ∧ ¬ text.toList <+: words.toList

instance (words text : String) : Decidable (Differs words text) :=
  inferInstanceAs (Decidable (_ ∧ _))

theorem Differs.append {words text : String} (h : Differs words text) (rest : String) :
    Differs words (text ++ rest) := by
  unfold Differs
  rw [String.toList_append]
  have htext : text.toList <+: text.toList ++ rest.toList := List.prefix_append _ _
  exact ⟨fun hwords => (List.prefix_or_prefix_of_prefix hwords htext).elim h.1 h.2,
    fun hwords => h.2 (htext.trans hwords)⟩

/-- How the diagnostics of missing components begin. -/
def missingWords : String := "Could not find component"

theorem cause_differs (cause : Cause) : Differs missingWords cause.message := by
  cases cause with
  | noRadixDigits radix => exact .append (by decide) _
  | unexpectedChar char => exact .append (.append (by decide) _) _
  | unexpectedKeyword word => exact .append (.append (by decide) _) _
  | unexpectedToken lexeme => exact .append (.append (by decide) _) _
  | _ => decide

theorem fault_differs (fault : Fault) : Differs missingWords fault.message := by
  cases fault with
  | misplacedClose name place openName openPlace =>
    have h : Differs missingWords "Misplaced close tag </" := by decide
    exact (((((((((h.append _).append _).append _).append _).append _).append _).append _).append
      _).append _).append _
  | unexpectedClose name place =>
    exact .append (.append (.append (.append (by decide) _) _) _) _
  | strayInClose char => exact .append (by decide) _
  | unterminatedTag name => exact .append (.append (by decide) _) _
  | nestedTooDeep => exact .append (.append (by decide) _) _
  | missingClose name => exact .append (.append (by decide) _) _
  | _ => decide

theorem sameAsDefault?_differs {d : Descriptor} {entry : Entry} {found : Diagnostic}
    (h : sameAsDefault? d entry = some found) : Differs missingWords found.message := by
  unfold sameAsDefault? at h
  split at h
  · split at h
    · obtain rfl := Option.some.inj h
      exact .append (.append (.append (by decide) _) _) _
    · cases h
  · cases h

theorem judge_differs {model : Model} {scope : Scope} {entry : Entry}
    {inside : Scope → List Diagnostic}
    (hinside : ∀ inner, ∀ found ∈ inside inner, Differs missingWords found.message) :
    ∀ found ∈ judge model scope entry inside, Differs missingWords found.message := by
  intro found hfound
  unfold judge at hfound
  split at hfound
  · rw [List.mem_singleton] at hfound
    subst hfound
    exact .append (.append (by decide) _) _
  · simp only at hfound
    split at hfound
    · rcases List.mem_append.mp hfound with hnested | hsame
      · split at hnested
        · cases hscope : innerScope? model ‹Descriptor› with
          | none => simp [hscope] at hnested
          | some inner =>
            rw [hscope] at hnested
            exact hinside inner found hnested
        · simp at hnested
      · exact sameAsDefault?_differs (Option.mem_toList.mp hsame)
    · rw [List.mem_singleton] at hfound
      subst hfound
      exact .append (.append (.append (by decide) _) _) _

mutual

theorem checkObject_differs (model : Model) (scope : Scope) (e : Expr) :
    ∀ found ∈ checkObject model scope e, Differs missingWords found.message := by
  cases e with
  | object s members =>
    rw [checkObject]
    exact checkMembers_differs model scope members
  | _ => simp [checkObject]

theorem checkMembers_differs (model : Model) (scope : Scope) (members : List Member) :
    ∀ found ∈ checkMembers model scope members, Differs missingWords found.message := by
  intro found hfound
  cases members with
  | nil => simp [checkMembers] at hfound
  | cons member rest =>
    rw [checkMembers] at hfound
    rcases List.mem_append.mp hfound with hfound | hfound
    · exact checkMember_differs model scope member found hfound
    · exact checkMembers_differs model scope rest found hfound

theorem checkMember_differs (model : Model) (scope : Scope) (member : Member) :
    ∀ found ∈ checkMember model scope member, Differs missingWords found.message := by
  cases member with
  | spread e => simp [checkMember]
  | named s kind key value =>
    intro found hfound
    rw [checkMember] at hfound
    split at hfound
    · simp at hfound
    · exact judge_differs (fun inner => checkObject_differs model inner value) found hfound

end

theorem checkComponent_differs (model : Model) (c : Component) (entries : List Entry) :
    ∀ found ∈ checkComponent model c entries, Differs missingWords found.message := by
  intro found hfound
  simp only [checkComponent, checkEntries, List.mem_flatMap] at hfound
  obtain ⟨entry, -, hfound⟩ := hfound
  exact judge_differs (fun inner => checkObject_differs model inner entry.value) found hfound

/-! ## Missing components were asked for -/

def IsMissing (d : Diagnostic) : Prop :=
  missingWords.toList <+: d.message.toList

instance (d : Diagnostic) : Decidable (IsMissing d) :=
  inferInstanceAs (Decidable (_ <+: _))

/-- The diagnostic is that there is no component of the name. -/
def Misses (s : Settings) (name : String) (d : Diagnostic) : Prop :=
  d.message = "Could not find component: " ++ name ∨
    d.message = "Could not find component specified in " ++ s.roleAttribute ++ ": " ++ name

/-- Every missing component that is reported was asked for. -/
def Trace.Accounts (s : Settings) (t : Trace (List Diagnostic)) : Prop :=
  ∀ d ∈ t.found, IsMissing d → ∃ name ∈ t.asked, Misses s name d

section
variable {s : Settings}

theorem Trace.accounts_pure {found : List Diagnostic}
    (h : ∀ d ∈ found, Differs missingWords d.message) : (pure found : Trace _).Accounts s :=
  fun d hd hmissing => absurd hmissing (h d hd).1

theorem Trace.Accounts.flatMapM {α : Type} {f : α → Trace (List Diagnostic)} {items : List α}
    (h : ∀ a ∈ items, (f a).Accounts s) : (items.flatMapM f).Accounts s := by
  rw [Trace.Accounts, Trace.found_flatMapM, Trace.asked_flatMapM]
  intro d hd hmissing
  obtain ⟨a, ha, hfound⟩ := List.mem_flatMap.1 hd
  obtain ⟨name, hname, hmisses⟩ := h a ha d hfound hmissing
  exact ⟨name, List.mem_flatMap.2 ⟨a, ha, hname⟩, hmisses⟩

theorem Trace.Accounts.map {t : Trace (List Diagnostic)} (h : t.Accounts s)
    {f : Diagnostic → Diagnostic} (hf : ∀ d, (f d).message = d.message) :
    (List.map f <$> t).Accounts s := by
  intro d hd hmissing
  rw [Trace.asked_map]
  obtain ⟨before, hbefore, rfl⟩ := List.mem_map.1 hd
  rw [IsMissing, hf] at hmissing
  obtain ⟨name, hname, hmisses⟩ := h before hbefore hmissing
  exact ⟨name, hname, by rwa [Misses, hf]⟩

theorem Trace.Accounts.after {t : Trace (List Diagnostic)} (h : t.Accounts s)
    {before : List Diagnostic} (hbefore : ∀ d ∈ before, Differs missingWords d.message) :
    ((before ++ ·) <$> t).Accounts s := by
  intro d hd hmissing
  rw [Trace.asked_map]
  rcases List.mem_append.1 hd with hd | hd
  · exact absurd hmissing (hbefore d hd).1
  · exact h d hd hmissing

end

namespace Linter

variable (l : Linter)

theorem checkSiteBy_found (site : CallSite) :
    (l.checkSiteBy .traced site).found = l.checkSite site := by
  cases h : l.model.resolve? site.component l.settings.namespaceText with
  | none =>
    rw [l.checkSite_none h]
    simp only [checkSiteBy, Steps.traced, h]
    rfl
  | some c =>
    rw [l.checkSite_some h]
    simp only [checkSiteBy, Steps.traced, h]
    rfl

theorem checkSiteBy_accounts (site : CallSite) :
    (l.checkSiteBy .traced site).Accounts l.settings := by
  rw [Trace.Accounts, checkSiteBy_asked]
  intro d hd hmissing
  refine ⟨site.component, List.mem_singleton_self _, ?_⟩
  cases h : l.model.resolve? site.component l.settings.namespaceText with
  | none =>
    rw [l.checkSiteBy_found, l.checkSite_none h] at hd
    obtain rfl := List.mem_singleton.1 hd
    exact .inl rfl
  | some c =>
    rw [l.checkSiteBy_found, l.checkSite_some h] at hd
    exact absurd hmissing (checkComponent_differs _ _ _ d hd).1

theorem readAttribute_differs {s : Settings} {index : Nat} {a : Attribute} {d : Diagnostic}
    (h : readAttribute s index a = .unreadable d) : Differs missingWords d.message := by
  unfold readAttribute readAttributeBy at h
  split at h
  · cases h
  · split at h
    · cases h
    · simp only [Steps.plain, Id.run_bind] at h
      split at h
      · cases h
      · obtain rfl := AttributeReading.unreadable.inj h
        exact .append (.append (.append (.append (by decide) _) _) _) _

theorem complaintsOf_differs {s : Settings} {e : Element} :
    ∀ d ∈ complaintsOf (readAttributes s e), Differs missingWords d.message := by
  intro d hd
  obtain ⟨reading, hreading, hcomplaint⟩ := List.mem_filterMap.1 hd
  rw [readAttributes_eq] at hreading
  obtain ⟨index, hindex, rfl⟩ := List.mem_mapIdx.1 hreading
  cases h : readAttribute s index e.tag.attributes[index] with
  | unreadable found =>
    rw [h] at hcomplaint
    obtain rfl := Option.some.inj hcomplaint
    exact readAttribute_differs h
  | _ => simp [h] at hcomplaint

theorem checkRoleBy_accounts (e : Element) (role : Attribute) :
    (l.checkRoleBy .traced e role).Accounts l.settings := by
  rw [Trace.Accounts, checkRoleBy_asked]
  intro d hd hmissing
  refine ⟨role.value.elim "" (·.text), List.mem_singleton_self _, ?_⟩
  rw [show (l.checkRoleBy .traced e role).found = l.checkRole e role from
    l.checkRoleBy_results Steps.traced_agree e role] at hd
  cases h : l.model.resolve? (role.value.elim "" (·.text)) l.settings.namespaceText with
  | none =>
    rw [l.checkRole_none h] at hd
    obtain rfl := List.mem_singleton.1 hd
    exact .inr rfl
  | some c =>
    rw [l.checkRole_some h] at hd
    rcases List.mem_append.1 hd with hd | hd
    · exact absurd hmissing (complaintsOf_differs d hd).1
    · exact absurd hmissing (checkComponent_differs _ _ _ d hd).1

theorem checkScriptBy_accounts (text : String) :
    (l.checkScriptBy .traced text).Accounts l.settings := by
  simp only [checkScriptBy, Steps.traced, pure_bind]
  cases parseProgram text with
  | error e =>
    refine Trace.accounts_pure fun d hd => ?_
    obtain rfl := List.mem_singleton.1 hd
    exact cause_differs e.cause
  | ok p => exact .flatMapM fun site _ => l.checkSiteBy_accounts site

theorem checkSpotBy_accounts {traced : String → Trace (List Diagnostic)}
    (h : ∀ text, (traced text).Accounts l.settings) (spot : Spot) :
    (l.checkSpotBy .traced traced spot).Accounts l.settings := by
  cases spot with
  | role e role => exact l.checkRoleBy_accounts e role
  | embedded kind body span =>
    cases kind with
    | script =>
      rw [checkSpotBy, translate_traced]
      exact (l.checkScriptBy_accounts body).map fun _ => rfl
    | template =>
      rw [checkSpotBy, translate_traced]
      exact (h body).map fun _ => rfl

theorem checkPageBy_accounts {traced : String → Trace (List Diagnostic)}
    (h : ∀ text, (traced text).Accounts l.settings) (text : String) :
    (l.checkPageBy .traced traced text).Accounts l.settings := by
  rw [checkPageBy_traced]
  refine Trace.Accounts.after (.flatMapM fun spot _ => l.checkSpotBy_accounts h spot) fun d hd => ?_
  obtain ⟨problem, -, rfl⟩ := List.mem_map.1 hd
  exact fault_differs problem.fault

theorem checkDocumentBy_accounts (levels : Nat) (text : String) :
    (l.checkDocumentBy .traced levels text).Accounts l.settings := by
  induction levels generalizing text with
  | zero =>
    refine l.checkPageBy_accounts (fun _ => Trace.accounts_pure fun d hd => ?_) text
    obtain rfl := List.mem_singleton.1 hd
    exact .append (.append (by decide) _) _
  | succ levels ih => exact l.checkPageBy_accounts ih text

theorem lintScriptTrace_found (text filename : String) :
    (l.lintScriptTrace text filename).found = l.lintScript text filename :=
  l.lintScriptBy_results Steps.traced_agree text filename

theorem lintMarkupTrace_found (text filename : String) :
    (l.lintMarkupTrace text filename).found = l.lintMarkup text filename :=
  l.lintMarkupBy_results Steps.traced_agree text filename

theorem lintMarkupTrace_accounts (text filename : String) :
    (l.lintMarkupTrace text filename).Accounts l.settings :=
  (l.checkDocumentBy_accounts maxTemplateDepth text).map fun _ => rfl

theorem lintScriptTrace_accounts (text filename : String) :
    (l.lintScriptTrace text filename).Accounts l.settings :=
  (l.checkScriptBy_accounts text).map fun _ => rfl

theorem lintMarkupTrace_covered {text filename name : String}
    (h : name ∈ (l.lintMarkupTrace text filename).asked) (hname : name ≠ "") :
    (detect [] [text] l.settings).Covers name := by
  rw [lintMarkupTrace, lintMarkupBy, ← map_eq_pure_bind, Trace.asked_map] at h
  have hmentioned := l.checkDocumentBy_mentioned maxTemplateDepth text name h hname
  rw [detect_eq, List.flatMap_nil, List.nil_append, List.flatMap_singleton]
  exact Usage.ofMentions_covers hmentioned

theorem lintScriptTrace_covered {text filename name : String}
    (h : name ∈ (l.lintScriptTrace text filename).asked) :
    (detect [text] [] l.settings).Covers name := by
  rw [lintScriptTrace, lintScriptBy, ← map_eq_pure_bind, Trace.asked_map] at h
  have hmentioned := l.checkScriptBy_mentioned h
  rw [detect_eq, List.flatMap_nil, List.append_nil, List.flatMap_singleton]
  exact Usage.ofMentions_covers hmentioned

/-- **Detection covers what the linter resolves.** The linter that takes down the names it asks for
lints as the linter does. Every name it asks for in a page is detected in that page, unless it is
the empty name of a role without a value, and every name it asks for in a script is detected in that
script. So a missing component that is reported is a detected one, or has no name. -/
theorem lookups_covered (l : Linter) (text filename : String) :
    ((l.lintMarkupTrace text filename).found = l.lintMarkup text filename ∧
      (∀ name ∈ (l.lintMarkupTrace text filename).asked, name ≠ "" →
        (detect [] [text] l.settings).Covers name) ∧
      ∀ d ∈ l.lintMarkup text filename, IsMissing d →
        ∃ name, Misses l.settings name d ∧
          (name ≠ "" → (detect [] [text] l.settings).Covers name)) ∧
    (l.lintScriptTrace text filename).found = l.lintScript text filename ∧
      (∀ name ∈ (l.lintScriptTrace text filename).asked,
        (detect [text] [] l.settings).Covers name) ∧
      ∀ d ∈ l.lintScript text filename, IsMissing d →
        ∃ name, Misses l.settings name d ∧ (detect [text] [] l.settings).Covers name := by
  refine ⟨⟨l.lintMarkupTrace_found text filename, ?_, fun d hd hmissing => ?_⟩,
    l.lintScriptTrace_found text filename, ?_, fun d hd hmissing => ?_⟩
  · exact fun name => l.lintMarkupTrace_covered
  · rw [← lintMarkupTrace_found] at hd
    obtain ⟨name, hasked, hmisses⟩ := l.lintMarkupTrace_accounts text filename d hd hmissing
    exact ⟨name, hmisses, l.lintMarkupTrace_covered hasked⟩
  · exact fun name => l.lintScriptTrace_covered
  · rw [← lintScriptTrace_found] at hd
    obtain ⟨name, hasked, hmisses⟩ := l.lintScriptTrace_accounts text filename d hd hmissing
    exact ⟨name, hmisses, l.lintScriptTrace_covered hasked⟩

/-- A role, and a call in a template in a page: both names are asked for and detected. -/
theorem lookups_covered_template :
    let l : Linter := ⟨⟨[], List.nodup_nil⟩, {}⟩
    let page := "<b data-role=grid></b><script type=template><script>$.kendoMenu({})" ++
      "</script></script>"
    ("grid" ∈ (l.lintMarkupTrace page "a.html").asked ∧
      "grid" ≠ "" ∧ (detect [] [page] l.settings).Covers "grid") ∧
    "Menu" ∈ (l.lintScriptTrace "$.kendoMenu({})" "a.js").asked ∧
      (detect ["$.kendoMenu({})"] [] l.settings).Covers "Menu" := by
  intro l page
  obtain ⟨hrole, hcall⟩ : "grid" ∈ (l.lintMarkupTrace page "a.html").asked ∧
      "Menu" ∈ (l.lintScriptTrace "$.kendoMenu({})" "a.js").asked := by
    decide +kernel
  obtain ⟨⟨-, hpage, -⟩, -, hscript, -⟩ := l.lookups_covered page "a.html"
  obtain ⟨-, -, hscript, -⟩ := l.lookups_covered "$.kendoMenu({})" "a.js"
  exact ⟨⟨hrole, by decide, hpage "grid" hrole (by decide)⟩, hcall, hscript "Menu" hcall⟩

end Linter

end WidgetLint.Lint
