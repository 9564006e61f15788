import WidgetLint.Lint.CallSite
import WidgetLint.Lint.Steps

/-!
# Linting scripts and pages

Components are found in scripts by the calls that create them and in pages by the roles of
elements. Their configurations are checked against the documentation. What is found in an embedded
script or template is moved to the positions of the page around it.
-/

namespace WidgetLint.Lint

open Text Script Markup Schema Check

/-- The documentation and the settings to check against. -/
structure Linter where
  model : Model
  settings : Settings

/-- The attribute name `page-size` as the option name `pageSize`: a hyphen before a lower-case
letter is dropped and the letter capitalised. -/
def camelCase : List Char → List Char
  | '-' :: c :: rest =>
    if c.isLower then c.toUpper :: camelCase rest else '-' :: camelCase (c :: rest)
  | c :: rest => c :: camelCase rest
  | [] => []

namespace Linter

/-- What an attribute sets: nothing, an entry, or a value that cannot be read. -/
inductive AttributeReading where
  | skipped
  | entry (entry : Entry)
  | unreadable (diagnostic : Diagnostic)

def entriesOf (readings : List AttributeReading) : List Entry :=
  readings.filterMap fun
    | .entry e => some e
    | _ => none

def complaintsOf (readings : List AttributeReading) : List Diagnostic :=
  readings.filterMap fun
    | .unreadable d => some d
    | _ => none

def templateTooDeep : Diagnostic :=
  ⟨.warning, "Templates nested deeper than " ++ toString maxTemplateDepth ++
    " levels are not checked", some .first, none, none⟩

/-! ## Linting by given steps -/

section
variable {m : Type → Type} [Monad m] (steps : Steps m)

def checkSiteBy (l : Linter) (site : CallSite) : m (List Diagnostic) := do
  match ← steps.resolve? l.model l.settings site.component with
  | some c => return checkComponent l.model c (Entry.ofObject site.config)
  | none =>
    return [.spanning .error ("Could not find component: " ++ site.component) site.method.start
      (← steps.length site.method)]

/-- The diagnostics of a script, in its own positions and without a file. -/
def checkScriptBy (l : Linter) (text : String) : m (List Diagnostic) := do
  match ← steps.program text with
  | .error e => return [⟨.error, e.message, some e.position, none, none⟩]
  | .ok p => (callSites l.settings.methodPrefix p).flatMapM (l.checkSiteBy steps)

/-- What the attribute at an index sets. An attribute without a value sets `true`. -/
def readAttributeBy (s : Settings) (index : Nat) (a : Attribute) : m AttributeReading :=
  match afterWord? s.dataPrefix a.name with
  | none => return .skipped
  | some option =>
    if a.name == s.roleAttribute || a.name == s.bindAttribute then return .skipped
    else do
      let text := a.value.elim "true" (·.text)
      let origin := a.value.elim a.nameSpan.start (·.span.start)
      match ← steps.expression text origin with
      | .ok value =>
        return .entry ⟨String.ofList (camelCase option.toList), value, a.nameSpan.start,
          a.name.utf8ByteSize⟩
      | .error _ =>
        return .unreadable (.spanning .error ("Cannot parse expression " ++ text ++
          " (in attribute " ++ toString index ++ ")") origin text.utf8ByteSize)

def readAttributesBy (s : Settings) (e : Element) : m (List AttributeReading) :=
  (e.tag.attributes.mapIdx (readAttributeBy steps s)).mapM id

def checkRoleBy (l : Linter) (e : Element) (role : Attribute) : m (List Diagnostic) := do
  let name := role.value.elim "" (·.text)
  match ← steps.resolve? l.model l.settings name with
  | none =>
    return [.spanning .error ("Could not find component specified in " ++
      l.settings.roleAttribute ++ ": " ++ name) role.nameSpan.start name.utf8ByteSize]
  | some c =>
    let readings ← readAttributesBy steps l.settings e
    return complaintsOf readings ++ checkComponent l.model c (entriesOf readings)

/-- The diagnostics of a place of interest, given how a template is checked. -/
def checkSpotBy (l : Linter) (template : String → m (List Diagnostic)) :
    Spot → m (List Diagnostic)
  | .role e role => l.checkRoleBy steps e role
  | .embedded .script body span => do
    (← l.checkScriptBy steps body).mapM (steps.translate · span.start)
  | .embedded .template body span => do
    (← template body).mapM (steps.translate · span.start)

/-- The diagnostics of a page, given how a template in it is checked: first what is wrong with its
markup, then what is found in it. Styles are passed over. -/
def checkPageBy (l : Linter) (template : String → m (List Diagnostic)) (text : String) :
    m (List Diagnostic) := do
  let document ← steps.page l.settings text
  let found ← (spotsIn l.settings isStyle document.root.toNode).flatMapM
    (l.checkSpotBy steps template)
  return document.problems.map (fun p => ⟨.warning, p.message, some p.position, none, none⟩) ++
    found

/-- The diagnostics of a page in which templates may nest `levels` deep. -/
def checkDocumentBy (l : Linter) : (levels : Nat) → String → m (List Diagnostic)
  | 0, text => l.checkPageBy steps (fun _ => return [templateTooDeep]) text
  | levels + 1, text => l.checkPageBy steps (l.checkDocumentBy levels) text

def lintScriptBy (l : Linter) (text filename : String) : m (List Diagnostic) :=
  return (← l.checkScriptBy steps text).map (·.inFile filename)

/-- The diagnostics of a page, with those of its scripts and templates. -/
def lintMarkupBy (l : Linter) (text filename : String) : m (List Diagnostic) :=
  return (← l.checkDocumentBy steps maxTemplateDepth text).map (·.inFile filename)

end

/-! ## Linting -/

def checkSite (l : Linter) (site : CallSite) : List Diagnostic :=
  (l.checkSiteBy .plain site).run

@[inherit_doc checkScriptBy]
def checkScript (l : Linter) (text : String) : List Diagnostic :=
  (l.checkScriptBy .plain text).run

@[inherit_doc readAttributeBy]
def readAttribute (s : Settings) (index : Nat) (a : Attribute) : AttributeReading :=
  (readAttributeBy .plain s index a).run

def readAttributes (s : Settings) (e : Element) : List AttributeReading :=
  (readAttributesBy .plain s e).run

def checkRole (l : Linter) (e : Element) (role : Attribute) : List Diagnostic :=
  (l.checkRoleBy .plain e role).run

@[inherit_doc checkSpotBy]
def checkSpot (l : Linter) (template : String → List Diagnostic) (spot : Spot) :
    List Diagnostic :=
  (l.checkSpotBy .plain (fun body => pure (template body)) spot).run

@[inherit_doc checkPageBy]
def checkPage (l : Linter) (template : String → List Diagnostic) (text : String) :
    List Diagnostic :=
  (l.checkPageBy .plain (fun body => pure (template body)) text).run

@[inherit_doc checkDocumentBy]
def checkDocument (l : Linter) (levels : Nat) (text : String) : List Diagnostic :=
  (l.checkDocumentBy .plain levels text).run

def lintScript (l : Linter) (text filename : String) : List Diagnostic :=
  (l.lintScriptBy .plain text filename).run

@[inherit_doc lintMarkupBy]
def lintMarkup (l : Linter) (text filename : String) : List Diagnostic :=
  (l.lintMarkupBy .plain text filename).run

/-! ## What linting gives -/

section
variable (l : Linter) (s : Settings)

theorem checkSite_some {site : CallSite} {c : Component}
    (h : l.model.resolve? site.component l.settings.namespaceText = some c) :
    l.checkSite site = checkComponent l.model c (Entry.ofObject site.config) := by
  simp only [checkSite, checkSiteBy, Steps.plain, Id.run, h]
  rfl

theorem checkSite_none {site : CallSite}
    (h : l.model.resolve? site.component l.settings.namespaceText = none) :
    l.checkSite site = [.spanning .error ("Could not find component: " ++ site.component)
      site.method.start site.method.length] := by
  simp only [checkSite, checkSiteBy, Steps.plain, Id.run, h]
  rfl

theorem checkScript_error {text : String} {e : ScriptError} (h : parseProgram text = .error e) :
    l.checkScript text = [⟨.error, e.message, some e.position, none, none⟩] := by
  simp only [checkScript, checkScriptBy, Steps.plain, Id.run, h]
  rfl

theorem checkScript_ok {text : String} {p : Program} (h : parseProgram text = .ok p) :
    l.checkScript text = (callSites l.settings.methodPrefix p).flatMap l.checkSite := by
  simp only [checkScript, checkScriptBy, Steps.plain, Id.run, h]
  exact run_flatMapM _ _

theorem checkRole_some {e : Element} {role : Attribute} {c : Component}
    (h : l.model.resolve? (role.value.elim "" (·.text)) l.settings.namespaceText = some c) :
    l.checkRole e role = complaintsOf (readAttributes l.settings e) ++
      checkComponent l.model c (entriesOf (readAttributes l.settings e)) := by
  simp only [checkRole, checkRoleBy, Steps.plain, Id.run, h]
  rfl

theorem checkRole_none {e : Element} {role : Attribute}
    (h : l.model.resolve? (role.value.elim "" (·.text)) l.settings.namespaceText = none) :
    l.checkRole e role = [.spanning .error ("Could not find component specified in " ++
      l.settings.roleAttribute ++ ": " ++ role.value.elim "" (·.text)) role.nameSpan.start
      (role.value.elim "" (·.text)).utf8ByteSize] := by
  simp only [checkRole, checkRoleBy, Steps.plain, Id.run, h]
  rfl

theorem readAttributes_eq (e : Element) :
    readAttributes s e = e.tag.attributes.mapIdx (readAttribute s) := by
  rw [readAttributes, readAttributesBy, List.idRun_mapM]
  exact List.map_id _

theorem checkSpot_role (template : String → List Diagnostic) (e : Element) (role : Attribute) :
    l.checkSpot template (.role e role) = l.checkRole e role :=
  rfl

theorem checkSpot_script (template : String → List Diagnostic) (body : String) (span : Span) :
    l.checkSpot template (.embedded .script body span) =
      (l.checkScript body).map (·.translate span.start) :=
  List.idRun_mapM

theorem checkSpot_template (template : String → List Diagnostic) (body : String) (span : Span) :
    l.checkSpot template (.embedded .template body span) =
      (template body).map (·.translate span.start) :=
  List.idRun_mapM

theorem checkPage_eq (template : String → List Diagnostic) (text : String) :
    l.checkPage template text =
      (readPage l.settings text).problems.map
        (fun p => ⟨.warning, p.message, some p.position, none, none⟩) ++
      (spotsIn l.settings isStyle (readPage l.settings text).root.toNode).flatMap
        (l.checkSpot template) := by
  simp only [checkPage, checkPageBy, Id.run_bind, Id.run_pure, run_flatMapM]
  rfl

theorem checkDocument_succ (levels : Nat) (text : String) :
    l.checkDocument (levels + 1) text = l.checkPage (l.checkDocument levels) text :=
  rfl

theorem lintScript_map (text filename : String) :
    l.lintScript text filename = (l.checkScript text).map (·.inFile filename) :=
  rfl

theorem lintMarkup_map (text filename : String) :
    l.lintMarkup text filename = (l.checkDocument maxTemplateDepth text).map (·.inFile filename) :=
  rfl

end

end Linter

end WidgetLint.Lint
