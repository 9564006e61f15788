import WidgetLint.Proofs.Check.Findings
import WidgetLint.Proofs.Inset.Config
import WidgetLint.Proofs.Lint.AttributeNames
import WidgetLint.Proofs.Lint.Calls
import WidgetLint.Proofs.Lint.Embedding
import WidgetLint.Proofs.Markup.RoundTrip

/-!
# Elements configured by their attributes

A page that is one childless element, with a role and an attribute for each option, is checked as a
configuration of the component with these options (`checkPage_element`). An option stands
in the name of its attribute with hyphens for capital letters, and `camelCase` takes that back.
-/

namespace WidgetLint.Markup

open Text

theorem parse_childless {tag : Tag} (h : tag.Sound) (hself : tag.selfClosing = false)
    (hvoid : isVoid tag.name = false) (hraw : isRaw tag.name = false) {source : String}
    (hsource : source = tag.writeOpening ++ "></" ++ tag.name ++ ">") :
    (parse {} source).problems = [] ∧ ∃ found span, found.bare = tag.bare ∧
      (parse {} source).root = ⟨Tag.named rootName span, [.element found []]⟩ := by
  have hseparable : Separable true [.opening tag, .closing tag.name] :=
    .piece (.opening h hself hvoid hraw) (.piece (.closing h.name) .nil)
  have hwritten : source.toList = writePieces [.opening tag, .closing tag.name] := by
    simp [hsource, writePieces, PieceKind.write]
  have hlength : (writePieces [.opening tag, .closing tag.name]).length ≤ source.length := by
    rw [← hwritten, String.length_toList]
  obtain ⟨hkinds, hclean⟩ := piecesFrom_separable hseparable hlength .first
  have hpieces : pieces true source = piecesFrom true source.length .first []
      ⟨writePieces [.opening tag, .closing tag.name], .first⟩ := by
    rw [pieces, Cursor.ofString, hwritten]
  rw [← hpieces] at hkinds hclean
  obtain ⟨opened, rest, hcut, hopened, hrest⟩ := List.map_eq_cons_iff.1 hkinds
  obtain ⟨closed, rest, rfl, hclosed, hrest⟩ := List.map_eq_cons_iff.1 hrest
  obtain rfl := List.map_eq_nil_iff.1 hrest
  obtain ⟨hopenedClean, hclosedClean⟩ : opened.problems = [] ∧ closed.problems = [] := by
    simpa [hcut] using hclean
  obtain ⟨found, hfound, hbare⟩ := PieceKind.opening_of_bare hopened
  have hclosing := PieceKind.closing_of_bare hclosed
  have hsame : found.bare.name = tag.bare.name := congrArg Tag.name hbare
  have hname : Builder.namesMatch true found.name tag.name = true :=
    sameIgnoringCase_iff.2 (congrArg (fun name => foldAscii name.toList) hsame)
  let inside : Builder := ⟨⟨found, []⟩, [Builder.empty.top], 0, []⟩
  have hopen : Builder.step true .empty opened = inside :=
    Builder.step_opening hopenedClean hfound (by decide)
  have hclose : Builder.step true inside closed =
      inside.closed Builder.empty.top [] closed.span.stop :=
    Builder.step_closing rfl hclosedClean hclosing rfl hname
  have hbuilt : (pieces true source).foldl (Builder.step true) .empty =
      inside.closed Builder.empty.top [] closed.span.stop := by
    rw [hcut, List.foldl_cons, List.foldl_cons, List.foldl_nil, hopen, hclose]
  unfold parse
  simp only [Options.prepare, Bool.false_eq_true, if_false, hbuilt]
  exact ⟨rfl, { found with span := ⟨found.span.start, closed.span.stop⟩ }, _, hbare, rfl⟩

end WidgetLint.Markup

namespace WidgetLint.Lint

open Text Script Markup Schema Check

/-! ## Names of options in attributes -/

theorem isNameChar_of_isAlphanum {c : Char} (h : c.isAlphanum = true) : isNameChar c = true := by
  have hranges : (65 ≤ c.toNat ∧ c.toNat ≤ 90 ∨ 97 ≤ c.toNat ∧ c.toNat ≤ 122) ∨
      48 ≤ c.toNat ∧ c.toNat ≤ 57 := by
    rcases Bool.or_eq_true_iff.1 h with halpha | hdigit
    · rcases Bool.or_eq_true_iff.1 halpha with hupper | hlower
      · exact .inl (.inl (of_decide_eq_true hupper))
      · obtain ⟨hlow, hhigh⟩ := Bool.and_eq_true_iff.1 hlower
        exact .inl (.inr ⟨(of_decide_eq_true hlow :), (of_decide_eq_true hhigh :)⟩)
    · obtain ⟨hlow, hhigh⟩ := Bool.and_eq_true_iff.1 hdigit
      exact .inr ⟨(of_decide_eq_true hlow :), (of_decide_eq_true hhigh :)⟩
  simp only [isNameChar, isNameStart, inRanges, nameStartRanges, nameRestRanges, List.any_cons,
    List.any_nil, Bool.or_eq_true, Bool.and_eq_true, decide_eq_true_eq]
  omega

theorem isNameChar_kebabCase {name : List Char} (h : ∀ c ∈ name, c.isAlphanum = true) :
    ∀ c ∈ kebabCase name, isNameChar c = true := by
  induction name with
  | nil => simp [kebabCase]
  | cons c rest ih =>
    rw [List.forall_mem_cons] at h
    rw [kebabCase]
    split
    · rename_i hupper
      have hlower : c.toLower.isAlphanum = true := by
        have halpha : c.toLower.isAlpha = true :=
          Bool.or_eq_true_iff.2 (.inr (toUpper_toLower hupper).1)
        simp [Char.isAlphanum, halpha]
      have hyphen : isNameChar '-' = true := by decide
      exact List.forall_mem_cons.2 ⟨hyphen, List.forall_mem_cons.2
        ⟨isNameChar_of_isAlphanum hlower, ih h.2⟩⟩
    · exact List.forall_mem_cons.2 ⟨isNameChar_of_isAlphanum h.1, ih h.2⟩

/-! ## The element -/

def attributeName (option : String) : String :=
  "data-" ++ String.ofList (kebabCase option.toList)

/-- An attribute with a value in double quotes, after a blank. -/
def attributeText (name value : String) : String :=
  " " ++ name ++ "=\"" ++ value ++ "\""

/-- An element with a role, and an attribute for each of the given options. -/
def elementText (component : String) (os : List WrittenOption) : String :=
  "<div" ++ attributeText "data-role" component ++
    String.join (os.map fun o => attributeText (attributeName o.name) o.value) ++ "></div>"

/-- An attribute with a value in double quotes, without places. -/
def quotedAttribute (name text : String) : Attribute :=
  ⟨name, nowhere, some ⟨text, some '"', nowhere⟩⟩

def elementTag (component : String) (os : List WrittenOption) : Tag :=
  ⟨"div", quotedAttribute "data-role" component ::
    os.map fun o => quotedAttribute (attributeName o.name) o.value, false, false, nowhere⟩

/-- The value of an option can stand in an attribute, and its name is no name of an attribute with a
meaning of its own. -/
structure Embeds (o : WrittenOption) : Prop where
  quote : '"' ∉ o.value.toList
  angle : '<' ∉ o.value.toList
  role : o.name ≠ "role"
  bind : o.name ≠ "bind"

theorem isAlphanum_of_isOptionName {name : String} (h : isOptionName name = true) :
    ∀ c ∈ name.toList, c.isAlphanum = true := by
  unfold isOptionName at h
  cases hname : name.toList with
  | nil => simp
  | cons c rest =>
    simp only [hname, Bool.and_eq_true, List.all_eq_true] at h
    have halpha : c.isAlpha = true := Bool.or_eq_true_iff.2 (.inr h.1)
    exact List.forall_mem_cons.2 ⟨by simp [Char.isAlphanum, halpha], h.2⟩

theorem camelCase_attributeName {name : String} (h : isOptionName name = true) :
    String.ofList (camelCase (kebabCase name.toList)) = name := by
  have hyphen : '-' ∉ name.toList := fun hmem =>
    absurd (isAlphanum_of_isOptionName h '-' hmem) (by decide)
  rw [camelCase_kebabCase (isFolded_of_not_mem hyphen), String.ofList_toList]

theorem attributeName_ne {name other : String} (h : isOptionName name = true)
    (hother : camelCase other.toList = other.toList) (hne : name ≠ other) :
    attributeName name ≠ "data-" ++ other := by
  intro hsame
  apply hne
  have hkebab : kebabCase name.toList = other.toList := by
    simpa [attributeName] using congrArg String.toList hsame
  rw [← camelCase_attributeName h, hkebab, hother, String.ofList_toList]

theorem isName_attributeName {name : String} (h : isOptionName name = true) :
    IsName (attributeName name).toList = true := by
  have hrest := isNameChar_kebabCase (isAlphanum_of_isOptionName h)
  have hlead : "ata-".toList.all isNameChar = true := by decide
  have hstart : isNameStart 'd' = true := by decide
  have hchars : (attributeName name).toList = 'd' :: ("ata-".toList ++ kebabCase name.toList) := by
    simp [attributeName]
  rw [hchars, IsName, hstart, Bool.true_and, List.all_eq_true]
  exact List.forall_mem_append.2 ⟨List.all_eq_true.1 hlead, hrest⟩

theorem writtenQuote_double {text : String} (h : '"' ∉ text.toList) :
    AttributeValue.writtenQuote ⟨text, some '"', nowhere⟩ = '"' := by
  simp [AttributeValue.writtenQuote, h]

theorem quotedAttribute_sound {name text : String} (hname : IsName name.toList = true)
    (hfirst : ∀ c ∈ name.toList.head?, isBlank c = false) (hquote : '"' ∉ text.toList)
    (hangle : '<' ∉ text.toList) : (quotedAttribute name text).Sound := by
  refine ⟨hname, hfirst, ?_⟩
  rintro v ⟨⟩
  have hwritten := writtenQuote_double hquote
  exact ⟨hangle, .inl hwritten, by rw [hwritten]; exact hquote⟩

theorem elementTag_sound {component : String} {os : List WrittenOption}
    (hcomponent : ∀ c ∈ component.toList, c.isAlphanum = true) (hos : ∀ o ∈ os, Embeds o) :
    (elementTag component os).Sound := by
  have hrole : (quotedAttribute "data-role" component).Sound := by
    have hname : IsName "data-role".toList = true := by decide
    have hfirst : isBlank 'd' = false := by decide
    refine quotedAttribute_sound hname (by rintro c ⟨⟩; exact hfirst) ?_ ?_
    · exact fun hmem => absurd (hcomponent '"' hmem) (by decide)
    · exact fun hmem => absurd (hcomponent '<' hmem) (by decide)
  have hname : IsName "div".toList = true := by decide
  refine ⟨hname, List.forall_mem_cons.2 ⟨hrole, List.forall_mem_map.2 fun o ho => ?_⟩, rfl⟩
  refine quotedAttribute_sound (isName_attributeName o.isName) ?_ (hos o ho).quote (hos o ho).angle
  rintro c hc
  obtain rfl : 'd' = c := by simpa [attributeName] using hc
  decide

theorem toList_attributeText {name value : String} (h : '"' ∉ value.toList) :
    (attributeText name value).toList = ' ' :: (quotedAttribute name value).write.toList := by
  simp [attributeText, quotedAttribute, Attribute.write, writtenQuote_double h]

theorem elementText_eq {component : String} {os : List WrittenOption}
    (hcomponent : '"' ∉ component.toList) (hos : ∀ o ∈ os, Embeds o) :
    elementText component os = (elementTag component os).writeOpening ++ "></" ++ "div" ++ ">" := by
  have hoptions : (os.flatMap fun o => (attributeText (attributeName o.name) o.value).toList) =
      attributesText (os.map fun o => quotedAttribute (attributeName o.name) o.value) := by
    rw [attributesText, List.flatMap_map]
    exact List.flatMap_congr fun o ho => toList_attributeText (hos o ho).quote
  have hopening : (elementTag component os).writeOpening.toList =
      "<div".toList ++ ((attributeText "data-role" component).toList ++
        os.flatMap fun o => (attributeText (attributeName o.name) o.value).toList) := by
    have hdiv : "<div".toList = '<' :: "div".toList := rfl
    rw [toList_writeOpening, elementTag, attributesText, List.flatMap_cons, ← attributesText,
      hoptions, toList_attributeText hcomponent, hdiv]
    rfl
  apply String.toList_injective
  simp only [String.toList_append, hopening]
  simp [elementText, List.flatMap_map]

/-! ## What the attributes set -/

theorem eq_of_bare {a : Attribute} {name text : String}
    (h : a.bare = (quotedAttribute name text).bare) :
    ∃ nameSpan quote span, a = ⟨name, nameSpan, some ⟨text, quote, span⟩⟩ := by
  obtain ⟨found, nameSpan, value⟩ := a
  cases value with
  | none => cases h
  | some v =>
    obtain ⟨foundText, quote, span⟩ := v
    obtain ⟨rfl, -, hvalue⟩ := Attribute.mk.inj h
    obtain ⟨rfl, -, -⟩ := AttributeValue.mk.inj (Option.some.inj hvalue)
    exact ⟨nameSpan, quote, span, rfl⟩

theorem parseExpressionAt_value (o : WrittenOption) (origin : Position) :
    ∃ value, parseExpressionAt o.value origin = .ok value ∧
      value.move (fun _ => .first) = o.tree.move fun _ => .first := by
  have hsame := parseExpressionAt_sameMeaning o.value origin
  rw [o.parses] at hsame
  match hread : parseExpressionAt o.value origin with
  | .ok value =>
    rw [hread] at hsame
    exact ⟨value, rfl, hsame.1⟩
  | .error e =>
    rw [hread] at hsame
    exact hsame.elim

theorem readAttribute_option {o : WrittenOption} (h : Embeds o) (index : Nat) {a : Attribute}
    (ha : a.bare = (quotedAttribute (attributeName o.name) o.value).bare) :
    ∃ entry, Linter.readAttribute {} index a = .entry entry ∧
      entry.bare = (o.name, o.tree.move fun _ => .first) := by
  obtain ⟨nameSpan, quote, span, rfl⟩ := eq_of_bare ha
  have hafter : afterWord? "data-" (attributeName o.name) =
      some (String.ofList (kebabCase o.name.toList)) := afterWord?_append _ _
  have hrole : attributeName o.name ≠ "data-role" := attributeName_ne o.isName (by decide) h.role
  have hbind : attributeName o.name ≠ "data-bind" := attributeName_ne o.isName (by decide) h.bind
  obtain ⟨value, hread, hvalue⟩ := parseExpressionAt_value o span.start
  have hkey : String.ofList (camelCase (String.ofList (kebabCase o.name.toList)).toList) = o.name := by
    rw [String.toList_ofList, camelCase_attributeName o.isName]
  refine ⟨⟨o.name, value, nameSpan.start, (attributeName o.name).utf8ByteSize⟩, ?_, ?_⟩
  · unfold Linter.readAttribute Linter.readAttributeBy
    simp only [hafter, Option.elim_some, Steps.plain, Id.run, hread, hkey]
    rw [if_neg (by simp [hrole, hbind])]
    rfl
  · rw [Entry.bare, hvalue]

theorem readAttribute_options {os : List WrittenOption} (h : ∀ o ∈ os, Embeds o)
    {attributes : List Attribute} (hattributes : attributes.map Attribute.bare =
      os.map fun o => (quotedAttribute (attributeName o.name) o.value).bare) (k : Nat) :
    ∃ entries : List Entry, attributes.mapIdx (fun i => Linter.readAttribute {} (i + k)) =
        entries.map Linter.AttributeReading.entry ∧
      entries.map Entry.bare = os.map fun o => (o.name, o.tree.move fun _ => .first) := by
  induction os generalizing attributes k with
  | nil =>
    obtain rfl := List.map_eq_nil_iff.1 hattributes
    exact ⟨[], rfl, rfl⟩
  | cons o os ih =>
    obtain ⟨a, rest, rfl, ha, hrest⟩ := List.map_eq_cons_iff.1 hattributes
    obtain ⟨ho, hos⟩ := List.forall_mem_cons.1 h
    obtain ⟨entry, hentry, hbare⟩ := readAttribute_option ho (0 + k) ha
    obtain ⟨entries, hentries, hbares⟩ := ih hos hrest (k + 1)
    have hshift (i : Nat) : i + 1 + k = i + (k + 1) := by omega
    refine ⟨entry :: entries, ?_, ?_⟩
    · simp only [List.mapIdx_cons, hentry, hshift, hentries, List.map_cons]
    · rw [List.map_cons, hbare, hbares, List.map_cons]

/-! ## The check of the element -/

theorem entriesOf_entries (entries : List Entry) :
    Linter.entriesOf (.skipped :: entries.map .entry) = entries := by
  rw [Linter.entriesOf, List.filterMap_cons, List.filterMap_map]
  exact List.filterMap_some

theorem complaintsOf_entries (entries : List Entry) :
    Linter.complaintsOf (.skipped :: entries.map .entry) = [] := by
  simp [Linter.complaintsOf, List.filterMap_map]

section
variable {component : String} {os : List WrittenOption}

theorem attributes_of_bare {found : Tag} (hfound : found.bare = (elementTag component os).bare) :
    ∃ nameSpan quote span rest,
      found.attributes = ⟨"data-role", nameSpan, some ⟨component, quote, span⟩⟩ :: rest ∧
        rest.map Attribute.bare =
          os.map fun o => (quotedAttribute (attributeName o.name) o.value).bare := by
  have hattributes : found.attributes.map Attribute.bare =
      (elementTag component os).attributes.map Attribute.bare := (Tag.mk.inj hfound).2.1
  rw [elementTag, List.map_cons, List.map_map] at hattributes
  obtain ⟨role, rest, hcons, hrole, hrest⟩ := List.map_eq_cons_iff.1 hattributes
  obtain ⟨nameSpan, quote, span, rfl⟩ := eq_of_bare hrole
  exact ⟨nameSpan, quote, span, rest, hcons, hrest⟩

theorem readAttributes_element (h : ∀ o ∈ os, Embeds o) {found : Tag}
    (hfound : found.bare = (elementTag component os).bare) :
    ∃ entries : List Entry,
      Linter.readAttributes {} ⟨found, []⟩ = .skipped :: entries.map .entry ∧
        entries.map Entry.bare = os.map fun o => (o.name, o.tree.move fun _ => .first) := by
  obtain ⟨nameSpan, quote, span, rest, hcons, hrest⟩ := attributes_of_bare hfound
  obtain ⟨entries, hentries, hbare⟩ := readAttribute_options h hrest 1
  refine ⟨entries, ?_, hbare⟩
  have hrole : Linter.readAttribute {} 0 ⟨"data-role", nameSpan, some ⟨component, quote, span⟩⟩ =
      .skipped := by
    have hafter : afterWord? "data-" "data-role" = some "role" := by decide
    unfold Linter.readAttribute Linter.readAttributeBy
    rw [hafter]
    rfl
  rw [Linter.readAttributes_eq, hcons, List.mapIdx_cons, hrole, hentries]

theorem spotsIn_element {found : Tag} (hfound : found.bare = (elementTag component os).bare) :
    ∃ nameSpan quote span, spotsIn {} isStyle (.element found []) =
      [.role ⟨found, []⟩ ⟨"data-role", nameSpan, some ⟨component, quote, span⟩⟩] := by
  obtain ⟨nameSpan, quote, span, rest, hcons, -⟩ := attributes_of_bare hfound
  have hname : found.name = "div" := (Tag.mk.inj hfound).1
  have hstyle : isStyle "div" = false := by decide
  have hscript : isScript "div" = false := by decide
  refine ⟨nameSpan, quote, span, ?_⟩
  simp [spotsIn, spotsInAll, readElement, hname, hstyle, hscript, Element.attribute?, hcons]

/-- **An element is checked as the configuration that its attributes spell.** -/
theorem checkPage_element {model : Model} {c : Component}
    (hcomponent : ∀ c ∈ component.toList, c.isAlphanum = true)
    (hresolves : model.resolve? component "kendo.ui." = some c) (hos : ∀ o ∈ os, Embeds o)
    (template : String → List Diagnostic) :
    ∃ entries : List Entry,
      entries.map Entry.bare = os.map (fun o => (o.name, o.tree.move fun _ => .first)) ∧
        Linter.checkPage ⟨model, {}⟩ template (elementText component os) =
          checkComponent model c entries := by
  have hquote : '"' ∉ component.toList := fun hmem => absurd (hcomponent '"' hmem) (by decide)
  have hvoid : isVoid "div" = false := by decide
  have hraw : isRaw "div" = false := by decide
  obtain ⟨hproblems, found, span, hfound, hroot⟩ := parse_childless
    (elementTag_sound hcomponent hos) rfl hvoid hraw (elementText_eq hquote hos)
  obtain ⟨entries, hreadings, hentries⟩ := readAttributes_element hos hfound
  obtain ⟨nameSpan, quote, valueSpan, hspots⟩ := spotsIn_element hfound
  have hrole : Linter.checkRole ⟨model, {}⟩ ⟨found, []⟩
      ⟨"data-role", nameSpan, some ⟨component, quote, valueSpan⟩⟩ =
        checkComponent model c entries := by
    rw [Linter.checkRole_some _ hresolves, hreadings, complaintsOf_entries, entriesOf_entries,
      List.nil_append]
  refine ⟨entries, hentries, ?_⟩
  rw [Linter.checkPage_eq]
  unfold readPage
  simp only [hproblems, hroot, spotsIn_root, spotsInAll, List.append_nil, hspots, List.map_nil,
    List.nil_append, List.flatMap_singleton, Linter.checkSpot_role, hrole]

end

end WidgetLint.Lint
