import WidgetLint.Proofs.Lint.Calls
import WidgetLint.Proofs.Lint.RoleElement

/-!
# Scripts and pages agree

A component can be configured by a call in a script, or by an element of a page with an attribute for
each option. **Both say the same about the same configuration** (`script_and_element_agree`): the
same messages with the same severities, in the same order.
-/

namespace WidgetLint.Lint

open Text Script Markup Schema Check

variable {component : String} {os : List WrittenOption}

theorem isWordText_methodName (h : ∀ c ∈ component.toList, c.isAlphanum = true) :
    isWordText (methodName component) = true := by
  have hchars : (methodName component).toList = 'k' :: ("endo".toList ++ component.toList) := by
    simp [methodName]
  have hstart : isWordStart 'k' = true := by simp [isWordStart_ascii]
  have hlead : "endo".toList.all isWordPart = true := by simp [isWordPart_ascii]
  rw [isWordText, hchars]
  dsimp only
  rw [hstart, Bool.true_and, List.all_eq_true]
  exact List.forall_mem_append.2 ⟨List.all_eq_true.1 hlead,
    fun c hc => isWordPart_of_isAlphanum (h c hc)⟩

theorem callSites_callText (hcomponent : ∀ c ∈ component.toList, c.isAlphanum = true)
    (hname : component ≠ "") (hos : ∀ o ∈ os, CreatesNone "kendo" o.tree) {p : Program}
    (hparse : parseProgram (callText component os) = .ok p) :
    ∃ site, callSites "kendo" p = [site] ∧ site.component = component ∧
      (Entry.ofObject site.config).map Entry.bare =
        os.map fun o => (o.name, o.tree.move fun _ => .first) := by
  have hbody := parseProgram_callText (isWordText_methodName hcomponent) hparse
  have hsites := callSites_move "kendo" hbody p.span
  rw [callSites_configScript hname hos] at hsites
  obtain ⟨site, rest, hcons, hsite, hrest⟩ := List.map_eq_cons_iff.1 hsites
  obtain rfl := List.map_eq_nil_iff.1 hrest
  obtain ⟨hsame, -, hconfig⟩ := CallSite.mk.inj hsite
  refine ⟨site, hcons, hsame, ?_⟩
  have hmember (o : WrittenOption) : Entry.ofMember? o.member =
      some ⟨o.name, o.tree.move fun _ => .first, .first, o.name.utf8ByteSize⟩ := rfl
  rw [← ofObject_bare, hconfig, configObject, Entry.ofObject, List.filterMap_map]
  simp only [Function.comp_def, hmember, List.filterMap_eq_map', List.map_map]

/-- **Scripts and pages agree.** A component that is configured by a call in a script or by the
attributes of an element is checked alike: the messages and their severities are the same, in the
same order. The values may not create components themselves, since a page is not searched for calls
in attributes; and the script has to be read at all, since its values stand one level deeper. -/
theorem script_and_element_agree (model : Model) (component : String) (os : List WrittenOption)
    (hname : component ≠ "") (hcomponent : ∀ c ∈ component.toList, c.isAlphanum = true)
    (hresolves : (model.resolve? component ({} : Settings).namespaceText).isSome = true)
    (hembeds : ∀ o ∈ os, Embeds o) (hcreates : ∀ o ∈ os, CreatesNone "kendo" o.tree)
    (hparses : (parseProgram (callText component os)).isOk = true) (scriptName pageName : String) :
    findings (Linter.lintScript ⟨model, {}⟩ (callText component os) scriptName) =
      findings (Linter.lintMarkup ⟨model, {}⟩ (elementText component os) pageName) := by
  obtain ⟨c, hc⟩ := Option.isSome_iff_exists.1 hresolves
  obtain ⟨p, hp⟩ : ∃ p, parseProgram (callText component os) = .ok p := by
    match hread : parseProgram (callText component os) with
    | .ok p => exact ⟨p, rfl⟩
    | .error e =>
      rw [hread] at hparses
      cases hparses
  obtain ⟨site, hsites, hsite, hentries⟩ := callSites_callText hcomponent hname hcreates hp
  obtain ⟨entries, hattributes, hpage⟩ :=
    checkPage_element hcomponent hc hembeds (Linter.checkDocument ⟨model, {}⟩ 3)
  have hscript : Linter.checkScript ⟨model, {}⟩ (callText component os) =
      checkComponent model c (Entry.ofObject site.config) := by
    rw [Linter.checkScript_ok _ hp, hsites, List.flatMap_singleton]
    exact Linter.checkSite_some _ (by rw [hsite]; exact hc)
  have hdocument : Linter.checkDocument ⟨model, {}⟩ maxTemplateDepth (elementText component os) =
      checkComponent model c entries := hpage
  rw [Linter.lintScript_map, Linter.lintMarkup_map, findings_inFile, findings_inFile, hscript, hdocument]
  exact findings_checkEntries (hentries.trans hattributes.symm)

theorem parseExpression_rows_oneItem : (match parseExpression "20 // rows" with
    | .ok (.number ..) => true
    | _ => false) = true ∧
    (match parseExpression "[ y ]" with
    | .ok (.array _ [some (.ident _ name)]) => decide (name = "y")
    | _ => false) = true := by decide +kernel

/-- A value that ends in a comment and is the default, and an option that is not documented. -/
theorem script_and_element_agree_comment :
    ∃ (model : Model) (os : List WrittenOption),
      callText "Grid" os = "x.kendoGrid(\x7bpageSize:\n20 // rows\n,rowHeight:\n[ y ]\n\x7d)" ∧
      elementText "Grid" os =
        "<div data-role=\"Grid\" data-page-size=\"20 // rows\" data-row-height=\"[ y ]\"></div>" ∧
      (model.resolve? "Grid" ({} : Settings).namespaceText).isSome = true ∧
      (∀ o ∈ os, Embeds o) ∧ (∀ o ∈ os, CreatesNone "kendo" o.tree) ∧
      (parseProgram (callText "Grid" os)).isOk = true ∧
      findings (Linter.lintScript ⟨model, {}⟩ (callText "Grid" os) "grid.js") =
        [("Passed value for option pageSize is the same as default value: 20", .warning),
          ("Option rowHeight not found", .error)] ∧
      findings (Linter.lintScript ⟨model, {}⟩ (callText "Grid" os) "grid.js") =
        findings (Linter.lintMarkup ⟨model, {}⟩ (elementText "Grid" os) "grid.html") := by
  obtain ⟨s, n, hsize⟩ : ∃ s n, parseExpression "20 // rows" = .ok (.number s n) := by
    have hshape := parseExpression_rows_oneItem.1
    split at hshape
    · rename_i hread
      exact ⟨_, _, hread⟩
    · cases hshape
  obtain ⟨t, u, hheight⟩ : ∃ t u, parseExpression "[ y ]" = .ok (.array t [some (.ident u "y")]) := by
    have hshape := parseExpression_rows_oneItem.2
    split at hshape
    · rename_i hread
      cases of_decide_eq_true hshape
      exact ⟨_, _, hread⟩
    · cases hshape
  let model : Model := ⟨[⟨"kendo.ui.Grid", "Grid", [⟨"pageSize", none, [.number], some "20", []⟩],
    [], [], []⟩], by decide⟩
  let size : WrittenOption := ⟨"pageSize", "20 // rows", .number s n, by decide, hsize, rfl⟩
  let height : WrittenOption :=
    ⟨"rowHeight", "[ y ]", .array t [some (.ident u "y")], by decide, hheight, rfl⟩
  have hcomponent : ∀ c ∈ "Grid".toList, c.isAlphanum = true :=
    List.all_eq_true.1 (by decide)
  have hcall : callText "Grid" [size, height] =
      "x.kendoGrid(\x7bpageSize:\n20 // rows\n,rowHeight:\n[ y ]\n\x7d)" := by
    show "x." ++ methodName "Grid" ++ "(\x7b" ++ String.intercalate ","
      ["pageSize" ++ ":\n" ++ "20 // rows" ++ "\n", "rowHeight" ++ ":\n" ++ "[ y ]" ++ "\n"] ++
        "\x7d)" = _
    decide +kernel
  have helement : elementText "Grid" [size, height] =
      "<div data-role=\"Grid\" data-page-size=\"20 // rows\" data-row-height=\"[ y ]\"></div>" := by
    show "<div" ++ attributeText "data-role" "Grid" ++ String.join
      [attributeText (attributeName "pageSize") "20 // rows",
        attributeText (attributeName "rowHeight") "[ y ]"] ++ "></div>" = _
    decide +kernel
  have hresolves : (model.resolve? "Grid" ({} : Settings).namespaceText).isSome = true := by
    decide +kernel
  have hembeds : ∀ o ∈ [size, height], Embeds o := by
    simp only [List.forall_mem_cons]
    refine ⟨⟨?_, ?_, ?_, ?_⟩, ⟨?_, ?_, ?_, ?_⟩, by simp⟩
    · exact (by decide : '"' ∉ "20 // rows".toList)
    · exact (by decide : '<' ∉ "20 // rows".toList)
    · exact (by decide : "pageSize" ≠ "role")
    · exact (by decide : "pageSize" ≠ "bind")
    · exact (by decide : '"' ∉ "[ y ]".toList)
    · exact (by decide : '<' ∉ "[ y ]".toList)
    · exact (by decide : "rowHeight" ≠ "role")
    · exact (by decide : "rowHeight" ≠ "bind")
  have hcreates : ∀ o ∈ [size, height], CreatesNone "kendo" o.tree := by
    simp only [List.forall_mem_cons]
    refine ⟨?_, ?_, by simp⟩
    · rintro span callee optional arguments ⟨d, depth, hvisit⟩
      simp [size, Expr.visit, Expr.inside] at hvisit
    · rintro span callee optional arguments ⟨d, depth, hvisit⟩
      simp [height, Expr.visit, Expr.inside, visitItems, visitOptional] at hvisit
  have hparses : (parseProgram (callText "Grid" [size, height])).isOk = true := by
    rw [hcall]
    decide +kernel
  refine ⟨model, [size, height], hcall, helement, hresolves, hembeds, hcreates, hparses, ?_,
    script_and_element_agree model "Grid" _ (by decide) hcomponent hresolves hembeds hcreates
      hparses _ _⟩
  rw [hcall]
  decide +kernel

end WidgetLint.Lint
