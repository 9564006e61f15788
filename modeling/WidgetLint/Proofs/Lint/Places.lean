import WidgetLint.Lint.Linter
import WidgetLint.Proofs.Check.Places
import WidgetLint.Proofs.Markup.Places

/-!
# Where diagnostics stand

Every diagnostic of a script or a page stands at a place of that very text, also if it was found in
an attribute value, an embedded script, a template or a blanked page. A position travels through
trees that only copy it, through the translation of embedded texts and through the levels of
templates; at each of these steps a place of the inner text becomes a place of the outer one.
-/

namespace WidgetLint.Lint

open Text Script Markup Schema Check

theorem Diagnostic.Within.translate {whole part : List Char} {origin : Position}
    (h : StandsAt whole part origin) {d : Diagnostic} (hd : d.Within (PlaceOf part)) :
    (d.translate origin).Within (PlaceOf whole) := by
  obtain ⟨p, hp, hplace⟩ := hd
  exact ⟨p.translate origin, by simp [Diagnostic.translate, hp], h.place_translate hplace⟩

/-! ## Scripts -/

variable {P : Position → Prop}

theorem callSites_within {lead : String} {p : Program} (h : ∀ s ∈ p.body, s.Within P) :
    ∀ site ∈ callSites lead p, P site.method.start ∧ site.config.Within P := by
  intro site hsite
  obtain ⟨depth, e, hvisit, hsite⟩ := mem_callSites.1 hsite
  obtain ⟨span, callee, optional, others, rfl, hmethod⟩ := callSite?_eq_some hsite
  obtain ⟨dotSpan, object, dotOptional, name, rfl⟩ := componentMethod?_eq_some hmethod
  have hfixed := p.visits_within h _ hvisit
  simp only [Visit.move, Visit.mk.injEq, Node.expr.injEq, true_and, Expr.relabel, Expr.call.injEq,
    Expr.dot.injEq, relabelAll, List.cons.injEq, Relabeling.moving_span, move_keeping_eq_self]
    at hfixed
  obtain ⟨-, ⟨-, -, hname⟩, hconfig, -⟩ := hfixed
  exact ⟨hname.1, hconfig⟩

namespace Linter

theorem checkScript_within (l : Linter) (text : String) :
    ∀ d ∈ l.checkScript text, d.Within (PlaceOf text.toList) := by
  intro d hd
  have hprogram := parseProgram_within text
  cases hp : parseProgram text with
  | error e =>
    rw [hp] at hprogram
    rw [l.checkScript_error hp, List.mem_singleton] at hd
    subst hd
    exact ⟨e.position, rfl, hprogram⟩
  | ok p =>
    rw [hp] at hprogram
    rw [l.checkScript_ok hp, List.mem_flatMap] at hd
    obtain ⟨site, hsite, hd⟩ := hd
    obtain ⟨hmethod, hconfig⟩ := callSites_within hprogram site hsite
    cases hresolves : l.model.resolve? site.component l.settings.namespaceText with
    | some c =>
      rw [l.checkSite_some hresolves] at hd
      exact checkComponent_within (Entry.ofObject_within hconfig) d hd
    | none =>
      rw [l.checkSite_none hresolves, List.mem_singleton] at hd
      subst hd
      exact ⟨site.method.start, rfl, hmethod⟩

/-! ## Pages -/

/-- The value `true` of an attribute that has none starts where its name does. -/
theorem parse_true_anchored {p : Position} (h : P p) :
    ∃ e, parseExpressionAt "true" p = .ok e ∧ e.Anchored P := by
  have hfirst : parseExpression "true" = .ok (.boolean ⟨.first, ⟨1, 5, 4⟩⟩ true) := rfl
  refine ⟨.boolean ⟨p, (⟨1, 5, 4⟩ : Position).translate p⟩ true, ?_, h, ?_⟩
  · rw [Parser.parseExpressionAt_eq_translate, hfirst]
    simp [moveResult, Expr.relabel, Span.move]
  · rintro s members ⟨⟩

theorem readAttribute_within {text : List Char} {a : Attribute} (h : a.PlacedIn text)
    (s : Settings) (index : Nat) :
    (∀ entry, readAttribute s index a = .entry entry → entry.Within (PlaceOf text)) ∧
      ∀ d, readAttribute s index a = .unreadable d → d.Within (PlaceOf text) := by
  obtain ⟨name, nameSpan, value⟩ := a
  obtain ⟨hname, hvalue⟩ := h
  have horigin : PlaceOf text (value.elim nameSpan.start (·.span.start)) := by
    cases value with
    | none => exact hname
    | some v => exact (hvalue v rfl).place
  have hread (e : Expr) (he : parseExpressionAt (value.elim "true" (·.text))
      (value.elim nameSpan.start (·.span.start)) = .ok e) : e.Anchored (PlaceOf text) := by
    cases value with
    | none =>
      obtain ⟨e', he', hanchored⟩ := parse_true_anchored hname
      cases he.symm.trans he'
      exact hanchored
    | some v =>
      have hwithin := parseExpressionAt_within (hvalue v rfl)
      rw [show parseExpressionAt v.text v.span.start = .ok e from he] at hwithin
      exact Expr.Within.anchored hwithin
  unfold readAttribute readAttributeBy
  split
  · exact ⟨by simp, by simp⟩
  · split
    · exact ⟨by simp, by simp⟩
    · simp only [Steps.plain, Id.run_bind]
      split
      · rename_i e he
        refine ⟨?_, by simp⟩
        rintro _ ⟨⟩
        exact ⟨hname, hread e he⟩
      · refine ⟨by simp, ?_⟩
        rintro _ ⟨⟩
        exact ⟨_, rfl, horigin⟩

theorem checkRole_within (l : Linter) {text : List Char} {e : Element} (h : e.tag.PlacedIn text)
    {role : Attribute} (hrole : role.PlacedIn text) :
    ∀ d ∈ l.checkRole e role, d.Within (PlaceOf text) := by
  have hreading (r : AttributeReading) (hr : r ∈ readAttributes l.settings e) :
      ∃ index, ∃ a, a.PlacedIn text ∧ readAttribute l.settings index a = r := by
    rw [readAttributes_eq, List.mem_mapIdx] at hr
    obtain ⟨index, hindex, rfl⟩ := hr
    exact ⟨index, _, h.2 _ (List.getElem_mem hindex), rfl⟩
  intro d hd
  cases hresolves : l.model.resolve? (role.value.elim "" (·.text)) l.settings.namespaceText with
  | none =>
    rw [l.checkRole_none hresolves, List.mem_singleton] at hd
    subst hd
    exact ⟨role.nameSpan.start, rfl, hrole.1⟩
  | some c =>
    rw [l.checkRole_some hresolves] at hd
    rcases List.mem_append.mp hd with hd | hd
    · simp only [complaintsOf, List.mem_filterMap] at hd
      obtain ⟨r, hr, hd⟩ := hd
      obtain ⟨index, a, ha, rfl⟩ := hreading r hr
      split at hd
      · rename_i d' heq
        cases hd
        exact (readAttribute_within ha l.settings index).2 _ heq
      · cases hd
    · refine checkComponent_within (fun entry hentry => ?_) d hd
      simp only [entriesOf, List.mem_filterMap] at hentry
      obtain ⟨r, hr, hentry⟩ := hentry
      obtain ⟨index, a, ha, rfl⟩ := hreading r hr
      split at hentry
      · rename_i entry' heq
        cases hentry
        exact (readAttribute_within ha l.settings index).1 _ heq
      · cases hentry

end Linter

def Spot.PlacedIn (text : List Char) : Spot → Prop
  | .role e a => e.tag.PlacedIn text ∧ a.PlacedIn text
  | .embedded _ body span => StandsAt text body.toList span.start

theorem rawBody?_standsAt {text : List Char} {e : Element} (h : e.PlacedIn text) {body : String}
    {span : Span} (hbody : e.rawBody? = some (body, span)) :
    StandsAt text body.toList span.start := by
  obtain ⟨child, hmem, hchild⟩ := List.exists_of_findSome?_eq_some hbody
  have hplaced := h.children child hmem
  split at hchild
  · cases hchild
    cases hplaced with
    | leaf hleaf => exact hleaf
  · cases hchild
    cases hplaced with
    | leaf hleaf => exact hleaf
  · cases hchild

def Reading.spots : Reading → List Spot
  | .embedded spots | .plain spots => spots

theorem readElement_placed {text : List Char} (s : Settings) {e : Element}
    (h : e.PlacedIn text) : ∀ spot ∈ (readElement s e).spots, spot.PlacedIn text := by
  intro spot hspot
  unfold readElement at hspot
  split at hspot
  · simp only [Reading.spots, Option.mem_toList, Option.map_eq_some_iff] at hspot
    obtain ⟨⟨body, span⟩, hbody, rfl⟩ := hspot
    exact rawBody?_standsAt h hbody
  · simp only [Reading.spots, Option.mem_toList, Option.map_eq_some_iff] at hspot
    obtain ⟨role, hrole, rfl⟩ := hspot
    exact ⟨h.tag, h.tag.2 role (List.mem_of_find?_eq_some hrole)⟩

mutual

theorem spotsIn_placed {text : List Char} (s : Settings) (skips : String → Bool) :
    (node : Markup.Node) → node.PlacedIn text → ∀ spot ∈ spotsIn s skips node, spot.PlacedIn text
  | .leaf .., _ => by simp [spotsIn]
  | .element tag children, h => by
    cases h with
    | element htag hchildren =>
      have hown := readElement_placed s (e := ⟨tag, children⟩) ⟨htag, hchildren⟩
      have hinside := spotsInAll_placed s skips children hchildren
      intro spot hspot
      unfold spotsIn at hspot
      split at hspot
      · cases hspot
      · split at hspot
        · rename_i spots hreading
          rw [hreading] at hown
          exact hown spot hspot
        · rename_i spots hreading
          rw [hreading] at hown
          rcases List.mem_append.mp hspot with hspot | hspot
          · exact hown spot hspot
          · exact hinside spot hspot

theorem spotsInAll_placed {text : List Char} (s : Settings) (skips : String → Bool) :
    (nodes : List Markup.Node) → (∀ node ∈ nodes, node.PlacedIn text) →
      ∀ spot ∈ spotsInAll s skips nodes, spot.PlacedIn text
  | [], _ => by simp [spotsInAll]
  | node :: rest, h => by
    intro spot hspot
    rw [spotsInAll] at hspot
    rcases List.mem_append.mp hspot with hspot | hspot
    · exact spotsIn_placed s skips node (h node (by simp)) spot hspot
    · exact spotsInAll_placed s skips rest (fun n hn => h n (by simp [hn])) spot hspot

end

namespace Linter

/-- The diagnostics of a spot stand in the page if those of a template stand in the template. -/
theorem checkSpot_within (l : Linter) {template : String → List Diagnostic}
    (htemplate : ∀ body, ∀ d ∈ template body, d.Within (PlaceOf body.toList)) {text : List Char}
    {spot : Spot} (h : spot.PlacedIn text) :
    ∀ d ∈ l.checkSpot template spot, d.Within (PlaceOf text) := by
  intro d hd
  cases spot with
  | role e role => exact checkRole_within l h.1 h.2 d hd
  | embedded kind body span =>
    cases kind with
    | script =>
      rw [checkSpot_script] at hd
      obtain ⟨inner, hinner, rfl⟩ := List.mem_map.mp hd
      exact Diagnostic.Within.translate h (l.checkScript_within _ inner hinner)
    | template =>
      rw [checkSpot_template] at hd
      obtain ⟨inner, hinner, rfl⟩ := List.mem_map.mp hd
      exact Diagnostic.Within.translate h (htemplate _ inner hinner)

theorem checkPage_within (l : Linter) {template : String → List Diagnostic}
    (htemplate : ∀ body, ∀ d ∈ template body, d.Within (PlaceOf body.toList)) (text : String) :
    ∀ d ∈ l.checkPage template text, d.Within (PlaceOf text.toList) := by
  intro d hd
  obtain ⟨hroot, hproblems⟩ := parse_placed ⟨true, l.settings.asp⟩ text
  suffices h : d.Within (PlaceOf
      (Options.prepare ⟨true, l.settings.asp⟩ text).toList) by
    obtain ⟨p, hp, hplace⟩ := h
    exact ⟨p, hp, Options.place_of_prepare _ text hplace⟩
  rw [checkPage_eq] at hd
  rcases List.mem_append.mp hd with hd | hd
  · obtain ⟨problem, hproblem, rfl⟩ := List.mem_map.mp hd
    exact ⟨problem.position, rfl, hproblems problem hproblem⟩
  · obtain ⟨spot, hspot, hd⟩ := List.mem_flatMap.mp hd
    exact checkSpot_within l htemplate
      (spotsIn_placed l.settings isStyle _ (.element hroot.tag hroot.children) spot hspot) d hd

theorem checkDocument_within (l : Linter) (levels : Nat) (text : String) :
    ∀ d ∈ l.checkDocument levels text, d.Within (PlaceOf text.toList) := by
  induction levels generalizing text with
  | zero =>
    refine l.checkPage_within (fun body d hd => ?_) text
    rw [List.mem_singleton] at hd
    subst hd
    exact ⟨.first, rfl, 0, Nat.zero_le _, rfl⟩
  | succ levels ih => exact l.checkPage_within ih text

/-- **Every diagnostic of a script or a page stands at a place of that text.** Its line, column and
offset are those after some of the first characters of the text. -/
theorem lint_position_is_place (l : Linter) (text filename : String) :
    ∀ d ∈ l.lintScript text filename ++ l.lintMarkup text filename,
      ∃ k ≤ text.toList.length, d.position = some (Position.first.after (text.toList.take k)) := by
  intro d hd
  have hwithin : d.Within (PlaceOf text.toList) := by
    rcases List.mem_append.mp hd with hd | hd
    · obtain ⟨found, hfound, rfl⟩ := List.mem_map.mp hd
      exact l.checkScript_within text found hfound
    · obtain ⟨found, hfound, rfl⟩ := List.mem_map.mp hd
      exact l.checkDocument_within maxTemplateDepth text found hfound
  obtain ⟨p, hp, k, hk, rfl⟩ := hwithin
  exact ⟨k, hk, hp⟩

/-- A stray brace on the second line is complained about at its place. -/
theorem stray_brace_is_place :
    let l : Linter := ⟨⟨[], List.nodup_nil⟩, {}⟩
    let d : Diagnostic :=
      ⟨.error, "Unexpected token '\x7d'", some ⟨2, 1, 2⟩, none, some "page.js"⟩
    d ∈ l.lintScript "x\n\x7d" "page.js" ++ l.lintMarkup "x\n\x7d" "page.js" ∧
      ∃ k ≤ 3, d.position = some (Position.first.after ("x\n\x7d".toList.take k)) := by
  intro l d
  have hfound : d ∈ l.lintScript "x\n\x7d" "page.js" := by decide +kernel
  have hd : d ∈ l.lintScript "x\n\x7d" "page.js" ++ l.lintMarkup "x\n\x7d" "page.js" :=
    List.mem_append_left _ hfound
  exact ⟨hd, l.lint_position_is_place "x\n\x7d" "page.js" d hd⟩

end Linter

end WidgetLint.Lint
