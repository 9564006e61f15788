import WidgetLint.Lint.Linter
import WidgetLint.Proofs.Markup.Reading

/-!
# Embedding a text in a page

A page that is some text and one script element is checked as the body of the element is, at the
position where the body starts. What the body is does not matter as long as it does not close the
element itself.
-/

namespace WidgetLint.Lint

open Text Markup Check

/-! ## Open tags of script elements -/

/-- The characters are an open tag of a script element whose body is read as `kind` says. -/
structure ScriptOpening (opening : List Char) (kind : Embedded) : Prop where
  starts : ∃ c others, opening = '<' :: c :: others ∧ c ≠ '/' ∧ c ≠ '!'
  read : ∀ rest p, ∃ attributes,
    openTag? true ⟨opening ++ rest, p⟩ =
        some (rawElement ⟨"script", attributes, false, false, ⟨p, p.after opening⟩⟩
          ⟨rest, p.after opening⟩) ∧
      ∀ span children, embedded? ⟨⟨"script", attributes, false, false, span⟩, children⟩ = some kind

theorem scriptOpening_plain : ScriptOpening "<script>".toList .script := by
  refine ⟨⟨'s', "cript>".toList, rfl, by decide, by decide⟩, fun rest p => ⟨[], ?_, ?_⟩⟩
  · have hname : name? ((⟨"<script>".toList ++ rest, p⟩ : Cursor).drop 1) =
        some ("script", ⟨'>' :: rest, p.after "<script".toList⟩) := rfl
    have hblank : isBlank '>' = false := by decide
    refine openTag?_raw hname ?_ (by decide) (by decide)
    rw [skipBlanks_cons hblank]
    rfl
  · intro span children
    rfl

theorem embedded?_template {e : Element} {nameSpan valueSpan : Span} {quote : Option Char}
    (h : e.attribute? "type" = some ⟨"type", nameSpan, some ⟨"text/x-template", quote, valueSpan⟩⟩) :
    embedded? e = some .template := by
  have hscript : occursIn "javascript".toList (foldAscii "text/x-template".toList) = false := by
    decide
  have htemplate : occursIn "template".toList (foldAscii "text/x-template".toList) = true := by
    decide
  unfold embedded?
  rw [h]
  simp only [Option.elim_some, hscript, htemplate, Bool.false_and, Bool.false_eq_true, if_false,
    if_true]

theorem scriptOpening_template :
    ScriptOpening "<script type=\"text/x-template\">".toList .template := by
  refine ⟨⟨'s', "cript type=\"text/x-template\">".toList, rfl, by decide, by decide⟩,
    fun rest p => ?_⟩
  have hname : name? ((⟨"<script type=\"text/x-template\">".toList ++ rest, p⟩ : Cursor).drop 1) =
      some ("script",
        ⟨" type=\"text/x-template\">".toList ++ rest, p.after "<script".toList⟩) := rfl
  have hblank : skipBlanks ⟨" type=\"text/x-template\">".toList ++ rest, p.after "<script".toList⟩ =
      ⟨"type=\"text/x-template\">".toList ++ rest, p.after "<script ".toList⟩ := rfl
  have hsource : "type=\"text/x-template\">".toList ++ rest =
      "type".toList ++ '=' :: '"' :: ("text/x-template".toList ++ '"' :: '>' :: rest) := rfl
  have hstop : (p.after "<script ".toList).after
      ("type".toList ++ ['=', '"'] ++ "text/x-template".toList ++ ['"', '>']) =
        p.after "<script type=\"text/x-template\">".toList := by
    rw [← Position.after_append]
    rfl
  have hlength : ("type=\"text/x-template\">".toList ++ rest).length + 1 =
      ("ype=\"text/x-template\">".toList ++ rest).length + 2 := rfl
  have hread := @tagRest_append rest (p.after "<script ".toList) "type".toList
    "text/x-template".toList (by decide) (by decide) (by decide)
    ("ype=\"text/x-template\">".toList ++ rest).length
  rw [← hsource, ← hlength, hstop] at hread
  refine ⟨_, openTag?_raw hname (hblank ▸ hread) (by decide) (by decide), ?_⟩
  intro span children
  exact embedded?_template rfl

theorem rawElement_script {body : List Char} (hbody : Avoids "</script".toList body)
    (attributes : List Attribute) (opened : Span) (p : Position) :
    ∃ span stop, rawElement ⟨"script", attributes, false, false, opened⟩
        ⟨body ++ "</script>".toList, p⟩ =
      (⟨.whole (.element ⟨"script", attributes, false, false, span⟩
          [.leaf (.script (String.ofList body)) ⟨p, p.after body⟩]), span, []⟩, ⟨[], stop⟩) := by
  have hname : '<' ∉ foldAscii ('/' :: "script".toList) := by decide
  have hopened : "</script".toList = '<' :: '/' :: "script".toList := rfl
  have hclosed : "</script>".toList = '<' :: '/' :: ("script".toList ++ ['>']) := rfl
  have hscript : isScript "script" = true := by decide
  rw [hopened] at hbody
  have hread := @rawElement_append [] p ⟨"script", attributes, false, false, opened⟩ hname body hbody
  simp only [hscript, if_true] at hread
  rw [hclosed]
  exact hread

/-! ## The page around a script element -/

section
variable {opening before body : List Char} {kind : Embedded} {source : String}

theorem pieces_embedding (h : ScriptOpening opening kind) (hangle : '<' ∉ before)
    (hand : '&' ∉ before) (hbody : Avoids "</script".toList body)
    (hsource : source.toList = before ++ (opening ++ (body ++ "</script>".toList))) :
    ∃ attributes span stop,
      pieces true source =
          textPiece .first before.reverse (Position.first.after before) ++
            [⟨.whole (.element ⟨"script", attributes, false, false, span⟩
              [.leaf (.script (String.ofList body))
                ⟨Position.first.after (before ++ opening), stop⟩]), span, []⟩] ∧
        ∀ children, embedded? ⟨⟨"script", attributes, false, false, span⟩, children⟩ =
          some kind := by
  obtain ⟨⟨c, others, rfl, hslash, hbang⟩, hread⟩ := h
  obtain ⟨attributes, hopen, hkind⟩ :=
    hread (body ++ "</script>".toList) (Position.first.after before)
  obtain ⟨span, stop, helement⟩ := rawElement_script hbody attributes
    ⟨Position.first.after before, (Position.first.after before).after ('<' :: c :: others)⟩
    ((Position.first.after before).after ('<' :: c :: others))
  have hlength : source.length =
      before.length + ((c :: others ++ (body ++ "</script>".toList)).length + 1) := by
    rw [← String.length_toList, hsource]
    simp
  refine ⟨attributes, span, (Position.first.after (before ++ '<' :: c :: others)).after body, ?_,
    hkind span⟩
  rw [pieces, Cursor.ofString, hsource, hlength, piecesFrom_text hangle hand, piecesFrom]
  simp only [List.cons_append] at hopen ⊢
  rw [piece?_openTag hslash hbang, hopen, helement]
  simp only [piecesFrom_nil, List.append_nil, Position.after_append]
  rfl

theorem spotsInAll_append (s : Settings) (skips : String → Bool) (nodes others : List Node) :
    spotsInAll s skips (nodes ++ others) =
      spotsInAll s skips nodes ++ spotsInAll s skips others := by
  induction nodes with
  | nil => rfl
  | cons node nodes ih => rw [List.cons_append, spotsInAll, spotsInAll, ih, List.append_assoc]

theorem spotsInAll_leaves (s : Settings) (skips : String → Bool) {nodes : List Node}
    (h : ∀ n ∈ nodes, n.element? = none) : spotsInAll s skips nodes = [] := by
  induction nodes with
  | nil => rfl
  | cons node nodes ih =>
    have hrest := ih fun n hn => h n (by simp [hn])
    cases node with
    | leaf content span => rw [spotsInAll, spotsIn, hrest, List.append_nil]
    | element tag children =>
      have hnone := h (.element tag children) (by simp)
      cases hnone

theorem spotsIn_root (s : Settings) (span : Span) (nodes : List Node) :
    spotsIn s isStyle (Element.toNode ⟨Tag.named rootName span, nodes⟩) =
      spotsInAll s isStyle nodes := by
  have hstyle : isStyle rootName = false := by decide
  have hscript : isScript rootName = false := by decide
  simp [Element.toNode, spotsIn, Tag.named, hstyle, readElement, hscript, Element.attribute?]

theorem spotsIn_script (s : Settings) (tag : Tag) (hname : tag.name = "script") {body : String}
    {span : Span} (hkind : embedded? ⟨tag, [.leaf (.script body) span]⟩ = some kind) :
    spotsIn s isStyle (.element tag [.leaf (.script body) span]) = [.embedded kind body span] := by
  have hstyle : isStyle "script" = false := by decide
  have hscript : isScript "script" = true := by decide
  rw [spotsIn, hname, hstyle, if_neg (by decide), readElement]
  simp [hname, hscript, hkind, Element.rawBody?]

theorem readPage_embedding (s : Settings) (hasp : s.asp = false) (h : ScriptOpening opening kind)
    (hangle : '<' ∉ before) (hand : '&' ∉ before) (hbody : Avoids "</script".toList body)
    (hsource : source.toList = before ++ (opening ++ (body ++ "</script>".toList))) :
    (readPage s source).problems = [] ∧
      ∃ stop, spotsIn s isStyle (readPage s source).root.toNode =
        [.embedded kind (String.ofList body) ⟨Position.first.after (before ++ opening), stop⟩] := by
  obtain ⟨attributes, span, stop, hpieces, hkind⟩ := pieces_embedding h hangle hand hbody hsource
  have hprepare : Options.prepare ⟨true, s.asp⟩ source = source := by
    rw [Options.prepare, hasp, if_neg (by decide)]
  have hroot : isStyle rootName = false ∧ isScript rootName = false := by decide
  have hscript := spotsIn_script s ⟨"script", attributes, false, false, span⟩ rfl (hkind
    [.leaf (.script (String.ofList body)) ⟨Position.first.after (before ++ opening), stop⟩])
  -- The text before the element is no node if it is empty, and a leaf otherwise.
  obtain ⟨leaves, hleaves, htext⟩ := textPiece_eq_leaves .first before.reverse
    (Position.first.after before)
  rw [htext] at hpieces
  obtain ⟨hproblems, root, hroot⟩ := parse_wholes ⟨true, s.asp⟩ source (leaves ++ [(_, span)])
    (by rw [hprepare, hpieces, List.map_append]; rfl)
  refine ⟨hproblems, stop, ?_⟩
  rw [readPage, hroot, spotsIn_root, List.map_append, spotsInAll_append,
    spotsInAll_leaves s isStyle hleaves, List.nil_append, List.map_singleton, spotsInAll, hscript]
  rfl

end

namespace Linter

/-- A page that is some text and a script element is checked as the body of the element is. -/
theorem checkPage_embedding (l : Linter) (hasp : l.settings.asp = false)
    (template : String → List Diagnostic) {opening : List Char} {kind : Embedded}
    (h : ScriptOpening opening kind) (before body source : String) (hangle : '<' ∉ before.toList)
    (hand : '&' ∉ before.toList) (hbody : Avoids "</script".toList body.toList)
    (hsource : source.toList =
      before.toList ++ (opening ++ (body.toList ++ "</script>".toList))) :
    ∃ stop, l.checkPage template source = l.checkSpot template
      (.embedded kind body ⟨Position.first.after (before.toList ++ opening), stop⟩) := by
  obtain ⟨hproblems, stop, hspots⟩ :=
    readPage_embedding l.settings hasp h hangle hand hbody hsource
  refine ⟨stop, ?_⟩
  rw [checkPage_eq, hproblems, hspots, List.map_nil, List.nil_append, List.flatMap_singleton,
    String.ofList_toList]

/-- **A script or a template is checked in a page as it is on its own.** The diagnostics of the page
are those of the body, in order, at the positions where the body stands. -/
theorem check_embedding (l : Linter) (hasp : l.settings.asp = false) (before body : String)
    (hangle : '<' ∉ before.toList) (hand : '&' ∉ before.toList)
    (hbody : Avoids "</script".toList body.toList) :
    (∀ filename, l.lintMarkup (before ++ "<script>" ++ body ++ "</script>") filename =
      (l.lintScript body filename).map
        (·.translate (Position.first.after (before ++ "<script>").toList))) ∧
    ∀ n < maxTemplateDepth,
      l.checkDocument (maxTemplateDepth - n)
          (before ++ "<script type=\"text/x-template\">" ++ body ++ "</script>") =
        (l.checkDocument (maxTemplateDepth - (n + 1)) body).map
          (·.translate (Position.first.after
            (before ++ "<script type=\"text/x-template\">").toList)) := by
  constructor
  · intro filename
    obtain ⟨stop, hpage⟩ := l.checkPage_embedding hasp (l.checkDocument 3) scriptOpening_plain
      before body (before ++ "<script>" ++ body ++ "</script>") hangle hand hbody (by simp)
    rw [lintMarkup_map, show maxTemplateDepth = 3 + 1 from rfl, checkDocument_succ, hpage,
      checkSpot_script, lintScript_map, List.map_map, List.map_map, ← String.toList_append]
    rfl
  · intro n hn
    obtain ⟨levels, hlevels⟩ : ∃ levels, maxTemplateDepth - n = levels + 1 :=
      ⟨maxTemplateDepth - n - 1, by omega⟩
    have hless : maxTemplateDepth - (n + 1) = levels := by omega
    obtain ⟨stop, hpage⟩ := l.checkPage_embedding hasp (l.checkDocument levels)
      scriptOpening_template before body
      (before ++ "<script type=\"text/x-template\">" ++ body ++ "</script>") hangle hand hbody
      (by simp)
    rw [hlevels, hless, checkDocument_succ, hpage, checkSpot_template, String.toList_append]

/-- A body on the second line that almost closes its element, in a page and in the innermost
template. -/
theorem check_embedding_second_line :
    let l : Linter := ⟨⟨[], List.nodup_nil⟩, {}⟩
    let body := "x.kendoGrid(\x7ba: '</scrip'\x7d)"
    '<' ∉ "été\n".toList ∧ '&' ∉ "été\n".toList ∧ Avoids "</script".toList body.toList ∧
      l.lintMarkup ("été\n" ++ "<script>" ++ body ++ "</script>") "page.html" =
        (l.lintScript body "page.html").map (·.translate ⟨2, 9, 14⟩) ∧
      l.checkDocument 1 ("été\n" ++ "<script type=\"text/x-template\">" ++ body ++ "</script>") =
        (l.checkDocument 0 body).map (·.translate ⟨2, 32, 37⟩) := by
  intro l body
  have hangle : '<' ∉ "été\n".toList := by decide
  have hand : '&' ∉ "été\n".toList := by decide
  have hbody : Avoids "</script".toList body.toList := by decide
  obtain ⟨hscript, htemplate⟩ := l.check_embedding rfl "été\n" body hangle hand hbody
  exact ⟨hangle, hand, hbody, hscript "page.html", htemplate 3 (by decide)⟩

end Linter

end WidgetLint.Lint
