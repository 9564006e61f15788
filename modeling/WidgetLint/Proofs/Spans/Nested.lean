import WidgetLint.Lint.CallSite
import WidgetLint.Proofs.Printing.ParsedStmt
import WidgetLint.Proofs.Spans.Statements
import WidgetLint.Proofs.Spans.Walks
import WidgetLint.Proofs.Tokens.Tiling

/-!
# Trees nest as their spans do

**Every tree that is read is well nested in its text** (`spans_wellNested`), and so is every node
that a walk through it meets: each node stands for a part of the text that is not empty, and its
direct parts for parts of that one, none of which overlaps another.
-/

namespace WidgetLint.Script

open Text

/-! ## The tokens of a text -/

section
variable {text : List Char}

theorem placeOf_placeAt {k : Nat} (hk : k ≤ text.length) : PlaceOf text (placeAt text k) :=
  ⟨k, hk, rfl⟩

theorem offset_placeAt_add (text : List Char) (a n : Nat) : (placeAt text (a + n)).offset =
    (placeAt text a).offset + byteSize ((text.drop a).take n) := by
  rw [placeAt_add, Position.offset_after]

theorem offset_placeAt_mono {a b : Nat} (h : a ≤ b) :
    (placeAt text a).offset ≤ (placeAt text b).offset := by
  obtain ⟨n, rfl⟩ := Nat.exists_eq_add_of_le h
  rw [offset_placeAt_add]
  exact Nat.le_add_right _ _

theorem offset_placeAt_lt {a b : Nat} (h : a < b) (hb : b ≤ text.length) :
    (placeAt text a).offset < (placeAt text b).offset := by
  have hnext : (placeAt text a).offset < (placeAt text (a + 1)).offset := by
    rw [offset_placeAt_add, List.drop_eq_getElem_cons (h.trans_le hb), List.take_succ_cons,
      byteSize_cons]
    have hpos := Char.utf8Size_pos text[a]
    omega
  exact hnext.trans_le (offset_placeAt_mono h)

theorem Token.Tile.within {lineStart : Bool} {k a b : Nat} {t : Token}
    (h : t.Tile text lineStart k a b) : t.Within (PlaceOf text) := by
  rw [Token.Within, h.span]
  exact ⟨placeOf_placeAt (h.stop.trans h.bound), placeOf_placeAt h.bound⟩

theorem Tiles.ordered {lineStart : Bool} {k : Nat} {ts : List Token} {last : Token}
    (h : Tiles text lineStart k ts last) (hk : k ≤ text.length) (hts : ∀ t ∈ ts, t.Of text) :
    (Input.mk ts last (placeAt text k)).Ordered text := by
  induction h with
  | last hbody htile =>
    refine ⟨hts, placeOf_placeAt hk, by simp, htile.within, ?_, ?_, hbody⟩
    · rw [List.map_nil, Successive, htile.span]
      exact offset_placeAt_mono hk
    · rw [htile.span]
  | @token lineStart k a b t last ts _ htile hlt _ ih =>
    have hrest := ih htile.bound (List.forall_mem_cons.1 hts).2
    refine ⟨hts, placeOf_placeAt hk, List.forall_mem_cons.2 ⟨htile.within, hrest.rest⟩, hrest.last, ?_,
      hrest.stop, hrest.atEnd⟩
    have hspan : (Part.name t.span).span = ⟨placeAt text a, placeAt text b⟩ := htile.span
    rw [List.map_cons, Successive, hspan]
    exact ⟨offset_placeAt_mono htile.start, offset_placeAt_lt hlt htile.bound, hrest.order⟩

end

theorem ordered_inputOf {text : String} {tokens : Tokens} (h : tokenize text .first = .ok tokens) :
    (Parser.inputOf tokens .first).Ordered text.toList := by
  refine (Lexer.tokensFrom_tiles (Lexer.standsAt_start text) h).ordered (Nat.zero_le _) fun t ht => ?_
  exact ⟨tokens, by rwa [String.ofList_toList], ht⟩

/-! ## Whole texts -/

section
variable {text : List Char}

theorem Tiles.last_stop {lineStart : Bool} {k : Nat} {ts : List Token} {last : Token}
    (h : Tiles text lineStart k ts last) : last.span.stop = placeAt text text.length := by
  induction h with
  | last _ htile => rw [htile.span]
  | token _ _ _ _ ih => exact ih

theorem Part.WellNested.covers {p : Part} (h : p.WellNested text) :
    ∃ stretch, p.span.Covers text stretch := by
  cases h with
  | mk _ hcovers _ _ _ _ => exact ⟨_, hcovers⟩

/-- The statements of a script stand one behind the other in its text, and they, the nodes in them and
what is taken for calls of components are well nested. -/
structure Program.WellNested (text : List Char) (p : Program) : Prop where
  statements : ∀ s ∈ p.body, (Part.stmt s).WellNested text ∧ Span.Within s.span p.span
  apart : (p.body.map Part.stmt).Pairwise Part.Precedes
  visits : ∀ v ∈ p.visits, v.node.part.WellNested text
  callSites : ∀ lead, ∀ site ∈ Lint.callSites lead p,
    (Part.name site.method).WellNested text ∧ (Part.expr site.config).WellNested text

/-- The method and the configuration of what is taken for a call of a component have a hereditary
property that the nodes have. -/
theorem Hereditary.callSites {Q : Part → Prop} (hQ : Hereditary Q) {p : Program} {lead : String}
    {site : Lint.CallSite} (h : ∀ v ∈ p.visits, Q v.node.part)
    (hsite : site ∈ Lint.callSites lead p) : Q (.name site.method) ∧ Q (.expr site.config) := by
  obtain ⟨depth, e, hvisit, hsite⟩ := Lint.mem_callSites.1 hsite
  obtain ⟨span, callee, optional, others, rfl, hmethod⟩ := Lint.callSite?_eq_some hsite
  obtain ⟨dotSpan, object, dotOptional, name, rfl⟩ := Lint.componentMethod?_eq_some hmethod
  obtain ⟨hcallee, harguments⟩ := List.forall_mem_cons.1 (hQ _ (h _ hvisit))
  obtain ⟨-, hname⟩ := List.forall_mem_cons.1 (hQ _ hcallee)
  exact ⟨(List.forall_mem_cons.1 hname).1, (List.forall_mem_cons.1 harguments).1⟩

end

/-- What was read since the first token of a text. -/
theorem Parser.laid_inputOf {text : String} {tokens : Tokens}
    (h : tokenize text .first = .ok tokens) :
    ∃ base, Laid text.toList base false [] (inputOf tokens .first) :=
  ⟨_, .opening (ordered_inputOf h)⟩

theorem parseExpression_wellNested {text : String} {e : Expr}
    (h : parseExpression text = .ok e) : (Part.expr e).WellNested text.toList := by
  rw [parseExpression, Parser.parseExpressionAt_eq] at h
  split at h
  · cases h
  rename_i tokens htokens
  split at h
  · cases h
  rename_i e i hread
  cases h
  obtain ⟨base, hbase⟩ := Parser.laid_inputOf htokens
  have hlaid := Parser.wholeExpression_lays _ _ _ _ _ _ (Parser.inputOf_lexed htokens) hbase hread
  exact hlaid.2.nested _ (by simp)

theorem parseProgram_laid {text : String} {p : Program} (h : parseProgram text = .ok p) :
    ∃ tokens base i, tokenize text .first = .ok tokens ∧ p.span = ⟨.first, tokens.last.span.stop⟩ ∧
      Laid text.toList base false (p.body.map .stmt) i := by
  rw [parseProgram_eq] at h
  split at h
  · cases h
  rename_i tokens htokens
  split at h
  · cases h
  rename_i body i hread
  cases h
  obtain ⟨base, hbase⟩ := Parser.laid_inputOf htokens
  have hlaid := Parser.statements_adds _ _ _ _ _ _ (Parser.inputOf_lexed htokens) hbase hread
  exact ⟨tokens, base, i, htokens, rfl, hlaid.2⟩

theorem parseProgram_wellNested {text : String} {p : Program} (h : parseProgram text = .ok p) :
    p.WellNested text.toList := by
  obtain ⟨tokens, base, i, htokens, hspan, hlaid⟩ := parseProgram_laid h
  have hnested : ∀ s ∈ p.body, (Part.stmt s).WellNested text.toList := by
    simpa using hlaid.nested
  have hvisits := (hereditary_wellNested text.toList).program_visits hnested
  refine ⟨fun s hs => ⟨hnested s hs, ?_⟩, ?_, hvisits,
    fun lead site hsite => (hereditary_wellNested _).callSites hvisits hsite⟩
  · obtain ⟨stretch, hcovers⟩ := (hnested s hs).covers
    obtain ⟨k, hk, hstop⟩ := hcovers.stop_place
    have hlast := (Lexer.tokensFrom_tiles (Lexer.standsAt_start text) htokens).last_stop
    have hplace : s.span.stop = placeAt text.toList k := hstop
    refine ⟨by rw [hspan]; exact Nat.zero_le _, ?_⟩
    rw [hspan, hlast, hplace]
    exact offset_placeAt_mono hk
  · rcases hlaid.order with horder | horder
    · exact horder.2.apart
    · have hnil : p.body.map Part.stmt = [] := horder.2.1
      rw [hnil]
      exact .nil

/-- **Every tree that is read is well nested in its text.** -/
theorem spans_wellNested (text : String) :
    (∀ p, parseProgram text = .ok p → p.WellNested text.toList) ∧
      ∀ e, parseExpression text = .ok e → (Part.expr e).WellNested text.toList :=
  ⟨fun _ => parseProgram_wellNested, fun _ => parseExpression_wellNested⟩

/-- A chain behind `new`, a shorthand, a getter and a default within one object, and an arrow function
whose body is a comma expression in parentheses. -/
theorem spans_wellNested_object : ∃ p e,
    parseProgram "$(\"#g\").kendoGrid({ a, get b() { return 1 }, c: async x => (x, 2) });" = .ok p ∧
      p.WellNested "$(\"#g\").kendoGrid({ a, get b() { return 1 }, c: async x => (x, 2) });".toList ∧
      parseExpression "new a.b[c](...d).e ? { f = 1 } = g : new.target" = .ok e ∧
      (Part.expr e).WellNested "new a.b[c](...d).e ? { f = 1 } = g : new.target".toList := by
  obtain ⟨hprogram, hexpression⟩ :
      (parseProgram "$(\"#g\").kendoGrid({ a, get b() { return 1 }, c: async x => (x, 2) });").isOk =
        true ∧
      (parseExpression "new a.b[c](...d).e ? { f = 1 } = g : new.target").isOk = true := by
    decide +kernel
  obtain ⟨p, hp⟩ := exists_ok_of_isOk hprogram
  obtain ⟨e, he⟩ := exists_ok_of_isOk hexpression
  exact ⟨p, e, hp, (spans_wellNested _).1 p hp, he, (spans_wellNested _).2 e he⟩

end WidgetLint.Script
