import WidgetLint.Markup.Document
import WidgetLint.Proofs.Markup.Blanking
import WidgetLint.Proofs.Markup.Readers

/-!
# Where the parts of a document stand

Every attribute, every value of an attribute, every raw body and every problem of a document stands
at a place of the source, and a value or a raw body is the very text that stands there. The proof
follows a cursor through the cutting of pieces (`piece?_placed`) and the pieces through the builder
(`Builder.step_placed`).
-/

namespace WidgetLint.Markup

open Text

/-- The text of an attribute value stands in the source where its span starts. -/
def AttributeValue.PlacedIn (text : List Char) (v : AttributeValue) : Prop :=
  StandsAt text v.text.toList v.span.start

def Attribute.PlacedIn (text : List Char) (a : Attribute) : Prop :=
  PlaceOf text a.nameSpan.start ∧ ∀ v, a.value = some v → v.PlacedIn text

def Tag.PlacedIn (text : List Char) (t : Tag) : Prop :=
  PlaceOf text t.span.start ∧ ∀ a ∈ t.attributes, a.PlacedIn text

/-- A raw body stands in the source where its span starts. -/
def Leaf.PlacedIn (text : List Char) (span : Span) : Leaf → Prop
  | script body | style body => StandsAt text body.toList span.start
  | _ => True

inductive Node.PlacedIn (text : List Char) : Node → Prop
  | element {tag : Tag} {children : List Node} :
    tag.PlacedIn text → (∀ child ∈ children, child.PlacedIn text) →
      (Node.element tag children).PlacedIn text
  | leaf {content : Leaf} {span : Span} :
    content.PlacedIn text span → (Node.leaf content span).PlacedIn text

/-- Problems are reported at places of the source. -/
def ProblemsIn (text : List Char) (problems : List Problem) : Prop :=
  ∀ p ∈ problems, PlaceOf text p.position

theorem ProblemsIn.nil {text : List Char} : ProblemsIn text [] := by
  intro p hp
  cases hp

theorem ProblemsIn.singleton {text : List Char} {fault : Fault} {p : Position}
    (h : PlaceOf text p) : ProblemsIn text [⟨fault, p⟩] := by
  intro q hq
  rw [List.mem_singleton] at hq
  subst hq
  exact h

theorem ProblemsIn.append {text : List Char} {ps qs : List Problem} (hp : ProblemsIn text ps)
    (hq : ProblemsIn text qs) : ProblemsIn text (ps ++ qs) := by
  intro p h
  rcases List.mem_append.mp h with h | h
  · exact hp p h
  · exact hq p h

def PieceKind.PlacedIn (text : List Char) : PieceKind → Prop
  | opening tag => tag.PlacedIn text
  | closing _ => True
  | whole node => node.PlacedIn text

structure Piece.PlacedIn (text : List Char) (piece : Piece) : Prop where
  kind : piece.kind.PlacedIn text
  start : PlaceOf text piece.span.start
  problems : ProblemsIn text piece.problems

variable {text : List Char} {c : Cursor}

/-! ## Attributes -/

theorem angleProblems_in {part : List Char} {p : Position} (h : StandsAt text part p) :
    ProblemsIn text (angleProblems p part) := by
  induction part generalizing p with
  | nil => exact .nil
  | cons char rest ih =>
    have hrest : ProblemsIn text (angleProblems (p.next char) rest) := ih (h.drop 1)
    unfold angleProblems
    split
    · exact (ProblemsIn.singleton h.place).append hrest
    · exact hrest

theorem strayProblems_in {part : List Char} {p : Position} (h : StandsAt text part p) :
    ProblemsIn text (strayProblems p part) := by
  induction part generalizing p with
  | nil => exact .nil
  | cons char rest ih =>
    have hrest : ProblemsIn text (strayProblems (p.next char) rest) := ih (h.drop 1)
    unfold strayProblems
    split
    · exact hrest
    · exact (ProblemsIn.singleton h.place).append hrest

theorem quotedValue_placed (h : c.In text) (quote : Char) :
    (quotedValue quote c).1.PlacedIn text ∧ (quotedValue quote c).2.1.In text ∧
      ProblemsIn text (quotedValue quote c).2.2 := by
  refine ⟨?_, (h.skip _).drop 1, (angleProblems_in (h.run _)).append ?_⟩
  · rw [AttributeValue.PlacedIn, quotedValue, String.toList_ofList]
    exact h.run _
  · split
    · exact .singleton h.place
    · exact .nil

theorem bareText_eq_take (cs : List Char) : bareText cs = cs.take (bareText cs).length := by
  induction cs using bareText.induct with
  | case1 => rfl
  | case2 => simp [bareText]
  | case3 c rest h hblank => simp [bareText, hblank]
  | case4 c rest h hblank ih =>
    rw [bareText, if_neg hblank]
    · rw [List.length_cons, List.take_succ_cons, ← ih]
    · exact h

theorem attributeValue_placed (h : c.In text) :
    (attributeValue c).1.PlacedIn text ∧ (attributeValue c).2.1.In text ∧
      ProblemsIn text (attributeValue c).2.2 := by
  unfold attributeValue
  split
  · exact quotedValue_placed (h.drop 1) '"'
  · exact quotedValue_placed (h.drop 1) '\''
  · refine ⟨?_, h.drop _, .nil⟩
    rw [AttributeValue.PlacedIn, String.toList_ofList, bareText_eq_take]
    exact StandsAt.take h _

theorem name?_in (h : c.In text) {name : String} {next : Cursor}
    (hname : name? c = some (name, next)) : next.In text := by
  unfold name? at hname
  split at hname
  · split at hname
    · cases hname
      exact h.skip _
    · cases hname
  · cases hname

theorem skipBlanks_in (h : c.In text) : (skipBlanks c).In text :=
  h.skip isBlank

theorem attribute?_placed (h : c.In text) {found : Attribute} {next : Cursor}
    {problems : List Problem} (hfound : attribute? c = some (found, next, problems)) :
    found.PlacedIn text ∧ next.In text ∧ ProblemsIn text problems := by
  unfold attribute? at hfound
  split at hfound
  · cases hfound
  · rename_i name afterName hname
    have hafter := skipBlanks_in (name?_in h hname)
    simp only at hfound
    split at hfound
    · obtain ⟨hvalue, hstop, hproblems⟩ := attributeValue_placed (skipBlanks_in (hafter.drop 1))
      cases hfound
      refine ⟨⟨h.place, fun v hv => ?_⟩, hstop, hproblems⟩
      cases hv
      exact hvalue
    · cases hfound
      refine ⟨⟨h.place, fun v hv => ?_⟩, hafter, .nil⟩
      cases hv

theorem tagRest_placed (h : c.In text) (fuel : Nat) :
    (∀ a ∈ (tagRest fuel c).attributes, a.PlacedIn text) ∧ (tagRest fuel c).cursor.In text ∧
      ProblemsIn text (tagRest fuel c).problems := by
  induction fuel generalizing c with
  | zero => exact ⟨by simp [tagRest], h, .nil⟩
  | succ fuel ih =>
    unfold tagRest
    split
    · exact ⟨by simp, h, .nil⟩
    · exact ⟨by simp, h.drop 2, .nil⟩
    · exact ⟨by simp, h.drop 1, .nil⟩
    · split
      · rename_i found next problems hfound
        obtain ⟨hattr, hnext, hproblems⟩ := attribute?_placed h hfound
        obtain ⟨hattrs, hcursor, hrest⟩ := ih (skipBlanks_in hnext)
        refine ⟨fun a ha => ?_, hcursor, hproblems.append hrest⟩
        rcases List.mem_cons.mp ha with rfl | ha
        · exact hattr
        · exact hattrs a ha
      · exact ih (skipBlanks_in (h.drop 1))

/-! ## Tags -/

theorem closeTagEnd_in (h : c.In text) :
    (closeTagEnd c).1.In text ∧ ProblemsIn text (closeTagEnd c).2 :=
  ⟨(h.skip _).drop 1, strayProblems_in (h.run _)⟩

theorem rawText_eq_take (closing cs : List Char) :
    rawText closing cs = cs.take (rawText closing cs).length := by
  induction cs with
  | nil => rfl
  | cons char rest ih =>
    unfold rawText
    split
    · rfl
    · rw [List.length_cons, List.take_succ_cons, ← ih]

theorem rawElement_placed (h : c.In text) {tag : Tag} (htag : tag.PlacedIn text) :
    (rawElement tag c).1.PlacedIn text ∧ (rawElement tag c).2.In text := by
  have hbody : StandsAt text (rawText ('<' :: '/' :: tag.name.toList) c.rest) c.position := by
    rw [rawText_eq_take]
    exact StandsAt.take h _
  have hchild (stop : Cursor) : ∀ child ∈ [Node.leaf
      (if isScript tag.name then
        Leaf.script (String.ofList (rawText ('<' :: '/' :: tag.name.toList) c.rest))
      else Leaf.style (String.ofList (rawText ('<' :: '/' :: tag.name.toList) c.rest)))
      (c.spanTo stop)], child.PlacedIn text := by
    intro child hmem
    rw [List.mem_singleton] at hmem
    subst hmem
    refine .leaf ?_
    split
    · rw [Leaf.PlacedIn, String.toList_ofList]
      exact hbody
    · rw [Leaf.PlacedIn, String.toList_ofList]
      exact hbody
  unfold rawElement
  simp only
  split
  · exact ⟨⟨.element htag (hchild _), htag.1, .singleton htag.1⟩, h.drop _⟩
  · obtain ⟨hnext, hproblems⟩ := closeTagEnd_in
      ((h.drop (rawText ('<' :: '/' :: tag.name.toList) c.rest).length).drop
        ('<' :: '/' :: tag.name.toList).length)
    exact ⟨⟨.element htag (hchild _), htag.1, hproblems⟩, hnext⟩

theorem openTag?_placed (h : c.In text) {html : Bool} {piece : Piece} {next : Cursor}
    (hfound : openTag? html c = some (piece, next)) : piece.PlacedIn text ∧ next.In text := by
  unfold openTag? at hfound
  split at hfound
  · cases hfound
  · rename_i name afterName hname
    have hstart := skipBlanks_in (name?_in (h.drop 1) hname)
    obtain ⟨hattrs, hcursor, hproblems⟩ :=
      tagRest_placed hstart ((skipBlanks afterName).rest.length + 1)
    simp only at hfound
    generalize tagRest ((skipBlanks afterName).rest.length + 1) (skipBlanks afterName) = rest
      at hfound hattrs hcursor hproblems
    have htag : Tag.PlacedIn text
        ⟨name, rest.attributes, rest.ending == .selfClosed, false, c.spanTo rest.cursor⟩ :=
      ⟨h.place, hattrs⟩
    have hall : ProblemsIn text (rest.problems ++
        if rest.ending = .missing then [⟨.unterminatedTag name, c.position⟩] else []) := by
      refine hproblems.append ?_
      split
      · exact .singleton h.place
      · exact .nil
    split at hfound
    · cases hfound
      exact ⟨⟨.element htag (by simp), h.place, hall⟩, hcursor⟩
    · split at hfound
      · obtain ⟨hpiece, hnext⟩ := rawElement_placed hcursor htag
        cases hfound
        exact ⟨⟨hpiece.kind, hpiece.start, hall.append hpiece.problems⟩, hnext⟩
      · cases hfound
        exact ⟨⟨htag, h.place, hall⟩, hcursor⟩

theorem closeTag?_placed (h : c.In text) {piece : Piece} {next : Cursor}
    (hfound : closeTag? c = some (piece, next)) : piece.PlacedIn text ∧ next.In text := by
  unfold closeTag? at hfound
  split at hfound
  · cases hfound
  · rename_i name afterName hname
    obtain ⟨hnext, hproblems⟩ := closeTagEnd_in (name?_in (h.drop 2) hname)
    cases hfound
    exact ⟨⟨trivial, h.place, hproblems⟩, hnext⟩

/-! ## Other nodes -/

theorem delimited_placed (h : c.In text) {content : String → Leaf} (opening : Nat)
    (closing : List Char) (fault : Fault)
    (hcontent : ∀ value span, (content value).PlacedIn text span) :
    (delimited content opening closing fault c).1.PlacedIn text ∧
      (delimited content opening closing fault c).2.In text := by
  refine ⟨⟨.leaf (hcontent _ _), h.place, ?_⟩, ((h.drop _).drop _).drop _⟩
  unfold delimited
  simp only
  split
  · exact .singleton h.place
  · exact .nil

theorem charRef?_in (h : c.In text) {content : Leaf} {next : Cursor}
    (hfound : charRef? c = some (content, next)) :
    (∀ span, content.PlacedIn text span) ∧ next.In text := by
  have hfirst : (if (c.drop 2).startsWith ['x'] then (c.drop 2).drop 1 else c.drop 2).In text := by
    split
    · exact (h.drop 2).drop 1
    · exact h.drop 2
  unfold charRef? at hfound
  rw [Option.ite_none_left_eq_some] at hfound
  cases hfound.2
  exact ⟨fun _ => trivial, (hfirst.skip _).drop 1⟩

theorem entityRef?_in (h : c.In text) {content : Leaf} {next : Cursor}
    (hfound : entityRef? c = some (content, next)) :
    (∀ span, content.PlacedIn text span) ∧ next.In text := by
  unfold entityRef? at hfound
  split at hfound
  · rename_i name stop hname
    split at hfound
    · cases hfound
      exact ⟨fun _ => trivial, (name?_in (h.drop 1) hname).drop 1⟩
    · cases hfound
  · cases hfound

theorem reference?_placed (h : c.In text) {piece : Piece} {next : Cursor}
    (hfound : reference? c = some (piece, next)) : piece.PlacedIn text ∧ next.In text := by
  obtain ⟨content, rfl, hcontent⟩ := reference?_cases hfound
  have hplaced : (∀ span, content.PlacedIn text span) ∧ next.In text := by
    rcases hcontent with ⟨-, hnumeric⟩ | hnamed
    · exact charRef?_in h hnumeric
    · exact entityRef?_in h hnamed
  exact ⟨⟨.leaf (hplaced.1 _), h.place, .nil⟩, hplaced.2⟩

/-! ## Cutting a source into pieces -/

theorem piece?_placed (h : c.In text) {html : Bool} {piece : Piece} {next : Cursor}
    (hfound : piece? html c = some (piece, next)) : piece.PlacedIn text ∧ next.In text := by
  cases piece?_at hfound with
  | closeTag _ hread => exact closeTag?_placed h hread
  | comment _ hread =>
    cases hread
    exact delimited_placed h 4 _ _ fun _ _ => trivial
  | cdata _ hread =>
    cases hread
    exact delimited_placed h 9 _ _ fun _ _ => trivial
  | declaration _ _ _ hread =>
    cases hread
    exact delimited_placed h 2 _ _ fun _ _ => trivial
  | openTag _ hread => exact openTag?_placed h hread
  | reference _ hread => exact reference?_placed h hread

theorem textPiece_placed {start stop : Position} (h : PlaceOf text start) (run : List Char) :
    ∀ piece ∈ textPiece start run stop, piece.PlacedIn text := by
  unfold textPiece
  split
  · simp
  · intro piece hmem
    rw [List.mem_singleton] at hmem
    subst hmem
    exact ⟨.leaf trivial, h, .nil⟩

theorem piecesFrom_placed (h : c.In text) (html : Bool) (fuel : Nat) {start : Position}
    (hstart : PlaceOf text start) (run : List Char) :
    ∀ piece ∈ piecesFrom html fuel start run c, piece.PlacedIn text := by
  induction fuel generalizing c start run with
  | zero => exact textPiece_placed hstart run
  | succ fuel ih =>
    unfold piecesFrom
    split
    · exact textPiece_placed hstart run
    · split
      · rename_i piece next hfound
        obtain ⟨hpiece, hnext⟩ := piece?_placed h hfound
        intro other hmem
        rcases List.mem_append.mp hmem with hmem | hmem
        · exact textPiece_placed hstart run other hmem
        · rcases List.mem_cons.mp hmem with rfl | hmem
          · exact hpiece
          · exact ih hnext hnext.place [] other hmem
      · exact ih (h.drop 1) hstart _

theorem pieces_placed (html : Bool) (source : String) :
    ∀ piece ∈ pieces html source, piece.PlacedIn source.toList :=
  piecesFrom_placed (Cursor.in_ofString source) html _ (standsAt_self _).place []

/-! ## Putting pieces together -/

structure Element.PlacedIn (text : List Char) (e : Element) : Prop where
  tag : e.tag.PlacedIn text
  children : ∀ child ∈ e.children, child.PlacedIn text

theorem Element.PlacedIn.addChild {e : Element} (h : e.PlacedIn text) {node : Node}
    (hnode : node.PlacedIn text) :
    Element.PlacedIn text { e with children := e.children ++ [node] } := by
  refine ⟨h.tag, fun child hmem => ?_⟩
  rcases List.mem_append.mp hmem with hmem | hmem
  · exact h.children child hmem
  · rw [List.mem_singleton] at hmem
    subst hmem
    exact hnode

structure Builder.PlacedIn (text : List Char) (b : Builder) : Prop where
  top : b.top.PlacedIn text
  around : ∀ e ∈ b.around, e.PlacedIn text
  problems : ProblemsIn text b.problems

namespace Builder
variable {b : Builder}

theorem empty_placed : Builder.empty.PlacedIn text := by
  refine ⟨⟨⟨⟨0, by simp, rfl⟩, ?_⟩, ?_⟩, ?_, .nil⟩
  · simp [Builder.empty, Tag.named]
  · simp [Builder.empty]
  · simp [Builder.empty]

theorem push_placed (h : b.PlacedIn text) {node : Node} (hnode : node.PlacedIn text) :
    (b.push node).PlacedIn text :=
  ⟨h.top.addChild hnode, h.around, h.problems⟩

theorem report_placed (h : b.PlacedIn text) (fault : Fault) {p : Position}
    (hp : PlaceOf text p) : (b.report fault p).PlacedIn text :=
  ⟨h.top, h.around, h.problems.append (.singleton hp)⟩

theorem enter_placed (h : b.PlacedIn text) {tag : Tag} (htag : tag.PlacedIn text) :
    (b.enter tag).PlacedIn text := by
  unfold enter
  split
  · have hpushed : ∀ b' : Builder, b'.PlacedIn text →
        ({ b'.push (.element tag []) with flattened := b'.flattened + 1 } : Builder).PlacedIn
          text := by
      intro b' h'
      have hnode : (Node.element tag []).PlacedIn text := .element htag (by simp)
      have hpush := push_placed h' hnode
      exact ⟨hpush.top, hpush.around, hpush.problems⟩
    simp only
    split
    · exact hpushed _ (report_placed h _ htag.1)
    · exact hpushed _ h
  · refine ⟨⟨htag, by simp⟩, fun e he => ?_, h.problems⟩
    rcases List.mem_cons.mp he with rfl | he
    · exact h.top
    · exact h.around e he

theorem leave_placed (h : b.PlacedIn text) (unclosed : Bool) (stop : Position) :
    (b.leave unclosed stop).PlacedIn text := by
  unfold leave
  split
  · exact h
  · rename_i parent around heq
    have haround := h.around
    rw [heq] at haround
    have hparent : ({ b with top := parent, around := around } : Builder).PlacedIn text :=
      ⟨haround parent (by simp), fun e he => haround e (by simp [he]), h.problems⟩
    exact push_placed hparent (.element ⟨h.top.tag.1, h.top.tag.2⟩ h.top.children)

theorem close_placed (h : b.PlacedIn text) (html : Bool) (name : String) {span : Span}
    (hspan : PlaceOf text span.start) : (b.close html name span).PlacedIn text := by
  unfold close
  split
  · exact ⟨h.top, h.around, h.problems⟩
  · split
    · exact report_placed h _ hspan
    · simp only
      split
      · exact leave_placed h _ _
      · exact leave_placed (report_placed h _ hspan) _ _

/-- **A step of the builder keeps everything in place.** -/
theorem step_placed (h : b.PlacedIn text) (html : Bool) {piece : Piece}
    (hpiece : piece.PlacedIn text) : (b.step html piece).PlacedIn text := by
  have hb : ({ b with problems := b.problems ++ piece.problems } : Builder).PlacedIn text :=
    ⟨h.top, h.around, h.problems.append hpiece.problems⟩
  have hkind := hpiece.kind
  unfold step
  simp only
  split
  · rename_i tag heq
    rw [heq] at hkind
    exact enter_placed hb hkind
  · exact close_placed hb html _ hpiece.start
  · rename_i node heq
    rw [heq] at hkind
    exact push_placed hb hkind

theorem foldl_step_placed (h : b.PlacedIn text) (html : Bool) (pieces : List Piece)
    (hpieces : ∀ piece ∈ pieces, piece.PlacedIn text) :
    (pieces.foldl (step html) b).PlacedIn text := by
  induction pieces generalizing b with
  | nil => exact h
  | cons piece rest ih =>
    exact ih (step_placed h html (hpieces piece (by simp))) fun p hp => hpieces p (by simp [hp])

theorem closeAll_placed (stop : Position) {top : Element} (htop : top.PlacedIn text)
    (around : List Element) (haround : ∀ e ∈ around, e.PlacedIn text) :
    (closeAll stop top around).PlacedIn text := by
  induction around generalizing top with
  | nil => exact ⟨htop.tag, htop.children⟩
  | cons parent around ih =>
    refine ih ((haround parent (by simp)).addChild (.element ⟨htop.tag.1, htop.tag.2⟩ htop.children))
      fun e he => haround e (by simp [he])

end Builder

/-- **Everything in a document stands in the text it was read from.** -/
theorem parse_placed (options : Options) (source : String) :
    (parse options source).root.PlacedIn (options.prepare source).toList ∧
      ProblemsIn (options.prepare source).toList (parse options source).problems := by
  have hbuilt := Builder.foldl_step_placed Builder.empty_placed options.html _
    (pieces_placed options.html (options.prepare source))
  exact ⟨Builder.closeAll_placed _ hbuilt.top _ hbuilt.around, hbuilt.problems⟩

theorem Options.place_of_prepare (options : Options) (source : String) {p : Position}
    (h : PlaceOf (options.prepare source).toList p) : PlaceOf source.toList p := by
  unfold Options.prepare at h
  split at h
  · exact h.congr (shape_blankServerBlocks source)
  · exact h

end WidgetLint.Markup
