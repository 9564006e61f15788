import WidgetLint.Proofs.Markup.Gathering
import WidgetLint.Proofs.Markup.Recutting

/-!
# Writing a tree and reading it again

A source that is read without problems is written as a source with the same tree. Both sources are
cut into the same pieces, but for the names of close tags: each is written with the name of the
element it closes. So two builders that take these pieces side by side stay alike up to places and
quotes (`Builder.step_alike`), and what the first one has read so far is what was written
(`Builder.step_text`).
-/

namespace WidgetLint.Markup

open Text

/-! ## Lists of nodes -/

theorem bareAll_append (nodes more : List Node) :
    bareAll (nodes ++ more) = bareAll nodes ++ bareAll more := by
  induction nodes with
  | nil => rfl
  | cons node nodes ih => rw [List.cons_append, bareAll, bareAll, ih, List.cons_append]

theorem writeAll_append (nodes more : List Node) :
    writeAll (nodes ++ more) = writeAll nodes ++ writeAll more := by
  induction nodes with
  | nil => rw [List.nil_append, writeAll, String.empty_append]
  | cons node nodes ih => rw [List.cons_append, writeAll, writeAll, ih, String.append_assoc]

theorem writeAll_singleton (node : Node) : writeAll [node] = node.write := by
  rw [writeAll, writeAll, String.append_empty]

/-! ## Elements written without their close tag -/

/-- The element has a close tag of its own that is not written: its name is that of a void element,
and it has no children. -/
def Tag.isHollow (t : Tag) (childless : Bool) : Bool :=
  isVoid t.name && childless && !t.selfClosing && !t.unclosed

mutual

/-- The tags of the elements in a node whose close tags are not written. -/
def Node.hollow : Node → List Tag
  | .element tag children =>
    hollowAll children ++ if tag.isHollow children.isEmpty then [tag] else []
  | .leaf .. => []

def hollowAll : List Node → List Tag
  | [] => []
  | node :: rest => node.hollow ++ hollowAll rest

end

theorem hollowAll_append (nodes more : List Node) :
    hollowAll (nodes ++ more) = hollowAll nodes ++ hollowAll more := by
  induction nodes with
  | nil => rfl
  | cons node nodes ih => rw [List.cons_append, hollowAll, hollowAll, ih, List.append_assoc]

theorem hollowAll_singleton (node : Node) : hollowAll [node] = node.hollow := by
  rw [hollowAll, hollowAll, List.append_nil]

namespace Builder

variable {html : Bool} {b : Builder} {piece : Piece}

/-! ## Elements without a written close tag are kept -/

/-- The tags in a stack of open elements whose close tags are not written. -/
def hollowIn (top : Element) : List Element → List Tag
  | [] => hollowAll top.children
  | parent :: around => hollowIn parent around ++ hollowAll top.children

theorem hollowIn_push (top : Element) (around : List Element) (node : Node) :
    hollowIn { top with children := top.children ++ [node] } around =
      hollowIn top around ++ node.hollow := by
  cases around with
  | nil => rw [hollowIn, hollowIn, hollowAll_append, hollowAll_singleton]
  | cons parent around =>
    rw [hollowIn, hollowIn, hollowAll_append, hollowAll_singleton, List.append_assoc]

theorem leave_hollow (b : Builder) (unclosed : Bool) (stop : Position) :
    hollowIn b.top b.around <+: hollowIn (b.leave unclosed stop).top (b.leave unclosed stop).around := by
  unfold leave
  split
  · exact List.prefix_rfl
  · rename_i parent around haround
    rw [haround]
    simp only [push, hollowIn_push, hollowIn, Node.hollow, ← List.append_assoc]
    exact List.prefix_append _ _

theorem enter_hollow (b : Builder) (tag : Tag) :
    hollowIn b.top b.around <+: hollowIn (b.enter tag).top (b.enter tag).around := by
  unfold enter
  split
  · have hpush := hollowIn_push b.top b.around (.element tag [])
    simp only [push, report]
    split <;> exact hpush ▸ List.prefix_append _ _
  · have hsame : hollowIn ⟨tag, []⟩ (b.top :: b.around) = hollowIn b.top b.around := by
      rw [hollowIn, hollowAll, List.append_nil]
    exact hsame.symm ▸ List.prefix_rfl

theorem close_hollow (html : Bool) (b : Builder) (name : String) (span : Span) :
    hollowIn b.top b.around <+:
      hollowIn (b.close html name span).top (b.close html name span).around := by
  unfold close
  split
  · exact List.prefix_rfl
  · split
    · exact List.prefix_rfl
    · simp only
      split
      · exact leave_hollow b false span.stop
      · exact leave_hollow (b.report _ _) true span.stop

theorem step_hollow (html : Bool) (b : Builder) (piece : Piece) :
    hollowIn b.top b.around <+:
      hollowIn (b.step html piece).top (b.step html piece).around := by
  unfold step
  simp only
  split
  · exact enter_hollow { b with problems := b.problems ++ piece.problems } _
  · exact close_hollow html { b with problems := b.problems ++ piece.problems } _ _
  · rename_i node hkind
    rw [push, hollowIn_push]
    exact List.prefix_append _ _

theorem foldl_step_hollow (html : Bool) (b : Builder) (pieces : List Piece) :
    let built := pieces.foldl (step html) b
    hollowIn b.top b.around <+: hollowIn built.top built.around := by
  induction pieces generalizing b with
  | nil => exact List.prefix_rfl
  | cons piece pieces ih => exact (step_hollow html b piece).trans (ih (b.step html piece))

theorem closeAll_hollow (stop : Position) (top : Element) (around : List Element) :
    hollowAll (closeAll stop top around).children = hollowIn top around := by
  induction around generalizing top with
  | nil => rfl
  | cons parent around ih =>
    rw [closeAll, ih, hollowIn_push]
    simp [Node.hollow, Tag.isHollow, hollowIn]

/-! ## Steps without problems -/

structure Clean (b : Builder) : Prop where
  problems : b.problems = []
  flattened : b.flattened = 0

theorem with_problems (b : Builder) (hpiece : piece.problems = []) :
    { b with problems := b.problems ++ piece.problems } = b := by
  rw [hpiece, List.append_nil]

/-- The builder after the innermost element was closed by its own close tag. -/
def closed (b : Builder) (parent : Element) (around : List Element) (stop : Position) : Builder :=
  { b with
    top := { parent with
      children := parent.children ++
        [.element { b.top.tag with span := ⟨b.top.tag.span.start, stop⟩ } b.top.children] }
    around := around }

theorem step_opening (hpiece : piece.problems = []) {tag : Tag}
    (hkind : piece.kind = .opening tag) (hdepth : b.depth ≠ maxDepth) :
    b.step html piece = { b with top := ⟨tag, []⟩, around := b.top :: b.around } := by
  unfold step
  simp only [b.with_problems hpiece, hkind]
  rw [enter, if_neg hdepth]

theorem step_closing (hflat : b.flattened = 0) (hpiece : piece.problems = []) {name : String}
    (hkind : piece.kind = .closing name) {parent : Element} {around : List Element}
    (haround : b.around = parent :: around)
    (hname : namesMatch html b.top.tag.name name = true) :
    b.step html piece = b.closed parent around piece.span.stop := by
  unfold step
  simp only [b.with_problems hpiece, hkind]
  unfold close
  rw [if_neg (by rw [hflat]; decide), if_neg (by rw [haround]; simp)]
  simp only [hname, if_true]
  rw [leave, haround]
  simp only [push, closed, Bool.or_false]

theorem step_whole (hpiece : piece.problems = []) {node : Node}
    (hkind : piece.kind = .whole node) : b.step html piece = b.push node := by
  unfold step
  simp only [b.with_problems hpiece, hkind]

theorem enter_problems (b : Builder) (tag : Tag) : ∃ more, (b.enter tag).problems = b.problems ++ more := by
  unfold enter
  split
  · simp only [push]
    split
    · exact ⟨_, rfl⟩
    · exact ⟨[], by simp⟩
  · exact ⟨[], by simp⟩

theorem leave_problems (b : Builder) (unclosed : Bool) (stop : Position) :
    (b.leave unclosed stop).problems = b.problems := by
  unfold leave
  split <;> rfl

theorem close_problems (html : Bool) (b : Builder) (name : String) (span : Span) :
    ∃ more, (b.close html name span).problems = b.problems ++ more := by
  unfold close
  split
  · exact ⟨[], by simp⟩
  · split
    · exact ⟨_, rfl⟩
    · simp only
      split
      · exact ⟨[], by rw [leave_problems, List.append_nil]⟩
      · exact ⟨_, by rw [leave_problems]; rfl⟩

theorem step_problems (html : Bool) (b : Builder) (piece : Piece) :
    ∃ more, (b.step html piece).problems = b.problems ++ piece.problems ++ more := by
  unfold step
  simp only
  split
  · exact enter_problems _ _
  · exact close_problems html _ _ _
  · exact ⟨[], by simp [push]⟩

theorem foldl_step_problems (html : Bool) (b : Builder) (pieces : List Piece) :
    ∃ more, (pieces.foldl (step html) b).problems = b.problems ++ more ∧
      ∀ piece ∈ pieces, piece.problems ⊆ more := by
  induction pieces generalizing b with
  | nil => exact ⟨[], by simp⟩
  | cons piece pieces ih =>
    obtain ⟨more, hstep⟩ := step_problems html b piece
    obtain ⟨later, hlater, hpieces⟩ := ih (b.step html piece)
    refine ⟨piece.problems ++ more ++ later, by rw [List.foldl_cons, hlater, hstep]; simp, ?_⟩
    simp only [List.mem_cons, forall_eq_or_imp]
    exact ⟨by simp, fun q hq => List.Subset.trans (hpieces q hq) (by simp)⟩

theorem step_cases (h : b.Clean) (hclean : (b.step html piece).problems = []) :
    (∃ tag, piece.kind = .opening tag ∧ b.depth ≠ maxDepth) ∨
      (∃ name parent around, piece.kind = .closing name ∧ b.around = parent :: around ∧
        namesMatch html b.top.tag.name name = true) ∨
      ∃ node, piece.kind = .whole node := by
  obtain ⟨more, hproblems⟩ := step_problems html b piece
  rw [hclean] at hproblems
  have hpiece : piece.problems = [] := by
    have hnil := hproblems.symm
    simp only [List.append_eq_nil_iff] at hnil
    exact hnil.1.2
  cases hkind : piece.kind with
  | opening tag =>
    refine .inl ⟨tag, rfl, fun hdepth => ?_⟩
    unfold step at hclean
    simp only [b.with_problems hpiece, hkind] at hclean
    simp [enter, hdepth, h.flattened, push, report] at hclean
  | closing name =>
    refine .inr (.inl ?_)
    unfold step at hclean
    simp only [b.with_problems hpiece, hkind] at hclean
    unfold close at hclean
    rw [if_neg (by rw [h.flattened]; decide)] at hclean
    cases haround : b.around with
    | nil =>
      rw [haround, if_pos List.isEmpty_nil] at hclean
      simp [report] at hclean
    | cons parent around =>
      rw [haround, if_neg (by simp)] at hclean
      refine ⟨name, parent, around, rfl, rfl, ?_⟩
      by_contra hname
      simp only at hclean
      rw [if_neg hname, leave_problems] at hclean
      simp [report] at hclean
  | whole node => exact .inr (.inr ⟨node, rfl⟩)

theorem step_clean (h : b.Clean) (hpiece : piece.problems = [])
    (hclean : (b.step html piece).problems = []) : (b.step html piece).Clean := by
  refine ⟨hclean, ?_⟩
  rcases step_cases h hclean with ⟨tag, hkind, hdepth⟩ | ⟨name, parent, around, hkind, haround, hname⟩ |
    ⟨node, hkind⟩
  · rw [step_opening hpiece hkind hdepth]
    exact h.flattened
  · rw [step_closing h.flattened hpiece hkind haround hname]
    exact h.flattened
  · rw [step_whole hpiece hkind]
    exact h.flattened

/-! ## What has been written so far -/

/-- The piece as it is written in its place: a close tag names the element it closes. -/
def normal (b : Builder) : PieceKind → PieceKind
  | .closing _ => .closing b.top.tag.name
  | k => k

def normals (html : Bool) (b : Builder) : List Piece → List PieceKind
  | [] => []
  | piece :: pieces => b.normal piece.kind :: (b.step html piece).normals html pieces

/-- The written form of a stack of open elements. -/
def textIn (top : Element) : List Element → String
  | [] => writeAll top.children
  | parent :: around =>
    textIn parent around ++ (top.tag.writeOpening ++ ">" ++ writeAll top.children)

/-- The open elements await their close tags, all but the root, which has no tag. -/
def Awaiting (html : Bool) (top : Element) : List Element → Prop
  | [] => top.tag.name = rootName
  | parent :: around =>
    (top.tag.Sound ∧ top.tag.selfClosing = false ∧ (html && isVoid top.tag.name) = false) ∧
      Awaiting html parent around

theorem textIn_push (top : Element) (around : List Element) (node : Node) :
    textIn { top with children := top.children ++ [node] } around =
      textIn top around ++ node.write := by
  cases around with
  | nil => rw [textIn, textIn, writeAll_append, writeAll_singleton]
  | cons parent around =>
    rw [textIn, textIn, writeAll_append, writeAll_singleton]
    simp only [String.append_assoc]

theorem Awaiting.push {top : Element} {around : List Element} (h : Awaiting html top around)
    (children : List Node) : Awaiting html { top with children := children } around := by
  cases around with
  | nil => exact h
  | cons parent around => exact h

theorem write_element {tag : Tag} (h : tag.Sound) (hself : tag.selfClosing = false) (span : Span)
    {children : List Node} (hhollow : tag.isHollow children.isEmpty = false) :
    (Node.element { tag with span := span } children).write =
      tag.writeOpening ++ ">" ++ writeAll children ++ ("</" ++ tag.name ++ ">") := by
  simp only [Tag.isHollow, hself, h.closed, Bool.not_false, Bool.and_true] at hhollow
  rw [Node.write, Tag.write]
  simp only [hself, hhollow, h.closed, Bool.false_eq_true, if_false]
  rfl

theorem step_awaiting (h : b.Clean) (hawaiting : Awaiting html b.top b.around)
    (hclean : (b.step html piece).problems = []) (hpiece : piece.problems = [])
    (hopening : ∀ tag, piece.kind = .opening tag → piece.kind.Sound html) :
    Awaiting html (b.step html piece).top (b.step html piece).around := by
  rcases step_cases h hclean with ⟨tag, hkind, hdepth⟩ |
    ⟨name, parent, around, hkind, haround, hname⟩ | ⟨node, hkind⟩
  · have hsound := hopening tag hkind
    rw [step_opening hpiece hkind hdepth]
    rw [hkind] at hsound
    cases hsound with
    | opening htag hself hvoid hraw => exact ⟨⟨htag, hself, hvoid⟩, hawaiting⟩
  · rw [step_closing h.flattened hpiece hkind haround hname]
    rw [haround] at hawaiting
    exact hawaiting.2.push _
  · rw [step_whole hpiece hkind]
    exact hawaiting.push _

theorem not_hollow_of_closed {parent : Element} {around : List Element} {stop : Position}
    (hvoid : (html && isVoid b.top.tag.name) = false)
    (hwritten : html = true ∨
      hollowIn (b.closed parent around stop).top (b.closed parent around stop).around = []) :
    b.top.tag.isHollow b.top.children.isEmpty = false := by
  rcases hwritten with rfl | hnone
  · rw [Bool.true_and] at hvoid
    rw [Tag.isHollow, hvoid]
    rfl
  · rw [closed, hollowIn_push, Node.hollow, List.append_eq_nil_iff, List.append_eq_nil_iff] at hnone
    rw [← Bool.not_eq_true]
    intro hhollow
    have hsame : Tag.isHollow { b.top.tag with span := ⟨b.top.tag.span.start, stop⟩ }
        b.top.children.isEmpty = true := hhollow
    rw [if_pos hsame] at hnone
    cases hnone.2.2

theorem step_text (h : b.Clean) (hawaiting : Awaiting html b.top b.around)
    (hclean : (b.step html piece).problems = []) (hpiece : piece.problems = [])
    (hwritten : html = true ∨ hollowIn (b.step html piece).top (b.step html piece).around = []) :
    textIn (b.step html piece).top (b.step html piece).around =
      textIn b.top b.around ++ (b.normal piece.kind).write := by
  rcases step_cases h hclean with ⟨tag, hkind, hdepth⟩ |
    ⟨name, parent, around, hkind, haround, hname⟩ | ⟨node, hkind⟩
  · rw [step_opening hpiece hkind hdepth, hkind]
    simp [textIn, writeAll, normal, PieceKind.write]
  · rw [step_closing h.flattened hpiece hkind haround hname] at hwritten ⊢
    rw [haround] at hawaiting ⊢
    obtain ⟨⟨htag, hself, hvoid⟩, -⟩ := hawaiting
    have hhollow := not_hollow_of_closed hvoid hwritten
    rw [closed, hkind]
    simp only [textIn_push, write_element htag hself _ hhollow, textIn, normal, PieceKind.write]
    simp only [String.append_assoc]
  · rw [step_whole hpiece hkind, hkind]
    exact textIn_push b.top b.around node

theorem normal_sound (h : b.Clean) (hawaiting : Awaiting html b.top b.around)
    (hclean : (b.step html piece).problems = []) (hsound : piece.kind.Sound html) :
    (b.normal piece.kind).Sound html := by
  rcases step_cases h hclean with ⟨tag, hkind, -⟩ | ⟨name, parent, around, hkind, haround, -⟩ |
    ⟨node, hkind⟩
  · rw [hkind] at hsound ⊢
    exact hsound
  · rw [haround] at hawaiting
    rw [hkind]
    exact .closing hawaiting.1.1.name
  · rw [hkind] at hsound ⊢
    exact hsound

theorem problems_of_foldl {pieces : List Piece}
    (h : ((piece :: pieces).foldl (step html) b).problems = []) :
    piece.problems = [] ∧ (b.step html piece).problems = [] := by
  obtain ⟨later, hlater, -⟩ := foldl_step_problems html (b.step html piece) pieces
  obtain ⟨more, hstep⟩ := step_problems html b piece
  rw [List.foldl_cons, hlater, List.append_eq_nil_iff] at h
  refine ⟨?_, h.1⟩
  rw [hstep, List.append_eq_nil_iff, List.append_eq_nil_iff] at h
  exact h.1.1.2

/-- The pieces of a source without problems stay separable with their close tags renamed. -/
theorem normals_separable {pieces : List Piece} (hpieces : Separable html (pieces.map (·.kind)))
    (h : b.Clean) (hawaiting : Awaiting html b.top b.around)
    (hclean : (pieces.foldl (step html) b).problems = []) :
    Separable html (b.normals html pieces) ∧
      ((∀ k ∈ (pieces.map (·.kind)).head?, k.Sound html) →
        ∀ k ∈ (b.normals html pieces).head?, k.Sound html) := by
  induction pieces generalizing b with
  | nil => exact ⟨.nil, fun _ k hk => nomatch hk⟩
  | cons piece pieces ih =>
    obtain ⟨hpiece, hstep⟩ := problems_of_foldl hclean
    have hhead (hsound : piece.kind.Sound html) := normal_sound h hawaiting hstep hsound
    rw [List.map_cons] at hpieces ⊢
    have hopening := hpieces.opening
    have hclean' := step_clean h hpiece hstep
    have hawaiting' := step_awaiting h hawaiting hstep hpiece hopening
    refine ⟨?_, fun hfirst k hk => ?_⟩
    · generalize hkind : piece.kind = k at hpieces
      cases hpieces with
      | piece hsound hothers =>
        exact .piece (hhead (hkind ▸ hsound)) (ih hothers hclean' hawaiting' hclean).1
      | text hne hloose hnext hothers =>
        obtain ⟨hlater, hlaterHead⟩ := ih hothers hclean' hawaiting' hclean
        rw [normals, hkind]
        exact .text hne hloose (hlaterHead hnext) hlater
    · cases hk
      exact hhead (hfirst _ rfl)

theorem foldl_step_text {pieces : List Piece} (hpieces : Separable html (pieces.map (·.kind)))
    (h : b.Clean) (hawaiting : Awaiting html b.top b.around)
    (hclean : (pieces.foldl (step html) b).problems = [])
    (hwritten : html = true ∨
      hollowIn (pieces.foldl (step html) b).top (pieces.foldl (step html) b).around = []) :
    let built := pieces.foldl (step html) b
    Awaiting html built.top built.around ∧
      (textIn built.top built.around).toList =
        (textIn b.top b.around).toList ++ writePieces (b.normals html pieces) := by
  induction pieces generalizing b with
  | nil => exact ⟨hawaiting, by simp [normals, writePieces]⟩
  | cons piece pieces ih =>
    obtain ⟨hpiece, hstep⟩ := problems_of_foldl hclean
    have hsoFar : html = true ∨
        hollowIn (b.step html piece).top (b.step html piece).around = [] := by
      refine hwritten.imp_right fun hnone => List.prefix_nil.1 ?_
      rw [← hnone]
      exact foldl_step_hollow html (b.step html piece) pieces
    have htext := step_text h hawaiting hstep hpiece hsoFar
    rw [List.map_cons] at hpieces
    have hawaiting' := step_awaiting h hawaiting hstep hpiece hpieces.opening
    obtain ⟨hlast, hall⟩ :=
      ih hpieces.others (step_clean h hpiece hstep) hawaiting' hclean hwritten
    refine ⟨hlast, ?_⟩
    rw [List.foldl_cons, hall, htext]
    simp [normals, writePieces]

theorem closeAll_text (stop : Position) {top : Element} {around : List Element}
    (h : Awaiting html top around) :
    (closeAll stop top around).tag.name = rootName ∧
      writeAll (closeAll stop top around).children = textIn top around := by
  induction around generalizing top with
  | nil => exact ⟨h, rfl⟩
  | cons parent around ih =>
    obtain ⟨⟨-, hself, -⟩, hparents⟩ := h
    rw [closeAll]
    obtain ⟨hname, htext⟩ := ih (hparents.push (parent.children ++
      [Node.element { top.tag with unclosed := true, span := ⟨top.tag.span.start, stop⟩ }
        top.children]))
    refine ⟨hname, ?_⟩
    have hwrite : (Node.element { top.tag with
        unclosed := true, span := ⟨top.tag.span.start, stop⟩ } top.children).write =
          top.tag.writeOpening ++ ">" ++ writeAll top.children := by
      rw [Node.write, Tag.write]
      simp only [hself, Bool.false_eq_true, if_false, if_true, String.append_empty]
      split
      · -- A void element without children ends with its open tag in any case.
        rename_i hvoid
        have hnil : top.children = [] := List.isEmpty_iff.1 (Bool.and_eq_true_iff.1 hvoid).2
        rw [hnil, writeAll, String.append_empty]
        rfl
      · rfl
    rw [htext, textIn_push, hwrite, textIn]

/-! ## Two builders side by side -/

theorem namesMatch_refl (html : Bool) (name : String) : namesMatch html name name = true := by
  cases html with
  | true => exact sameIgnoringCase_iff.2 rfl
  | false => exact beq_self_eq_true name

/-- The same elements are open, up to places and quotes. -/
structure Alike (b b' : Builder) : Prop where
  top : b'.top.bare = b.top.bare
  around : b'.around.map Element.bare = b.around.map Element.bare

theorem bare_push {e e' : Element} (h : e'.bare = e.bare) {node node' : Node}
    (hnode : node'.bare = node.bare) :
    Element.bare { e' with children := e'.children ++ [node'] } =
      Element.bare { e with children := e.children ++ [node] } := by
  simp only [Element.bare, Element.mk.injEq] at h ⊢
  rw [bareAll_append, bareAll_append, h.1, h.2, bareAll, bareAll, bareAll, bareAll, hnode]
  exact ⟨rfl, rfl⟩

variable {b' : Builder} {piece' : Piece}

/-- Builders stay alike when one takes a piece and the other takes its written form. -/
theorem step_alike (h : b.Clean) (h' : b'.Clean) (halike : b.Alike b')
    (hclean : (b.step html piece).problems = []) (hpiece : piece.problems = [])
    (hpiece' : piece'.problems = []) (hkinds : piece'.kind.bare = (b.normal piece.kind).bare) :
    (b'.step html piece').Clean ∧ (b.step html piece).Alike (b'.step html piece') := by
  rcases step_cases h hclean with ⟨tag, hkind, hdepth⟩ | ⟨name, parent, around, hkind, haround, hname⟩ |
    ⟨node, hkind⟩
  · have hdepth' : b'.depth ≠ maxDepth := by
      have hlength := congrArg List.length halike.around
      rw [List.length_map, List.length_map] at hlength
      rwa [depth, hlength]
    rw [hkind] at hkinds
    cases hkind' : piece'.kind with
    | opening tag' =>
      rw [hkind'] at hkinds
      injection hkinds with htag
      rw [step_opening hpiece hkind hdepth, step_opening hpiece' hkind' hdepth']
      refine ⟨⟨h'.problems, h'.flattened⟩, ?_, ?_⟩
      · simp only [Element.bare, htag]
      · simp only [List.map_cons, halike.top, halike.around]
    | closing name' => rw [hkind'] at hkinds; cases hkinds
    | whole node' => rw [hkind'] at hkinds; cases hkinds
  · rw [hkind] at hkinds
    cases hkind' : piece'.kind with
    | opening tag' => rw [hkind'] at hkinds; cases hkinds
    | closing name' =>
      rw [hkind'] at hkinds
      injection hkinds with hname'
      obtain ⟨parent', around', haround', hparent, haround''⟩ : ∃ parent' around',
          b'.around = parent' :: around' ∧ parent'.bare = parent.bare ∧
            around'.map Element.bare = around.map Element.bare := by
        have hmap := halike.around
        rw [haround, List.map_cons, List.map_eq_cons_iff] at hmap
        obtain ⟨parent', around', heq, hparent, haround'⟩ := hmap
        exact ⟨parent', around', heq, hparent, haround'⟩
      have htop := halike.top
      simp only [Element.bare, Element.mk.injEq] at htop
      have htopName : b'.top.tag.name = b.top.tag.name := by
        have hbare := congrArg Tag.name htop.1
        exact hbare
      have hmatch : namesMatch html b'.top.tag.name name' = true := by
        rw [hname', htopName]
        exact namesMatch_refl html b.top.tag.name
      rw [step_closing h.flattened hpiece hkind haround hname,
        step_closing h'.flattened hpiece' hkind' haround' hmatch]
      refine ⟨⟨h'.problems, h'.flattened⟩, bare_push hparent ?_, haround''⟩
      have htag (t t' : Tag) (hbare : t'.bare = t.bare) (span span' : Span) :
          Tag.bare { t' with span := span' } = Tag.bare { t with span := span } := hbare
      simp only [Node.bare, Node.element.injEq]
      exact ⟨htag _ _ htop.1 _ _, htop.2⟩
    | whole node' => rw [hkind'] at hkinds; cases hkinds
  · rw [hkind] at hkinds
    cases hkind' : piece'.kind with
    | opening tag' => rw [hkind'] at hkinds; cases hkinds
    | closing name' => rw [hkind'] at hkinds; cases hkinds
    | whole node' =>
      rw [hkind'] at hkinds
      injection hkinds with hnode
      rw [step_whole hpiece hkind, step_whole hpiece' hkind']
      exact ⟨⟨h'.problems, h'.flattened⟩, bare_push halike.top hnode, halike.around⟩

theorem foldl_step_alike {pieces pieces' : List Piece} (h : b.Clean) (h' : b'.Clean)
    (halike : b.Alike b') (hclean : (pieces.foldl (step html) b).problems = [])
    (hclean' : ∀ q ∈ pieces', q.problems = [])
    (hkinds : pieces'.map (·.kind.bare) = (b.normals html pieces).map PieceKind.bare) :
    (pieces'.foldl (step html) b').Clean ∧
      (pieces.foldl (step html) b).Alike (pieces'.foldl (step html) b') := by
  induction pieces generalizing b b' pieces' with
  | nil =>
    obtain rfl : pieces' = [] := List.map_eq_nil_iff.1 hkinds
    exact ⟨h', halike⟩
  | cons piece pieces ih =>
    rw [normals, List.map_cons, List.map_eq_cons_iff] at hkinds
    obtain ⟨piece', pieces', rfl, hkind, hkinds⟩ := hkinds
    obtain ⟨hpiece, hstep⟩ := problems_of_foldl hclean
    simp only [List.mem_cons, forall_eq_or_imp] at hclean'
    obtain ⟨hstep', halike'⟩ := step_alike h h' halike hstep hpiece hclean'.1 hkind
    rw [List.foldl_cons, List.foldl_cons]
    exact ih (step_clean h hpiece hstep) hstep' halike' hclean hclean'.2 hkinds

theorem closeAll_bare {stop stop' : Position} {top top' : Element} {around around' : List Element}
    (htop : top'.bare = top.bare) (haround : around'.map Element.bare = around.map Element.bare) :
    (closeAll stop' top' around').bare = (closeAll stop top around).bare := by
  induction around generalizing top top' around' with
  | nil =>
    obtain rfl : around' = [] := List.map_eq_nil_iff.1 haround
    exact htop
  | cons parent around ih =>
    rw [List.map_cons, List.map_eq_cons_iff] at haround
    obtain ⟨parent', around', rfl, hparent, haround⟩ := haround
    rw [closeAll, closeAll]
    refine ih (bare_push hparent ?_) haround
    simp only [Element.bare, Element.mk.injEq, Tag.bare, Tag.mk.injEq] at htop
    simp only [Node.bare, Tag.bare, htop]

theorem empty_clean : Builder.empty.Clean :=
  ⟨rfl, rfl⟩

end Builder

/-! ## The round trip -/

section
variable {html : Bool} {source : String}

theorem parse_eq_finish (html : Bool) (source : String) :
    parse { html } source = ((pieces html source).foldl (Builder.step html) .empty).finish
      (Position.first.after source.toList) :=
  rfl

theorem parse_root_write (html : Bool) (source : String) :
    (parse { html } source).root.write =
      let built := (pieces html source).foldl (Builder.step html) .empty
      let root := Builder.closeAll (Position.first.after source.toList) built.top built.around
      if root.tag.name = rootName then writeAll root.children else root.toNode.write :=
  rfl

/-- The pieces of a source that is read without problems and whose attribute values can be quoted
again. -/
theorem pieces_separable (hclean : (parse { html } source).problems = [])
    (hquotable : ∀ a ∈ attributesAll (parse { html } source).root.children,
      ∀ v ∈ a.value, v.Quotable) :
    Separable html ((pieces html source).map (·.kind)) := by
  obtain ⟨more, hmore, hpieces⟩ :=
    Builder.foldl_step_problems html .empty (pieces html source)
  have hproblems : (parse { html } source).problems =
      ((pieces html source).foldl (Builder.step html) .empty).problems := rfl
  have hattributes : attributesAll (parse { html } source).root.children =
      (pieces html source).flatMap (·.kind.attributes) := parse_attributes { html } source
  rw [hproblems, hmore] at hclean
  obtain rfl : more = [] := hclean
  rw [hattributes] at hquotable
  have hlength : (Cursor.ofString source).rest.length ≤ source.length :=
    Nat.le_of_eq String.length_toList
  refine piecesFrom_sound source.length hlength (loose_nil html _) ?_ ?_
  · intro q hq
    exact List.subset_nil.1 (hpieces q hq)
  · intro q hq a ha
    exact hquotable a (List.mem_flatMap.2 ⟨q, hq, ha⟩)

/-- A source that spells the pieces of another one, with its close tags renamed, has its tree. -/
theorem parse_of_normals {written : String} (hclean : (parse { html } source).problems = [])
    (hnormals : Separable html (Builder.empty.normals html (pieces html source)))
    (hwritten : written.toList = writePieces (Builder.empty.normals html (pieces html source))) :
    (parse { html } written).problems = [] ∧
      (parse { html } written).root.bare = (parse { html } source).root.bare := by
  have hlength : (writePieces (Builder.empty.normals html (pieces html source))).length ≤
      written.length := by
    rw [← hwritten, String.length_toList]
  obtain ⟨hkinds, hproblems⟩ := piecesFrom_separable hnormals hlength .first
  rw [← hwritten] at hkinds hproblems
  rw [parse_eq_finish] at hclean
  obtain ⟨hclean', halike⟩ := @Builder.foldl_step_alike html .empty .empty _ (pieces html written)
    Builder.empty_clean Builder.empty_clean ⟨rfl, rfl⟩ hclean hproblems hkinds
  rw [parse_eq_finish, parse_eq_finish]
  exact ⟨hclean'.problems, Builder.closeAll_bare halike.top halike.around⟩

/-- A source that is read without problems, whose unquoted attribute values can be quoted and whose
close tags are all written, is written as a source with the same tree. -/
theorem parse_write_of_written (hclean : (parse { html } source).problems = [])
    (hquotable : ∀ a ∈ attributesAll (parse { html } source).root.children,
      ∀ v ∈ a.value, v.Quotable)
    (hwritten : html = true ∨ hollowAll (parse { html } source).root.children = []) :
    (parse { html } (parse { html } source).root.write).problems = [] ∧
      (parse { html } (parse { html } source).root.write).root.bare =
        (parse { html } source).root.bare := by
  have hpieces := pieces_separable hclean hquotable
  have hbuilt : ((pieces html source).foldl (Builder.step html) .empty).problems = [] := hclean
  have hstart : Builder.Awaiting html Builder.empty.top Builder.empty.around := rfl
  obtain ⟨hnormals, -⟩ :=
    Builder.normals_separable hpieces Builder.empty_clean hstart hbuilt
  obtain ⟨hawaiting, htext⟩ :=
    Builder.foldl_step_text hpieces Builder.empty_clean hstart hbuilt
      (hwritten.imp_right (Builder.closeAll_hollow _ _ _).symm.trans)
  obtain ⟨hname, hroot⟩ := Builder.closeAll_text (Position.first.after source.toList) hawaiting
  refine parse_of_normals hclean hnormals ?_
  have hempty : (Builder.textIn Builder.empty.top Builder.empty.around).toList = [] := rfl
  rw [parse_root_write, if_pos hname, hroot, htext, hempty, List.nil_append]

end

/-- **A written tree is read back.** A page that is read without problems, and none of whose
unquoted attribute values contains both kinds of quotes, is written as a page that is read without
problems and has the same tree, up to places and quotes. -/
theorem parse_write_bare (source : String) (hclean : (parse {} source).problems = [])
    (hquotable : ∀ a ∈ attributesAll (parse {} source).root.children, ∀ v ∈ a.value, v.Quotable) :
    (parse {} (parse {} source).root.write).problems = [] ∧
      (parse {} (parse {} source).root.write).root.bare = (parse {} source).root.bare :=
  parse_write_of_written hclean hquotable (.inl rfl)

/-- A page with loose angle brackets, a bare value, a raw body, close tags in another case and an
element that is never closed. -/
def untidyPage : String :=
  "<UL id=main ><li class=a\"b>x < y &amp; <br><script>a</b/</script ></LI ><!-- > --></ul><p>end"

theorem parse_write_untidyPage :
    let written := "<UL id=\"main\"><li class='a\"b'>x < y &amp; <br><script>a</b/</script></li>" ++
      "<!-- > --></UL><p>end"
    (parse {} untidyPage).root.write = written ∧ (parse {} written).problems = [] ∧
      (parse {} written).root.bare = (parse {} untidyPage).root.bare := by
  intro written
  obtain ⟨hwritten, hclean, hquotable⟩ : (parse {} untidyPage).root.write = written ∧
      (parse {} untidyPage).problems = [] ∧
      ∀ a ∈ attributesAll (parse {} untidyPage).root.children, ∀ v ∈ a.value, v.Quotable := by
    decide +kernel
  refine ⟨hwritten, ?_⟩
  rw [← hwritten]
  exact parse_write_bare untidyPage hclean hquotable

end WidgetLint.Markup
