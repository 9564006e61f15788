import WidgetLint.Proofs.Markup.RoundTrip

/-!
# Nested tags

A word of open and close tags is properly nested if it denotes a forest. **Reading the text of a
word finds no problem and leaves no element unclosed exactly if the word is properly nested and not
too deep, and then the tree is the forest** (`parse_writeMarks_iff`).

One way, a nested word leaves a stack of open elements as it was (`Builder.foldl_step_denotes`).
The other way, whatever was read without problems is a stack of nested words with one open tag
between two of them (`Stacked`), and a stack without open tags is a nested word.
-/

namespace WidgetLint.Markup

open Text

/-! ## Words and forests -/

/-- An open or a close tag without attributes. -/
inductive Mark where
  | opening (name : String)
  | closing (name : String)
deriving DecidableEq, Repr

def Mark.name : Mark → String
  | opening name => name
  | closing name => name

def Mark.write : Mark → String
  | opening name => "<" ++ name ++ ">"
  | closing name => "</" ++ name ++ ">"

def writeMarks (word : List Mark) : String :=
  String.join (word.map Mark.write)

/-- A name that is read to its end and has no meaning of its own in html. -/
structure IsTagName (name : String) : Prop where
  read : (name? (.ofString name)).map (·.1) = some name
  void : isVoid name = false
  script : isScript name = false
  style : isStyle name = false

/-- A tree of names. -/
inductive Outline where
  | element (name : String) (children : List Outline)

mutual

/-- The number of elements on the longest path into a tree. -/
def Outline.height : Outline → Nat
  | .element _ children => heightAll children + 1

def heightAll : List Outline → Nat
  | [] => 0
  | tree :: rest => max tree.height (heightAll rest)

end

mutual

/-- The element that a tree of names stands for, without its place. -/
def Outline.node : Outline → Node
  | .element name children => .element (Tag.named name nowhere) (outlineNodes children)

def outlineNodes : List Outline → List Node
  | [] => []
  | tree :: rest => tree.node :: outlineNodes rest

end

/-- The word is properly nested and denotes the forest: the tags of an element enclose a word that
denotes its children, and agree in their names up to ASCII case. -/
inductive Denotes : List Mark → List Outline → Prop
  | nil : Denotes [] []
  | cons {name close : String} {inner later : List Mark} {children rest : List Outline} :
      sameIgnoringCase name close = true → Denotes inner children → Denotes later rest →
      Denotes (.opening name :: (inner ++ .closing close :: later))
        (.element name children :: rest)

mutual

/-- Whether a close tag was found for every element in a node. -/
def Node.allClosed : Node → Bool
  | .element tag children => !tag.unclosed && allClosedIn children
  | .leaf .. => true

def allClosedIn : List Node → Bool
  | [] => true
  | node :: rest => node.allClosed && allClosedIn rest

end

theorem heightAll_append (forest more : List Outline) :
    heightAll (forest ++ more) = max (heightAll forest) (heightAll more) := by
  induction forest with
  | nil => simp [heightAll]
  | cons tree forest ih => rw [List.cons_append, heightAll, heightAll, ih, Nat.max_assoc]

theorem Denotes.append {word more : List Mark} {forest rest : List Outline}
    (h : Denotes word forest) (hmore : Denotes more rest) :
    Denotes (word ++ more) (forest ++ rest) := by
  induction h with
  | nil => exact hmore
  | cons hname hinner _ _ ih =>
    rw [List.cons_append, List.append_assoc, List.cons_append]
    exact .cons hname hinner ih

theorem allClosedIn_append (nodes more : List Node) :
    allClosedIn (nodes ++ more) = (allClosedIn nodes && allClosedIn more) := by
  induction nodes with
  | nil => rfl
  | cons node nodes ih =>
    rw [List.cons_append, allClosedIn, allClosedIn, ih, Bool.and_assoc]

mutual

theorem Node.allClosed_bare : (node : Node) → node.bare.allClosed = node.allClosed
  | .element tag children => by
    rw [Node.bare, Node.allClosed, Node.allClosed, allClosedIn_bareAll children]
    rfl
  | .leaf .. => rfl

theorem allClosedIn_bareAll : (nodes : List Node) → allClosedIn (bareAll nodes) = allClosedIn nodes
  | [] => rfl
  | node :: rest => by
    rw [bareAll, allClosedIn, allClosedIn, Node.allClosed_bare node, allClosedIn_bareAll rest]

end

mutual

theorem Outline.node_allClosed : (tree : Outline) → tree.node.allClosed = true
  | .element name children => by
    rw [Outline.node, Node.allClosed, outlineNodes_allClosed children]
    rfl

theorem outlineNodes_allClosed : (forest : List Outline) →
    allClosedIn (outlineNodes forest) = true
  | [] => rfl
  | tree :: rest => by
    rw [outlineNodes, allClosedIn, Outline.node_allClosed tree, outlineNodes_allClosed rest]
    rfl

end

/-! ## Cutting the text of a word -/

/-- The piece that a tag is read as, without its place. -/
def Mark.kind : Mark → PieceKind
  | opening name => .opening (Tag.named name nowhere)
  | closing name => .closing name

theorem IsTagName.isName {name : String} (h : IsTagName name) : IsName name.toList = true := by
  obtain ⟨⟨found, next⟩, hread, hfound⟩ := Option.map_eq_some_iff.1 h.read
  obtain rfl : found = name := hfound
  exact (name?_isName hread).1

theorem Mark.kind_bare (m : Mark) : m.kind.bare = m.kind := by
  cases m <;> rfl

theorem Mark.kind_write (m : Mark) : m.kind.write = m.write := by
  cases m with
  | opening name =>
    simp [Mark.kind, PieceKind.write, Tag.writeOpening, Tag.named, Mark.write, String.join]
  | closing name => rfl

theorem Mark.kind_sound {m : Mark} (h : IsTagName m.name) : m.kind.Sound true := by
  cases m with
  | opening name =>
    refine .opening ⟨h.isName, nofun, rfl⟩ rfl h.void ?_
    have hscript : isScript name = false := h.script
    have hstyle : isStyle name = false := h.style
    simp [isRaw, Tag.named, hscript, hstyle]
  | closing name => exact .closing h.isName

theorem toList_writeMarks (word : List Mark) :
    (writeMarks word).toList = writePieces (word.map Mark.kind) := by
  rw [writeMarks, String.toList_join, writePieces, List.flatMap_map, List.flatMap_map]
  simp only [Mark.kind_write]

theorem separable_kinds {word : List Mark} (h : ∀ m ∈ word, IsTagName m.name) :
    Separable true (word.map Mark.kind) := by
  induction word with
  | nil => exact .nil
  | cons m word ih =>
    obtain ⟨hm, hword⟩ := List.forall_mem_cons.1 h
    exact .piece (Mark.kind_sound hm) (ih hword)

/-- The pieces are those of the word, and nothing is wrong with them. -/
structure Spells (pieces : List Piece) (word : List Mark) : Prop where
  kinds : pieces.map (·.kind.bare) = word.map Mark.kind
  clean : ∀ piece ∈ pieces, piece.problems = []

theorem pieces_spells {word : List Mark} (h : ∀ m ∈ word, IsTagName m.name) :
    Spells (pieces true (writeMarks word)) word := by
  have hlength : (writePieces (word.map Mark.kind)).length ≤ (writeMarks word).length := by
    rw [← toList_writeMarks, String.length_toList]
  obtain ⟨hkinds, hclean⟩ := piecesFrom_separable (separable_kinds h) hlength .first
  rw [← toList_writeMarks, List.map_map] at hkinds
  rw [← toList_writeMarks] at hclean
  refine ⟨hkinds.trans ?_, hclean⟩
  exact List.map_congr_left fun m _ => m.kind_bare

theorem Spells.cons {pieces : List Piece} {m : Mark} {word : List Mark}
    (h : Spells pieces (m :: word)) :
    ∃ piece rest, pieces = piece :: rest ∧ piece.kind.bare = m.kind ∧ piece.problems = [] ∧
      Spells rest word := by
  obtain ⟨piece, rest, rfl, hkind, hkinds⟩ := List.map_eq_cons_iff.1 h.kinds
  obtain ⟨hpiece, hrest⟩ := List.forall_mem_cons.1 h.clean
  exact ⟨piece, rest, rfl, hkind, hpiece, hkinds, hrest⟩

theorem Spells.append {pieces : List Piece} {word more : List Mark}
    (h : Spells pieces (word ++ more)) :
    ∃ first later, pieces = first ++ later ∧ Spells first word ∧ Spells later more := by
  have hkinds := h.kinds
  rw [List.map_append] at hkinds
  obtain ⟨first, later, rfl, hfirst, hlater⟩ := List.map_eq_append_iff.1 hkinds
  obtain ⟨hclean, hclean'⟩ := List.forall_mem_append.1 h.clean
  exact ⟨first, later, rfl, ⟨hfirst, hclean⟩, hlater, hclean'⟩

theorem allClosed_of_bare {root : Element} {nodes : List Node}
    (h : root.bare = ⟨Tag.named rootName nowhere, nodes⟩) (hnodes : allClosedIn nodes = true) :
    root.toNode.allClosed = true := by
  have hbare : root.toNode.bare = root.bare.toNode := by
    rw [Element.toNode, Node.bare]
    rfl
  rw [← Node.allClosed_bare, hbare, h, Element.toNode, Node.allClosed, hnodes]
  rfl

namespace Builder

variable {b built inner : Builder} {pieces : List Piece} {word done : List Mark}
  {names : List String} {nodes : List Node} {problems : List Problem}

/-! ## What pieces add -/

/-- The other builder has the same elements open, with nodes added to the innermost one, and has found
more problems. -/
structure Adds (b built : Builder) (nodes : List Node) (problems : List Problem) : Prop where
  around : built.around = b.around
  tag : built.top.tag = b.top.tag
  flattened : built.flattened = b.flattened
  children : bareAll built.top.children = bareAll b.top.children ++ nodes
  problems : built.problems = b.problems ++ problems

theorem Adds.refl (b : Builder) : Adds b b [] [] :=
  ⟨rfl, rfl, rfl, (List.append_nil _).symm, (List.append_nil _).symm⟩

theorem Adds.trans {later : Builder} {more : List Node} {others : List Problem}
    (h : Adds b built nodes problems) (h' : Adds built later more others) :
    Adds b later (nodes ++ more) (problems ++ others) :=
  ⟨h'.around.trans h.around, h'.tag.trans h.tag, h'.flattened.trans h.flattened,
    by rw [h'.children, h.children, List.append_assoc],
    by rw [h'.problems, h.problems, List.append_assoc]⟩

theorem Adds.depth (h : Adds b built nodes problems) : built.depth = b.depth := by
  rw [Builder.depth, h.around, Builder.depth]

theorem Adds.clean (h : Adds b built nodes []) (hclean : b.Clean) : built.Clean :=
  ⟨by rw [h.problems, hclean.problems, List.append_nil], h.flattened.trans hclean.flattened⟩

theorem adds_push (b : Builder) (node : Node) : Adds b (b.push node) [node.bare] [] :=
  ⟨rfl, rfl, rfl, bareAll_append _ _, (List.append_nil _).symm⟩

/-- The step of an open tag, the children and the step of a close tag add an element. -/
theorem Adds.closed {tag : Tag}
    (h : Adds { b with top := ⟨tag, []⟩, around := b.top :: b.around } inner nodes problems)
    (stop : Position) :
    Adds b (inner.closed b.top b.around stop) [.element tag.bare nodes] problems := by
  have hchildren : bareAll inner.top.children = nodes := h.children
  refine ⟨rfl, rfl, h.flattened, ?_, h.problems⟩
  simp only [Builder.closed, bareAll_append, bareAll, Node.bare, h.tag, hchildren]
  rfl

theorem finish_adds (stop : Position) (h : Adds .empty b nodes problems) :
    (b.finish stop).root.bare = ⟨Tag.named rootName nowhere, nodes⟩ := by
  have hchildren : bareAll b.top.children = nodes := h.children
  simp only [finish, h.around, empty, closeAll, Element.bare, h.tag, hchildren]
  rfl

/-! ## A nested word is read as its forest -/

theorem foldl_step_denotes {forest : List Outline} (h : Denotes word forest)
    (hspells : Spells pieces word) (hclean : b.Clean)
    (hdepth : b.depth + heightAll forest ≤ maxDepth) :
    Adds b (pieces.foldl (step true) b) (outlineNodes forest) [] := by
  induction h generalizing b pieces with
  | nil =>
    obtain rfl : pieces = [] := List.map_eq_nil_iff.1 hspells.kinds
    exact .refl b
  | @cons name close inner later children rest hname _ _ ihinner ihlater =>
    rw [heightAll, Outline.height] at hdepth
    obtain ⟨first, others, rfl, hfirst, hfirstClean, hothers⟩ := hspells.cons
    obtain ⟨inside, others, rfl, hinside, hothers⟩ := hothers.append
    obtain ⟨last, others, rfl, hlast, hlastClean, hothers⟩ := hothers.cons
    obtain ⟨tag, hopening, htag⟩ := PieceKind.opening_of_bare hfirst
    have hclosing := PieceKind.closing_of_bare hlast
    have hroom : b.depth ≠ maxDepth := by omega
    rw [List.foldl_cons, step_opening hfirstClean hopening hroom, List.foldl_append, List.foldl_cons]
    -- the children, one level deeper
    let opened : Builder := { b with top := ⟨tag, []⟩, around := b.top :: b.around }
    have hopened : opened.Clean := ⟨hclean.problems, hclean.flattened⟩
    have hinner : opened.depth + heightAll children ≤ maxDepth := by
      have hdeeper : opened.depth = b.depth + 1 := rfl
      omega
    have hchildren := ihinner hinside hopened hinner
    have htagName : tag.name = name := congrArg Tag.name htag
    have hmatch : namesMatch true (inside.foldl (step true) opened).top.tag.name close = true := by
      rw [hchildren.tag, htagName]
      exact hname
    rw [step_closing (hchildren.clean hopened).flattened hlastClean hclosing hchildren.around hmatch]
    have helement := hchildren.closed last.span.stop
    rw [htag] at helement
    -- what follows the element
    have hlater : b.depth + heightAll rest ≤ maxDepth := by omega
    exact helement.trans (ihlater hothers (helement.clean hclean) (helement.depth ▸ hlater))

/-! ## What was read without problems is nested -/

/-- The word is made of nested words with one open tag between two of them, which are the ones whose
names are given, innermost first. -/
inductive Stacked : List Mark → List String → Prop
  | base {word : List Mark} {forest : List Outline} : Denotes word forest →
      heightAll forest < maxDepth → Stacked word []
  | inside {before word : List Mark} {forest : List Outline} {name : String}
      {names : List String} : Stacked before names → Denotes word forest →
      names.length + heightAll forest + 1 < maxDepth →
      Stacked (before ++ .opening name :: word) (name :: names)

theorem Stacked.append {forest : List Outline} (h : Stacked done names) (hword : Denotes word forest)
    (hheight : names.length + heightAll forest < maxDepth) : Stacked (done ++ word) names := by
  cases h with
  | base hdone hlow =>
    refine .base (hdone.append hword) ?_
    rw [heightAll_append]
    simp only [List.length_nil] at hheight
    omega
  | inside hbefore hdone hlow =>
    rw [List.append_assoc, List.cons_append]
    refine .inside hbefore (hdone.append hword) ?_
    rw [heightAll_append]
    simp only [List.length_cons] at hheight
    omega

theorem Stacked.opening (h : Stacked done names) (hroom : names.length + 1 < maxDepth)
    (name : String) : Stacked (done ++ [.opening name]) (name :: names) :=
  .inside h .nil hroom

theorem Stacked.closing {name close : String} (h : Stacked done (name :: names))
    (hname : sameIgnoringCase name close = true) : Stacked (done ++ [.closing close]) names := by
  cases h with
  | inside hbefore hword hheight =>
    rw [List.append_assoc, List.cons_append]
    refine hbefore.append (.cons hname hword .nil) ?_
    simp only [heightAll, Outline.height]
    omega

theorem Stacked.length_lt (h : Stacked word names) : names.length < maxDepth := by
  cases h with
  | base => decide
  | inside _ _ hheight =>
    rw [List.length_cons]
    omega

/-- The names of the open elements, innermost first. -/
def openNames (b : Builder) : List String :=
  b.top.tag.name :: b.around.map (·.tag.name)

/-- What was read so far is the word, and its open tags are the open elements. -/
structure Has (b : Builder) (word : List Mark) (names : List String) : Prop where
  clean : b.Clean
  stacked : Stacked word names
  names : b.openNames = names ++ [rootName]

theorem Has.depth_eq (h : b.Has word names) : b.depth = names.length + 1 := by
  have hlength := congrArg List.length h.names
  simpa [openNames, depth] using hlength

theorem Has.step {piece : Piece} {m : Mark} (h : b.Has done names) (hkind : piece.kind.bare = m.kind)
    (hpiece : piece.problems = []) (hclean : (b.step true piece).problems = []) :
    ∃ names', (b.step true piece).Has (done ++ [m]) names' := by
  have hafter := step_clean h.clean hpiece hclean
  have hnames := h.names
  rcases step_cases h.clean hclean with ⟨tag, hopening, hdepth⟩ |
    ⟨close, parent, around, hclosing, haround, hname⟩ | ⟨node, hwhole⟩
  · rw [hopening] at hkind
    cases m with
    | closing close => cases hkind
    | opening name =>
      have hroom : names.length + 1 < maxDepth :=
        Nat.lt_of_le_of_ne h.stacked.length_lt (h.depth_eq ▸ hdepth)
      have htag : tag.name = name := congrArg Tag.name (PieceKind.opening.inj hkind)
      refine ⟨name :: names, hafter, h.stacked.opening hroom name, ?_⟩
      rw [step_opening hpiece hopening hdepth, ← htag, List.cons_append, ← hnames]
      rfl
  · rw [hclosing] at hkind
    cases m with
    | opening name => cases hkind
    | closing close' =>
      obtain rfl : close = close' := PieceKind.closing.inj hkind
      rw [openNames, haround, List.map_cons] at hnames
      cases names with
      | nil => cases (List.cons.inj hnames).2
      | cons name names =>
        rw [List.cons_append] at hnames
        obtain ⟨rfl, hbelow⟩ := List.cons.inj hnames
        refine ⟨names, hafter, h.stacked.closing hname, ?_⟩
        rw [step_closing h.clean.flattened hpiece hclosing haround hname, ← hbelow]
        rfl
  · rw [hwhole] at hkind
    cases m <;> cases hkind

theorem Has.foldl_step (h : b.Has done names) (hspells : Spells pieces word)
    (hclean : (pieces.foldl (Builder.step true) b).problems = []) :
    ∃ names', (pieces.foldl (Builder.step true) b).Has (done ++ word) names' := by
  induction word generalizing b done names pieces with
  | nil =>
    obtain rfl : pieces = [] := List.map_eq_nil_iff.1 hspells.kinds
    exact ⟨names, by rwa [List.append_nil]⟩
  | cons m word ih =>
    obtain ⟨piece, rest, rfl, hkind, hpiece, hrest⟩ := hspells.cons
    obtain ⟨names', hstep⟩ := h.step hkind hpiece (problems_of_foldl hclean).2
    rw [List.append_cons]
    exact ih (b := b.step true piece) hstep hrest hclean

theorem empty_has : Builder.empty.Has [] [] :=
  ⟨empty_clean, .base .nil (by decide), rfl⟩

/-! ## The end of the text -/

theorem closeAll_of_unclosed (stop : Position) {top : Element} (around : List Element)
    (h : allClosedIn top.children = false) :
    (closeAll stop top around).toNode.allClosed = false := by
  induction around generalizing top with
  | nil =>
    rw [closeAll, Element.toNode, Node.allClosed, h, Bool.and_false]
  | cons parent around ih =>
    rw [closeAll]
    refine ih ?_
    rw [allClosedIn_append, allClosedIn, Node.allClosed, Bool.not_true, Bool.false_and,
      Bool.false_and, Bool.and_false]

theorem around_eq_nil_of_closeAll {stop : Position} {top : Element} {around : List Element}
    (h : (closeAll stop top around).toNode.allClosed = true) : around = [] := by
  cases around with
  | nil => rfl
  | cons parent around =>
    rw [closeAll, closeAll_of_unclosed] at h
    · cases h
    · rw [allClosedIn_append, allClosedIn, Node.allClosed, Bool.not_true, Bool.false_and,
        Bool.false_and, Bool.and_false]

end Builder

/-- **Tags are matched exactly in nested words.** The text of a word is read without problems and
with all elements closed if and only if the word is properly nested, at most 255 elements deep, and
then the tree is the forest that the word denotes, with the names of the open tags. -/
theorem parse_writeMarks_iff (word : List Mark) (hword : ∀ m ∈ word, IsTagName m.name) :
    let document := parse {} (writeMarks word)
    (document.problems = [] ∧ document.root.toNode.allClosed = true ↔
      ∃ forest, Denotes word forest ∧ heightAll forest ≤ maxDepth - 1) ∧
    ∀ forest, Denotes word forest → heightAll forest ≤ maxDepth - 1 →
      document.root.bare = ⟨Tag.named rootName nowhere, outlineNodes forest⟩ := by
  intro document
  have hspells := pieces_spells hword
  have hgrows (forest : List Outline) (hdenotes : Denotes word forest)
      (hheight : heightAll forest ≤ maxDepth - 1) :
      Builder.Adds .empty ((pieces true (writeMarks word)).foldl (Builder.step true) .empty)
        (outlineNodes forest) [] :=
    Builder.foldl_step_denotes hdenotes hspells Builder.empty_clean (by
      have hdepth : Builder.empty.depth = 1 := rfl
      have hmax : maxDepth = 256 := rfl
      omega)
  have htree (forest : List Outline) (hdenotes : Denotes word forest)
      (hheight : heightAll forest ≤ maxDepth - 1) :
      document.root.bare = ⟨Tag.named rootName nowhere, outlineNodes forest⟩ :=
    Builder.finish_adds _ (hgrows forest hdenotes hheight)
  refine ⟨⟨?_, ?_⟩, htree⟩
  · rintro ⟨hproblems, hclosed⟩
    obtain ⟨names, hhas⟩ := Builder.empty_has.foldl_step hspells hproblems
    have haround : ((pieces true (writeMarks word)).foldl (Builder.step true) .empty).around = [] :=
      Builder.around_eq_nil_of_closeAll hclosed
    have hlength := congrArg List.length hhas.names
    rw [Builder.openNames, haround] at hlength
    obtain rfl : names = [] := by
      simpa using hlength
    cases hhas.stacked with
    | base hdenotes hheight => exact ⟨_, hdenotes, Nat.le_pred_of_lt hheight⟩
  · rintro ⟨forest, hdenotes, hheight⟩
    exact ⟨(hgrows forest hdenotes hheight).problems,
      allClosed_of_bare (htree forest hdenotes hheight) (outlineNodes_allClosed forest)⟩

/-- The names are compared without regard to case, and digits and hyphens may stand in them. -/
theorem parse_nestedWord :
    let word := [Mark.opening "Ul", .opening "li", .closing "LI", .opening "x-1", .closing "x-1",
      .closing "uL"]
    let document := parse {} "<Ul><li></LI><x-1></x-1></uL>"
    (∀ m ∈ word, IsTagName m.name) ∧ document.problems = [] ∧
      document.root.toNode.allClosed = true ∧
      document.root.bare = ⟨Tag.named rootName nowhere,
        outlineNodes [.element "Ul" [.element "li" [], .element "x-1" []]]⟩ := by
  intro word document
  have hword : ∀ m ∈ word, IsTagName m.name := by
    simp only [word, List.forall_mem_cons, Mark.name]
    refine ⟨?_, ?_, ?_, ?_, ?_, ?_, nofun⟩ <;>
      exact ⟨by decide +kernel, by decide +kernel, by decide +kernel, by decide +kernel⟩
  have hdenotes : Denotes word [.element "Ul" [.element "li" [], .element "x-1" []]] :=
    @Denotes.cons "Ul" "uL" [.opening "li", .closing "LI", .opening "x-1", .closing "x-1"] [] _ _
      (by decide +kernel)
      (@Denotes.cons "li" "LI" [] _ _ _ (by decide +kernel) .nil
        (@Denotes.cons "x-1" "x-1" [] _ _ _ (by decide +kernel) .nil .nil))
      .nil
  have hheight : heightAll [.element "Ul" [.element "li" [], .element "x-1" []]] ≤ maxDepth - 1 := by
    decide
  have hwritten : writeMarks word = "<Ul><li></LI><x-1></x-1></uL>" := by decide +kernel
  obtain ⟨hiff, htree⟩ := parse_writeMarks_iff word hword
  rw [hwritten] at hiff htree
  obtain ⟨hproblems, hclosed⟩ := hiff.2 ⟨_, hdenotes, hheight⟩
  exact ⟨hword, hproblems, hclosed, htree _ hdenotes hheight⟩

end WidgetLint.Markup
