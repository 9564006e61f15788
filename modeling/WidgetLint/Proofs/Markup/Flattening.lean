import WidgetLint.Proofs.Markup.Nesting

/-!
# Flattened elements

A forest of elements and texts is written with a close tag for every open tag. **Whatever its depth,
its text is read as the forest in which the content of every element on the last level that may be
open is replaced by a list of all that is in it, and the only problems are those of the elements on
the next level, one for each** (`parse_flattens`).

Where as many elements are open as may be, a forest adds its list to the innermost one, and a
problem for each of its elements unless one was flattened around it (`Builder.foldl_step_full`).
With room for more, an element is closed by its own close tag, and its content is of the former kind
or of this one (`Builder.foldl_step_room`).
-/

namespace WidgetLint.Markup

open Text

/-! ## Forests and their text -/

/-- A tree of elements and texts. -/
inductive Draft where
  | element (name : String) (children : List Draft)
  | text (value : String)

def openTagText (name : String) : List Char :=
  '<' :: (name.toList ++ ['>'])

def closeTagText (name : String) : List Char :=
  '<' :: '/' :: (name.toList ++ ['>'])

mutual

def Draft.chars : Draft → List Char
  | .element name children => openTagText name ++ (charsAll children ++ closeTagText name)
  | .text value => value.toList

def charsAll : List Draft → List Char
  | [] => []
  | tree :: rest => tree.chars ++ charsAll rest

end

/-- The forest can be told from its text: its elements are named and are not special in html, and
its texts are not empty, hold no markup and are not next to one another. -/
inductive Proper : List Draft → Prop
  | nil : Proper []
  | element {name : String} {children rest : List Draft} : IsTagName name → Proper children →
      Proper rest → Proper (.element name children :: rest)
  | text {value : String} {rest : List Draft} : value ≠ "" → '<' ∉ value.toList →
      '&' ∉ value.toList → (∀ other, .text other ∉ rest.head?) → Proper rest →
      Proper (.text value :: rest)

/-! ## Flattened forests -/

mutual

/-- The elements and texts of a tree, outer ones first, all elements without content. -/
def Draft.listing : Draft → List Node
  | .element name children => .element (Tag.named name nowhere) [] :: listingAll children
  | .text value => [.leaf (.text value) nowhere]

def listingAll : List Draft → List Node
  | [] => []
  | tree :: rest => tree.listing ++ listingAll rest

end

mutual

/-- The node of a tree that is `level` steps below the root, with lists for the content of the
elements on the last level that may be open. -/
def Draft.flatten (level : Nat) : Draft → Node
  | .element name children => .element (Tag.named name nowhere)
      (if level = maxDepth - 1 then listingAll children else flattenAll (level + 1) children)
  | .text value => .leaf (.text value) nowhere

def flattenAll (level : Nat) : List Draft → List Node
  | [] => []
  | tree :: rest => tree.flatten level :: flattenAll level rest

end

mutual

/-- The places of the open tags of the elements `maxDepth` steps below the root, in the text of a
tree that is `level` steps below it. -/
def Draft.deepTags (level : Nat) (position : Position) : Draft → List Position
  | .element name children =>
    if level = maxDepth then [position]
    else deepTagsAll (level + 1) (position.after (openTagText name)) children
  | .text _ => []

def deepTagsAll (level : Nat) (position : Position) : List Draft → List Position
  | [] => []
  | tree :: rest =>
    tree.deepTags level position ++ deepTagsAll level (position.after tree.chars) rest

end

section
variable {name : String} {children rest : List Draft} {level : Nat} {p : Position}

theorem deepTagsAll_full : deepTagsAll maxDepth p (.element name children :: rest) =
    p :: deepTagsAll maxDepth (p.after (Draft.element name children).chars) rest := by
  rw [deepTagsAll, Draft.deepTags, if_pos rfl, List.singleton_append]

theorem deepTagsAll_room (h : level ≠ maxDepth) :
    deepTagsAll level p (.element name children :: rest) =
      deepTagsAll (level + 1) (p.after (openTagText name)) children ++
        deepTagsAll level (p.after (Draft.element name children).chars) rest := by
  rw [deepTagsAll, Draft.deepTags, if_neg h]

end

/-! ## Cutting the text of a forest -/

section
variable {rest : List Char} {name : String}

theorem piece?_openTagText (h : IsTagName name) (p : Position) :
    piece? true ⟨openTagText name ++ rest, p⟩ =
      some (⟨.opening (Tag.named name ⟨p, p.after (openTagText name)⟩),
        ⟨p, p.after (openTagText name)⟩, []⟩, ⟨rest, p.after (openTagText name)⟩) := by
  have htext : openTagText name ++ rest = '<' :: (name.toList ++ '>' :: rest) := by
    simp [openTagText]
  have hafter : ((p.next '<').after name.toList).next '>' = p.after (openTagText name) := by
    simp [openTagText, Position.after_append]
  have hend : ∀ d ∈ ('>' :: rest).head?, isNameChar d = false := by
    rintro d ⟨⟩
    decide
  have hname : name? ((⟨'<' :: (name.toList ++ '>' :: rest), p⟩ : Cursor).drop 1) =
      some (String.ofList name.toList, ⟨'>' :: rest, (p.next '<').after name.toList⟩) :=
    name?_append h.isName hend
  have hblank : skipBlanks ⟨'>' :: rest, (p.next '<').after name.toList⟩ =
      ⟨'>' :: rest, (p.next '<').after name.toList⟩ := skipBlanks_cons (by decide)
  have hrest : tagRest ((skipBlanks ⟨'>' :: rest, (p.next '<').after name.toList⟩).rest.length + 1)
      (skipBlanks ⟨'>' :: rest, (p.next '<').after name.toList⟩) =
        ⟨[], .closed, [], ⟨rest, ((p.next '<').after name.toList).next '>'⟩⟩ := by
    rw [hblank]
    rfl
  obtain ⟨first, others, hchars, hstart⟩ := IsName.cons h.isName
  have hpiece : piece? true ⟨'<' :: (name.toList ++ '>' :: rest), p⟩ =
      openTag? true ⟨'<' :: (name.toList ++ '>' :: rest), p⟩ := by
    rw [hchars]
    refine piece?_openTag ?_ ?_ <;> rintro rfl <;> exact absurd hstart (by decide)
  rw [String.ofList_toList] at hname
  rw [htext, hpiece, openTag?_eq hname hrest (by decide), h.void, h.script, h.style, ← hafter]
  rfl

theorem piece?_closeTagText (h : IsTagName name) (p : Position) :
    piece? true ⟨closeTagText name ++ rest, p⟩ =
      some (⟨.closing name, ⟨p, p.after (closeTagText name)⟩, []⟩,
        ⟨rest, p.after (closeTagText name)⟩) := by
  have htext : closeTagText name ++ rest = '<' :: '/' :: (name.toList ++ '>' :: rest) := by
    simp [closeTagText]
  rw [htext]
  exact piece?_closeTag h.isName p

end

/-- The pieces are those of the text of a forest that begins at a place. -/
inductive CutsTo : Position → List Draft → List Piece → Prop
  | nil {p : Position} : CutsTo p [] []
  | element {p inner behind : Position} {name : String} {children rest : List Draft}
      {inside others : List Piece} : CutsTo inner children inside → CutsTo behind rest others →
      inner = p.after (openTagText name) → behind = p.after (Draft.element name children).chars →
      CutsTo p (.element name children :: rest)
        (⟨.opening (Tag.named name ⟨p, inner⟩), ⟨p, inner⟩, []⟩ ::
          (inside ++ ⟨.closing name, ⟨inner.after (charsAll children), behind⟩, []⟩ :: others))
  | text {p behind : Position} {value : String} {rest : List Draft} {others : List Piece} :
      CutsTo behind rest others → behind = p.after value.toList →
      CutsTo p (.text value :: rest)
        (⟨.whole (.leaf (.text value) ⟨p, behind⟩), ⟨p, behind⟩, []⟩ :: others)

/-- No text goes on in what follows. -/
def Breaks (rest : List Char) : Prop :=
  ∀ p, rest = [] ∨ (piece? true ⟨rest, p⟩).isSome = true

theorem Breaks.closeTag {name : String} (h : IsTagName name) (rest : List Char) :
    Breaks (closeTagText name ++ rest) := by
  intro p
  rw [piece?_closeTagText h]
  exact .inr rfl

theorem Proper.breaks {forest : List Draft} {rest : List Char} (h : Proper forest)
    (hrest : Breaks rest) (hhead : ∀ value, .text value ∉ forest.head?) :
    Breaks (charsAll forest ++ rest) := by
  cases h with
  | nil => exact hrest
  | element hname hchildren hrest =>
    intro p
    rw [charsAll, Draft.chars, List.append_assoc, List.append_assoc, piece?_openTagText hname]
    exact .inr rfl
  | text => exact absurd rfl (hhead _)

/-- The text of a forest is cut into its pieces, and what follows it goes on behind them. -/
theorem piecesFrom_proper {forest : List Draft} (h : Proper forest) {rest : List Char}
    (hrest : Breaks rest) {fuel : Nat} (hfuel : (charsAll forest ++ rest).length ≤ fuel)
    (p : Position) :
    ∃ others more, CutsTo p forest others ∧ rest.length ≤ more ∧
      piecesFrom true fuel p [] ⟨charsAll forest ++ rest, p⟩ = others ++
        piecesFrom true more (p.after (charsAll forest)) [] ⟨rest, p.after (charsAll forest)⟩ := by
  induction h generalizing fuel p rest with
  | nil => exact ⟨[], fuel, .nil, hfuel, rfl⟩
  | @element name children others hname _ _ ihchildren ihothers =>
    have htext : charsAll (.element name children :: others) ++ rest = openTagText name ++
        (charsAll children ++ (closeTagText name ++ (charsAll others ++ rest))) := by
      simp [charsAll, Draft.chars]
    have hopenNe : openTagText name ≠ [] := List.cons_ne_nil _ _
    have hcloseNe : closeTagText name ≠ [] := List.cons_ne_nil _ _
    have hopen := List.length_pos_iff.2 hopenNe
    have hclose := List.length_pos_iff.2 hcloseNe
    rw [htext, List.length_append] at hfuel
    obtain ⟨fuel, rfl⟩ : ∃ n, fuel = n + 1 := Nat.exists_eq_add_of_le' (by omega)
    have hfuel' : (charsAll children ++ (closeTagText name ++ (charsAll others ++ rest))).length ≤
        fuel := by
      omega
    have hbreaks := Breaks.closeTag hname (charsAll others ++ rest)
    obtain ⟨inside, inner, hinside, hinner, hinsidePieces⟩ :=
      ihchildren hbreaks hfuel' (p.after (openTagText name))
    rw [List.length_append] at hinner
    obtain ⟨inner, rfl⟩ : ∃ n, inner = n + 1 := Nat.exists_eq_add_of_le' (by omega)
    have hinner' : (charsAll others ++ rest).length ≤ inner := by omega
    obtain ⟨behind, more, hbehind, hmore, hbehindPieces⟩ :=
      ihothers hrest hinner' (p.after (Draft.element name children).chars)
    have hplace : ((p.after (openTagText name)).after (charsAll children)).after
        (closeTagText name) = p.after (Draft.element name children).chars := by
      simp [Draft.chars, Position.after_append]
    refine ⟨_, more, .element hinside hbehind rfl rfl, hmore, ?_⟩
    rw [htext, piecesFrom_piece (piece?_openTagText hname p) (by simp [hopenNe]), hinsidePieces,
      piecesFrom_piece (piece?_closeTagText hname _) (by simp [hcloseNe]), hplace, hbehindPieces]
    simp [charsAll, Position.after_append]
  | @text value others hne hangle hand hhead hothers ih =>
    rw [charsAll, Draft.chars, List.append_assoc, List.length_append] at hfuel
    obtain ⟨fuel, rfl⟩ := Nat.exists_eq_add_of_le (Nat.le_trans (Nat.le_add_right _ _) hfuel)
    obtain ⟨pieces, more, hcuts, hmore, hpieces⟩ :=
      ih hrest (Nat.le_of_add_le_add_left hfuel) (p.after value.toList)
    refine ⟨_, more, .text hcuts rfl, hmore, ?_⟩
    rw [charsAll, Draft.chars, List.append_assoc, piecesFrom_text hangle hand,
      piecesFrom_flush _ _ _ (hothers.breaks hrest hhead _), hpieces, Position.after_append]
    simp [textPiece, hne]

theorem pieces_proper {forest : List Draft} (h : Proper forest) :
    CutsTo .first forest (pieces true (String.ofList (charsAll forest))) := by
  have hfuel : (charsAll forest ++ []).length ≤ (String.ofList (charsAll forest)).length := by simp
  obtain ⟨others, more, hcuts, -, hpieces⟩ := piecesFrom_proper h (fun _ => .inl rfl) hfuel .first
  rw [List.append_nil, piecesFrom_nil] at hpieces
  have hnone (q : Position) : textPiece q [] q = [] := rfl
  rw [pieces, Cursor.ofString, String.toList_ofList, hpieces, hnone, List.append_nil]
  exact hcuts

namespace Builder

variable {b inner : Builder} {piece : Piece} {pieces : List Piece} {nodes : List Node} {tag : Tag}
  {forest : List Draft} {p : Position}

/-! ## Where as many elements are open as may be -/

/-- The builder after the open tag of an element for which there is no room. -/
def flattening (b : Builder) (tag : Tag) : Builder where
  top := { b.top with children := b.top.children ++ [.element tag []] }
  around := b.around
  flattened := b.flattened + 1
  problems := b.problems ++ if b.flattened = 0 then [⟨.nestedTooDeep, tag.span.start⟩] else []

theorem step_opening_full (hpiece : piece.problems = []) (hkind : piece.kind = .opening tag)
    (hdepth : b.depth = maxDepth) : b.step true piece = b.flattening tag := by
  unfold step
  simp only [b.with_problems hpiece, hkind]
  rw [enter, if_pos hdepth, flattening]
  split
  · rfl
  · rw [List.append_nil]
    rfl

theorem step_closing_flattened (hpiece : piece.problems = []) {name : String}
    (hkind : piece.kind = .closing name) (hflat : 0 < b.flattened) :
    b.step true piece = { b with flattened := b.flattened - 1 } := by
  unfold step
  simp only [b.with_problems hpiece, hkind]
  rw [close, if_pos hflat]

/-- Such an element is added without its content, which is added behind it; it is a problem unless
another one was flattened around it. -/
theorem Adds.unnested (h : Adds (b.flattening tag) inner nodes []) :
    Adds b { inner with flattened := inner.flattened - 1 } (.element tag.bare [] :: nodes)
      (if b.flattened = 0 then [⟨.nestedTooDeep, tag.span.start⟩] else []) := by
  refine ⟨h.around, h.tag, ?_, h.children.trans ?_, h.problems.trans (List.append_nil _)⟩
  · rw [h.flattened]
    rfl
  · simp [flattening, bareAll_append, bareAll, Node.bare]

/-- A forest is added as a list, and each of its elements is a problem unless one was flattened
around them. -/
theorem foldl_step_full (h : CutsTo p forest pieces) (hdepth : b.depth = maxDepth) :
    Adds b (pieces.foldl (step true) b) (listingAll forest)
      (if b.flattened = 0 then (deepTagsAll maxDepth p forest).map (⟨.nestedTooDeep, ·⟩)
        else []) := by
  induction h generalizing b with
  | nil =>
    rw [deepTagsAll, List.map_nil, ite_self]
    exact .refl b
  | @text p behind value rest others _ hbehind ih =>
    subst hbehind
    rw [List.foldl_cons, step_whole rfl rfl]
    exact (adds_push b (.leaf (.text value) _)).trans (ih hdepth)
  | @element p first behind name children rest inside others _ _ _ hbehind ihchildren ihrest =>
    subst hbehind
    let opened := b.flattening (Tag.named name ⟨p, first⟩)
    have hopened : opened.depth = maxDepth := hdepth
    have hinner : opened.flattened ≠ 0 := Nat.succ_ne_zero b.flattened
    have hchildren := ihchildren hopened
    rw [if_neg hinner] at hchildren
    have hpos : 0 < (inside.foldl (step true) opened).flattened :=
      hchildren.flattened ▸ Nat.succ_pos b.flattened
    have helement := hchildren.unnested
    have hrest := ihrest (helement.depth.trans hdepth)
    rw [helement.flattened] at hrest
    rw [List.foldl_cons, step_opening_full rfl rfl hdepth, List.foldl_append, List.foldl_cons,
      step_closing_flattened rfl rfl hpos, deepTagsAll_full]
    have hadds := helement.trans hrest
    by_cases hzero : b.flattened = 0
    · rw [if_pos hzero, if_pos hzero] at hadds
      rw [if_pos hzero]
      exact hadds
    · rw [if_neg hzero, if_neg hzero] at hadds
      rw [if_neg hzero]
      exact hadds

/-! ## Where there is room -/

/-- A forest is added with the content of its elements, up to the last level that may be open. -/
theorem foldl_step_room (h : CutsTo p forest pieces) (hflat : b.flattened = 0)
    (hdepth : b.depth < maxDepth) :
    Adds b (pieces.foldl (step true) b) (flattenAll b.depth forest)
      ((deepTagsAll b.depth p forest).map (⟨.nestedTooDeep, ·⟩)) := by
  induction h generalizing b with
  | nil => exact .refl b
  | @text p behind value rest others _ hbehind ih =>
    subst hbehind
    rw [List.foldl_cons, step_whole rfl rfl]
    exact (adds_push b (.leaf (.text value) _)).trans (ih hflat hdepth)
  | @element p first behind name children rest inside others hinside _ hfirst hbehind ihchildren
      ihrest =>
    subst hfirst hbehind
    let tag := Tag.named name ⟨p, p.after (openTagText name)⟩
    let opened : Builder := { b with top := ⟨tag, []⟩, around := b.top :: b.around }
    have hopened : opened.depth = b.depth + 1 := rfl
    have hchildren : Adds opened (inside.foldl (step true) opened)
        (if b.depth = maxDepth - 1 then listingAll children else flattenAll (b.depth + 1) children)
        ((deepTagsAll (b.depth + 1) (p.after (openTagText name)) children).map
          (⟨.nestedTooDeep, ·⟩)) := by
      split
      · rename_i hlast
        have hfull : b.depth + 1 = maxDepth := by omega
        have hzero : opened.flattened = 0 := hflat
        have hadds := foldl_step_full (b := opened) hinside hfull
        rw [if_pos hzero] at hadds
        rwa [hfull]
      · rename_i hlast
        exact ihchildren hflat (by omega)
    have hmatch : namesMatch true (inside.foldl (step true) opened).top.tag.name name = true := by
      rw [hchildren.tag]
      exact namesMatch_refl true name
    have helement := hchildren.closed (p.after (Draft.element name children).chars)
    have hrest := ihrest (helement.flattened.trans hflat) (helement.depth ▸ hdepth)
    rw [helement.depth] at hrest
    rw [List.foldl_cons, step_opening rfl rfl (Nat.ne_of_lt hdepth), List.foldl_append,
      List.foldl_cons,
      step_closing (hchildren.flattened.trans hflat) rfl rfl hchildren.around hmatch,
      deepTagsAll_room (Nat.ne_of_lt hdepth), List.map_append]
    exact helement.trans hrest

end Builder

/-! ## Whole forests -/

mutual

theorem Draft.allClosedIn_listing : (tree : Draft) → allClosedIn tree.listing = true
  | .element name children => by
    rw [Draft.listing, allClosedIn, allClosedIn_listingAll children]
    rfl
  | .text _ => rfl

theorem allClosedIn_listingAll : (forest : List Draft) → allClosedIn (listingAll forest) = true
  | [] => rfl
  | tree :: rest => by
    rw [listingAll, allClosedIn_append, Draft.allClosedIn_listing tree, allClosedIn_listingAll rest]
    rfl

end

mutual

theorem Draft.allClosed_flatten (level : Nat) :
    (tree : Draft) → (tree.flatten level).allClosed = true
  | .element name children => by
    rw [Draft.flatten, Node.allClosed]
    split
    · rw [allClosedIn_listingAll]
      rfl
    · rw [allClosedIn_flattenAll (level + 1) children]
      rfl
  | .text _ => rfl

theorem allClosedIn_flattenAll (level : Nat) :
    (forest : List Draft) → allClosedIn (flattenAll level forest) = true
  | [] => rfl
  | tree :: rest => by
    rw [flattenAll, allClosedIn, Draft.allClosed_flatten level tree,
      allClosedIn_flattenAll level rest]
    rfl

end

/-- **What is nested too deep is flattened, and what follows is read as if nothing had been.** The
text of a forest is read as the forest in which the content of every element on the last level that
may be open is a list of all that is in it, outer elements first and all of them without content;
texts between which only close tags stood are not joined. Every element is closed, and the problems
are those of the elements on the level below, one for each at its open tag and in the order of the
text. -/
theorem parse_flattens (forest : List Draft) (h : Proper forest) :
    let document := parse {} (String.ofList (charsAll forest))
    document.root.bare = ⟨Tag.named rootName nowhere, flattenAll 1 forest⟩ ∧
      document.root.toNode.allClosed = true ∧
      document.problems = (deepTagsAll 1 .first forest).map (⟨.nestedTooDeep, ·⟩) ∧
      Fault.nestedTooDeep.message = "Elements nested deeper than 255 levels" := by
  intro document
  have hadds := Builder.foldl_step_room (b := .empty) (pieces_proper h) rfl (by decide)
  have hbare : document.root.bare = ⟨Tag.named rootName nowhere, flattenAll 1 forest⟩ :=
    Builder.finish_adds _ hadds
  exact ⟨hbare, allClosed_of_bare hbare (allClosedIn_flattenAll 1 forest), hadds.problems,
    by decide +kernel⟩

/-- Two elements with a text between them, inside so many others. -/
def deepForest : Nat → List Draft
  | 0 => [.element "b" [.text "x"], .text "y", .element "i" []]
  | levels + 1 => [.element "div" (deepForest levels)]

theorem deepForest_proper (levels : Nat) : Proper (deepForest levels) := by
  have hname {name : String} (h : name = "b" ∨ name = "i" ∨ name = "div") : IsTagName name := by
    rcases h with rfl | rfl | rfl <;> constructor <;> decide +kernel
  induction levels with
  | zero =>
    refine .element (hname (.inl rfl)) (.text (by decide) (by decide) (by decide) nofun .nil) ?_
    refine .text (by decide) (by decide) (by decide) nofun ?_
    exact .element (hname (.inr (.inl rfl))) .nil .nil
  | succ levels ih => exact .element (hname (.inr (.inr rfl))) ih .nil

/-- Each of two elements one level too deep is a problem, and neither is unclosed. -/
theorem parse_flattens_deep :
    let document := parse {} (String.ofList (charsAll (deepForest 255)))
    Proper (deepForest 255) ∧ document.root.toNode.allClosed = true ∧
      document.problems =
        [⟨.nestedTooDeep, ⟨1, 1276, 1275⟩⟩, ⟨.nestedTooDeep, ⟨1, 1285, 1284⟩⟩] := by
  intro document
  obtain ⟨-, hclosed, hproblems, -⟩ := parse_flattens _ (deepForest_proper 255)
  exact ⟨deepForest_proper 255, hclosed, hproblems.trans (by decide +kernel)⟩

end WidgetLint.Markup
