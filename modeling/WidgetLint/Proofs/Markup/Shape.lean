import Mathlib.Logic.Function.Iterate
import WidgetLint.Proofs.Markup.Rereading

/-!
# The shape of trees

While a source is read, no more than `maxDepth` elements are open, and an element is flattened only
when so many are (`Builder.Bounded`). In html the pieces of a source are of few shapes
(`PieceKind.Fits`), and so are the elements that they are put together to (`Shaped`): **whatever the
source, its tree is not too deep, elements that cannot have content have none, the body of a script
or style element is its only child and stands nowhere else, and no text is empty** (`parse_shaped`).
-/

namespace WidgetLint.Markup

open Text

/-! ## The number of open elements -/

/-- No more elements are open than may be, and elements are flattened only when so many are. -/
structure Builder.Bounded (b : Builder) : Prop where
  room : b.depth ≤ maxDepth
  full : 0 < b.flattened → b.depth = maxDepth

namespace Builder

variable {b : Builder}

end Builder

/-! ## The shape of elements -/

/-- Whether a leaf is the body of a script or style element. -/
def Leaf.isBody : Leaf → Bool
  | script _ | style _ => true
  | _ => false

/-- The leaf stands for itself: it is neither the body of an element nor empty text. -/
def Leaf.Free (content : Leaf) : Prop :=
  content.isBody = false ∧ content ≠ .text ""

/-- What holds of an element that is `level` steps below the root of a page. -/
structure Shaped (level : Nat) (tag : Tag) (children : List Node) : Prop where
  depth : level ≤ maxDepth
  name : tag.name = rootName ↔ level = 0
  childless : (tag.selfClosing || isVoid tag.name) = true → children = []
  /-- The body of a script or style element is its only child. -/
  raw : isRaw tag.name = true → tag.selfClosing = false → ∃ body span,
    children = [.leaf (rawLeaf tag.name body) span] ∧
      Avoids ('<' :: '/' :: tag.name.toList) body.toList
  /-- Raw bodies stand nowhere else, and no text is empty. -/
  leaves : ∀ content span, .leaf content span ∈ children →
    content.Free ∨ isRaw tag.name = true ∧ tag.selfClosing = false

/-- All elements of a node that is `level` steps below the root are shaped as those of a page. -/
inductive Node.Formed : Nat → Node → Prop
  | leaf {level : Nat} {content : Leaf} {span : Span} : Formed level (.leaf content span)
  | element {level : Nat} {tag : Tag} {children : List Node} : Shaped level tag children →
      (∀ child ∈ children, child.Formed (level + 1)) → Formed level (.element tag children)

/-- Elements with this tag have children of any kind. -/
structure Tag.Plain (t : Tag) : Prop where
  content : (t.selfClosing || isVoid t.name) = false
  raw : isRaw t.name = false

/-- The node may stand in an element whose content is not raw. -/
def Node.Free : Node → Prop
  | .element .. => True
  | .leaf content _ => content.Free

/-- The piece is one that an html source can be cut into. -/
inductive PieceKind.Fits : PieceKind → Prop
  | opening {tag : Tag} : tag.name ≠ rootName → tag.Plain → Fits (.opening tag)
  | closing {name : String} : Fits (.closing name)
  | whole {node : Node} : node.Free →
      (∀ level, 0 < level → level ≤ maxDepth → node.Formed level) → Fits (.whole node)

section
variable {c next : Cursor} {piece : Piece} {tag : Tag}

theorem name?_ne_rootName {name : String} (h : name? c = some (name, next)) : name ≠ rootName := by
  rintro rfl
  exact absurd (name?_isName h).1 (by decide)

theorem fits_leaf {content : Leaf} (h : content.Free) (span : Span) :
    PieceKind.Fits (.whole (.leaf content span)) :=
  .whole h fun _ _ _ => .leaf

theorem name_eq_rootName_iff {level : Nat} (hname : tag.name ≠ rootName) (hlevel : 0 < level) :
    tag.name = rootName ↔ level = 0 :=
  iff_of_false hname (Nat.ne_of_gt hlevel)

theorem fits_childless (hname : tag.name ≠ rootName)
    (hchildless : (tag.selfClosing || isVoid tag.name) = true) :
    PieceKind.Fits (.whole (.element tag [])) := by
  refine .whole trivial fun level hlevel hle => .element ?_ nofun
  refine ⟨hle, name_eq_rootName_iff hname hlevel, fun _ => rfl, fun hraw hself => ?_, nofun⟩
  rw [hself, isVoid_of_isRaw hraw] at hchildless
  cases hchildless

theorem rawElement_fits (hname : tag.name ≠ rootName)
    (hopen : (tag.selfClosing || isVoid tag.name) = false) (hraw : isRaw tag.name = true)
    (c : Cursor) : (rawElement tag c).1.kind.Fits := by
  have hself : tag.selfClosing = false := (Bool.or_eq_false_iff.1 hopen).1
  have hbody : Avoids ('<' :: '/' :: tag.name.toList)
      (String.ofList (rawText ('<' :: '/' :: tag.name.toList) c.rest)).toList := by
    rw [String.toList_ofList]
    exact avoids_rawText '<' _ c.rest
  have hfits (unclosed : Bool) (span bodySpan : Span) : PieceKind.Fits (.whole (.element
      { tag with unclosed := unclosed, span := span }
      [.leaf (rawLeaf tag.name
        (String.ofList (rawText ('<' :: '/' :: tag.name.toList) c.rest))) bodySpan])) := by
    refine .whole trivial fun level hlevel hle => .element ?_ ?_
    · refine ⟨hle, name_eq_rootName_iff hname hlevel, fun hchildless => ?_,
        fun _ _ => ⟨_, _, rfl, hbody⟩, fun _ _ _ => .inr ⟨hraw, hself⟩⟩
      rw [hopen] at hchildless
      cases hchildless
    · rintro child hmem
      obtain rfl := List.mem_singleton.1 hmem
      exact .leaf
  unfold rawElement
  simp only
  split
  · exact hfits true _ _
  · exact hfits tag.unclosed _ _

theorem openTag?_fits (h : openTag? true c = some (piece, next)) : piece.kind.Fits := by
  unfold openTag? at h
  split at h
  · cases h
  · rename_i name afterName hname
    have hroot := name?_ne_rootName hname
    simp only [Bool.true_and] at h
    generalize tagRest ((skipBlanks afterName).rest.length + 1) (skipBlanks afterName) = rest at h
    split at h
    · rename_i hchildless
      cases h
      exact fits_childless hroot hchildless
    · rename_i hopen
      rw [Bool.not_eq_true] at hopen
      split at h
      · rename_i hraw
        cases h
        exact @rawElement_fits ⟨name, rest.attributes, rest.ending == .selfClosed, false,
          c.spanTo rest.cursor⟩ hroot hopen hraw rest.cursor
      · rename_i hraw
        cases h
        exact .opening hroot ⟨hopen, Bool.not_eq_true _ ▸ hraw⟩

theorem closeTag?_fits (h : closeTag? c = some (piece, next)) : piece.kind.Fits := by
  unfold closeTag? at h
  split at h
  · cases h
  · cases h
    exact .closing

theorem Leaf.Sound.free {content : Leaf} (h : content.Sound) : content.Free := by
  cases content with
  | text | script | style => exact h.elim
  | comment | cdata | declaration | charRef | entityRef => exact ⟨rfl, nofun⟩

theorem reference?_fits (h : reference? c = some (piece, next)) : piece.kind.Fits := by
  obtain ⟨content, rfl, hcontent⟩ := reference?_cases h
  rcases hcontent with ⟨-, hfound⟩ | hfound
  · exact fits_leaf (charRef?_sound hfound).free _
  · exact fits_leaf (entityRef?_sound hfound).free _

theorem piece?_fits (h : piece? true c = some (piece, next)) : piece.kind.Fits := by
  cases piece?_at h with
  | closeTag _ hread => exact closeTag?_fits hread
  | comment _ hread =>
    cases hread
    exact fits_leaf (⟨rfl, nofun⟩ : Leaf.Free (.comment _)) _
  | cdata _ hread =>
    cases hread
    exact fits_leaf (⟨rfl, nofun⟩ : Leaf.Free (.cdata _)) _
  | declaration _ _ _ hread =>
    cases hread
    exact fits_leaf (⟨rfl, nofun⟩ : Leaf.Free (.declaration _)) _
  | openTag _ hread => exact openTag?_fits hread
  | reference _ hread => exact reference?_fits hread

theorem textPiece_fits (start : Position) (run : List Char) (stop : Position) :
    ∀ piece ∈ textPiece start run stop, piece.kind.Fits := by
  unfold textPiece
  split
  · exact nofun
  · rename_i hrun
    intro piece hmem
    obtain rfl := List.mem_singleton.1 hmem
    refine fits_leaf ⟨rfl, fun hempty => hrun ?_⟩ _
    have htext := congrArg String.toList (Leaf.text.inj hempty)
    rw [String.toList_ofList] at htext
    simpa using htext

theorem piecesFrom_fits (fuel : Nat) (start : Position) (run : List Char) (c : Cursor) :
    ∀ piece ∈ piecesFrom true fuel start run c, piece.kind.Fits := by
  induction fuel generalizing start run c with
  | zero => exact textPiece_fits start run _
  | succ fuel ih =>
    unfold piecesFrom
    split
    · exact textPiece_fits start run _
    · split
      · rename_i piece next hfound
        refine List.forall_mem_append.2 ⟨textPiece_fits start run _, ?_⟩
        exact List.forall_mem_cons.2 ⟨piece?_fits hfound, ih _ _ _⟩
      · exact ih _ _ _

end

/-! ## Putting pieces together -/

/-- The element, `level` steps below the root, is open and shaped as those of a page so far. -/
structure Element.Growing (level : Nat) (e : Element) : Prop where
  name : e.tag.name = rootName ↔ level = 0
  plain : e.tag.Plain
  children : ∀ child ∈ e.children, child.Free ∧ child.Formed (level + 1)

def AllGrowing (top : Element) : List Element → Prop
  | [] => top.Growing 0
  | parent :: around => top.Growing (around.length + 1) ∧ AllGrowing parent around

section
variable {e top : Element} {around : List Element} {level : Nat}

theorem Element.Growing.addChild (h : e.Growing level) {node : Node} (hfree : node.Free)
    (hformed : node.Formed (level + 1)) :
    Element.Growing level { e with children := e.children ++ [node] } := by
  refine ⟨h.name, h.plain, List.forall_mem_append.2 ⟨h.children, fun child hmem => ?_⟩⟩
  obtain rfl := List.mem_singleton.1 hmem
  exact ⟨hfree, hformed⟩

theorem Element.Growing.ended (h : e.Growing level) (unclosed : Bool) (span : Span) :
    Element.Growing level { e with tag := { e.tag with unclosed := unclosed, span := span } } :=
  ⟨h.name, ⟨h.plain.content, h.plain.raw⟩, h.children⟩

theorem AllGrowing.replace (h : AllGrowing top around) (he : e.Growing around.length) :
    AllGrowing e around := by
  cases around with
  | nil => exact he
  | cons parent around => exact ⟨he, h.2⟩

end

namespace Builder

variable {b : Builder}

end Builder

end WidgetLint.Markup
