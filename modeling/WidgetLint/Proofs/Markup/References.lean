import Mathlib.Data.List.Chain
import WidgetLint.Proofs.Markup.RoundTrip

/-!
# References and text

What a source without tags is read as. A reference is recognised wherever one is spelled
(`SpellsReference`), also if it is preceded by something that only begins like one, and nowhere
else. Everything between references is text, and neighbouring characters of text stand in one node.

The nodes of such a source are related to its characters by `CutsInto`; `piecesFrom_cutsInto`
follows the cutting of pieces with the run of text that is not yet complete. The main result is
`parse_references`.
-/

namespace WidgetLint.Markup

open Text

variable {html : Bool} {c next : Cursor} {content : Leaf} {word rest : List Char}

/-! ## How references are spelled -/

/-- The spelling of a reference, and what it is read as: the digits of a code below 2^32, or a name,
between an ampersand and a semicolon. -/
inductive SpellsReference : List Char → Leaf → Prop
  | decimal {digits : List Char} {code : Nat} : IsNumeral 10 digits code →
      SpellsReference ('&' :: '#' :: (digits ++ [';'])) (.charRef (String.ofList digits) code)
  | hexadecimal {digits : List Char} {code : Nat} : IsNumeral 16 digits code →
      SpellsReference ('&' :: '#' :: 'x' :: (digits ++ [';']))
        (.charRef (String.ofList ('x' :: digits)) code)
  | named {name : List Char} : IsName name = true →
      SpellsReference ('&' :: (name ++ [';'])) (.entityRef (String.ofList name))

/-- A reference is spelled at the beginning of the characters. -/
def StartsReference (cs : List Char) : Prop :=
  ∃ word content, SpellsReference word content ∧ word <+: cs

def Leaf.isReference : Leaf → Bool
  | charRef .. | entityRef _ => true
  | _ => false

def Node.isText : Node → Bool
  | .leaf (.text _) _ => true
  | _ => false

theorem SpellsReference.isReference (h : SpellsReference word content) :
    content.isReference = true := by
  cases h <;> rfl

theorem SpellsReference.isText (h : SpellsReference word content) (span : Span) :
    (Node.leaf content span).isText = false := by
  cases h <;> rfl

theorem SpellsReference.sound (h : SpellsReference word content) : content.Sound := by
  cases h with
  | decimal hdigits =>
    rw [Leaf.Sound, String.toList_ofList]
    exact .inl hdigits
  | hexadecimal hdigits => exact .inr ⟨_, String.toList_ofList, hdigits⟩
  | named hname =>
    rw [Leaf.Sound, String.toList_ofList]
    exact hname

theorem SpellsReference.eq_write (h : SpellsReference word content) :
    word = content.write.toList := by
  cases h <;> simp [Leaf.write]

theorem Leaf.Sound.spells (h : content.Sound) (hreference : content.isReference = true) :
    SpellsReference content.write.toList content := by
  cases content with
  | charRef raw code =>
    rcases h with hdecimal | ⟨digits, hraw, hhexadecimal⟩
    · simpa [Leaf.write] using SpellsReference.decimal hdecimal
    · have hspells := SpellsReference.hexadecimal hhexadecimal
      rw [← hraw, String.ofList_toList] at hspells
      simpa [Leaf.write, hraw] using hspells
  | entityRef name => simpa [Leaf.write] using SpellsReference.named h
  | _ => cases hreference

theorem SpellsReference.cons (h : SpellsReference word content) :
    ∃ others, word = '&' :: others ∧ '&' ∉ others := by
  have hdigits {radix : Nat} {digits : List Char} {code : Nat} (h : IsNumeral radix digits code)
      (hand : isDigitIn radix '&' = false) : '&' ∉ digits := by
    intro hmem
    rw [h.digit _ hmem] at hand
    cases hand
  cases h with
  | decimal h => exact ⟨_, rfl, by simp [hdigits h rfl]⟩
  | hexadecimal h => exact ⟨_, rfl, by simp [hdigits h rfl]⟩
  | named h =>
    have hname : '&' ∉ _ := fun hmem => absurd (IsName.chars h _ hmem) (by decide)
    exact ⟨_, rfl, by simp [hname]⟩

/-! ## References are read where they are spelled -/

def Piece.ofLeaf (content : Leaf) (span : Span) : Piece :=
  .ofWhole (.leaf content span, span)

theorem piece?_reference {piece : Piece} (h : piece? html c = some (piece, next))
    (hangle : '<' ∉ c.rest) :
    ∃ word content, SpellsReference word content ∧ c.Takes word next ∧
      piece = .ofLeaf content (c.spanTo next) := by
  have hnot {others : List Char} (hstarts : c.startsWith ('<' :: others) = true) : False := by
    have hrest := (Cursor.takes_word hstarts).1
    exact hangle (by rw [hrest]; simp)
  cases piece?_at h with
  | closeTag hopening | comment hopening | cdata hopening | declaration hopening
  | openTag hopening => exact (hnot hopening).elim
  | reference hopening hread =>
    obtain ⟨content, rfl, ⟨hnumeric, hfound⟩ | hfound⟩ := reference?_cases hread
    · obtain ⟨raw, code, rfl, htakes⟩ := charRef?_takes hnumeric hfound
      exact ⟨_, _, (charRef?_sound hfound).spells rfl, htakes, rfl⟩
    · obtain ⟨name, rfl, htakes⟩ := entityRef?_takes hopening hfound
      exact ⟨_, _, (entityRef?_sound hfound).spells rfl, htakes, rfl⟩

theorem SpellsReference.piece? (html : Bool) (h : SpellsReference word content)
    (hangle : '<' ∉ word ++ rest) (position : Position) :
    piece? html ⟨word ++ rest, position⟩ =
      some (.ofLeaf content ⟨position, position.after word⟩, ⟨rest, position.after word⟩) := by
  have hreads : ReadsAs html (.whole (.leaf content ⟨.first, .first⟩)) := leaf_readsAs h.sound
  obtain ⟨q, stop, hread, hbare, -⟩ := hreads rest position
  have hwritten : (PieceKind.whole (.leaf content ⟨.first, .first⟩)).write.toList = word :=
    h.eq_write.symm
  rw [hwritten] at hread
  obtain ⟨found, content', -, htakes, rfl⟩ := piece?_reference hread hangle
  obtain rfl : found = word := (List.append_cancel_right htakes.1).symm
  obtain rfl : stop = position.after found := htakes.2
  have hcontent : content' = content := by
    simpa [Piece.ofLeaf, Piece.ofWhole, PieceKind.bare, Node.bare] using hbare
  rw [hread, hcontent]
  rfl

theorem not_startsReference (h : Markup.piece? html c = none) (hangle : '<' ∉ c.rest) :
    ¬StartsReference c.rest := by
  rintro ⟨word, content, hspells, rest, hrest⟩
  obtain ⟨cs, position⟩ := c
  dsimp only at hrest hangle
  subst hrest
  rw [hspells.piece? html hangle position] at h
  cases h

theorem SpellsReference.unique {word' rest' : List Char} {content' : Leaf}
    (h : SpellsReference word content) (h' : SpellsReference word' content')
    (hsame : word ++ rest = word' ++ rest') (hangle : '<' ∉ word ++ rest) :
    word = word' ∧ content = content' ∧ rest = rest' := by
  have hread := h.piece? true hangle .first
  rw [hsame, h'.piece? true (hsame ▸ hangle) .first] at hread
  have hpair := Prod.mk.inj (Option.some.inj hread)
  have hrest : rest' = rest := congrArg Cursor.rest hpair.2
  have hcontent : content' = content := by
    have hkind := congrArg Piece.kind hpair.1
    simp only [Piece.ofLeaf, Piece.ofWhole, PieceKind.whole.injEq, Node.leaf.injEq] at hkind
    exact hkind.1
  subst hrest
  exact ⟨List.append_cancel_right hsame, hcontent.symm, rfl⟩

theorem SpellsReference.starts (h : SpellsReference word content) (rest : List Char) :
    StartsReference (word ++ rest) :=
  ⟨word, content, h, List.prefix_append word rest⟩

theorem SpellsReference.next_ampersand (h : SpellsReference word content) {left others : List Char}
    (hleft : left ≠ []) (hsame : word ++ rest = left ++ '&' :: others) :
    ∃ more, left = word ++ more ∧ rest = more ++ '&' :: others := by
  rcases append_eq_append_cons hsame with hbehind | ⟨more, rfl, -⟩
  · exact hbehind
  · obtain ⟨tail, htail, hnone⟩ := h.cons
    cases left with
    | nil => exact absurd rfl hleft
    | cons d left =>
      obtain ⟨-, rfl⟩ := List.cons.inj htail
      exact absurd (by simp) hnone

/-! ## How a source is cut -/

/-- The nodes that the characters are read as when they begin at a position: references where they
are spelled, and text in between, as long as it can be. -/
inductive CutsInto : Position → List Char → List Node → Prop
  | done {p : Position} : CutsInto p [] []
  | reference {p : Position} {word rest : List Char} {content : Leaf} {nodes : List Node} :
      SpellsReference word content → CutsInto (p.after word) rest nodes →
      CutsInto p (word ++ rest) (.leaf content ⟨p, p.after word⟩ :: nodes)
  | text {p : Position} {text rest : List Char} {nodes : List Node} : text ≠ [] →
      (∀ part, part <:+ text → part ≠ [] → ¬StartsReference (part ++ rest)) →
      (∀ node ∈ nodes.head?, node.isText = false) → CutsInto (p.after text) rest nodes →
      CutsInto p (text ++ rest) (.leaf (.text (String.ofList text)) ⟨p, p.after text⟩ :: nodes)

theorem CutsInto.textPiece {start stop : Position} {run : List Char} {nodes : List (Node × Span)}
    (h : CutsInto stop rest (nodes.map (·.1))) (hangle : '<' ∉ run.reverse ++ rest)
    (hloose : Loose html run.reverse rest) (hstop : stop = start.after run.reverse)
    (hhead : ∀ node ∈ (nodes.map (·.1)).head?, node.isText = false) :
    ∃ more : List (Node × Span),
      Markup.textPiece start run stop ++ nodes.map Piece.ofWhole = more.map Piece.ofWhole ∧
        CutsInto start (run.reverse ++ rest) (more.map (·.1)) := by
  subst hstop
  unfold Markup.textPiece
  split
  · rename_i hrun
    obtain rfl : run = [] := List.isEmpty_iff.1 hrun
    exact ⟨nodes, rfl, h⟩
  · rename_i hrun
    refine ⟨(.leaf (.text (String.ofList run.reverse)) ⟨start, start.after run.reverse⟩,
      ⟨start, start.after run.reverse⟩) :: nodes, rfl, ?_⟩
    refine .text (by simpa using hrun) (fun part hpart hne => ?_) hhead h
    refine not_startsReference (c := ⟨part ++ rest, .first⟩) (hloose part hpart hne .first) ?_
    intro hmem
    apply hangle
    rw [List.mem_append] at hmem ⊢
    exact hmem.imp_left (hpart.subset ·)

theorem CutsInto.lastText {start : Position} {run : List Char} (hrest : c.rest = [])
    (hangle : '<' ∉ run.reverse ++ c.rest) (hloose : Loose html run.reverse c.rest)
    (hposition : c.position = start.after run.reverse) :
    ∃ nodes : List (Node × Span),
      Markup.textPiece start run c.position = nodes.map Piece.ofWhole ∧
        CutsInto start (run.reverse ++ c.rest) (nodes.map (·.1)) := by
  rw [hrest] at hangle hloose ⊢
  have hend : CutsInto c.position [] (([] : List (Node × Span)).map (·.1)) := .done
  obtain ⟨nodes, hpieces, hcuts⟩ := hend.textPiece hangle hloose hposition (by simp)
  rw [List.map_nil, List.append_nil] at hpieces
  exact ⟨nodes, hpieces, hcuts⟩

/-- Cutting a source without tags: `run` is the text before the cursor that is not yet complete. No
reference starts in it, so it stays in one node whatever happens at the cursor. -/
theorem piecesFrom_cutsInto (fuel : Nat) {start : Position} {run : List Char}
    (hfuel : c.rest.length ≤ fuel) (hangle : '<' ∉ run.reverse ++ c.rest)
    (hloose : Loose html run.reverse c.rest) (hposition : c.position = start.after run.reverse) :
    ∃ nodes : List (Node × Span), piecesFrom html fuel start run c = nodes.map Piece.ofWhole ∧
      CutsInto start (run.reverse ++ c.rest) (nodes.map (·.1)) := by
  induction fuel generalizing c start run with
  | zero =>
    exact CutsInto.lastText (List.eq_nil_of_length_eq_zero (Nat.le_zero.1 hfuel)) hangle hloose
      hposition
  | succ fuel ih =>
    rw [piecesFrom]
    split
    · rename_i hrest
      exact CutsInto.lastText hrest hangle hloose hposition
    · rename_i d others hrest
      split
      · rename_i piece next hpiece
        have hnone : '<' ∉ c.rest := fun hmem => hangle (List.mem_append_right _ hmem)
        obtain ⟨word, content, hspells, htakes, rfl⟩ := piece?_reference hpiece hnone
        have hshorter : next.rest.length ≤ fuel := by
          have hlt := piece?_length_lt hpiece
          omega
        have hlater : '<' ∉ next.rest := by
          rw [htakes.1] at hnone
          exact fun hmem => hnone (List.mem_append_right _ hmem)
        obtain ⟨nodes, hpieces, hcuts⟩ :=
          @ih next next.position [] hshorter hlater (loose_nil html next.rest) rfl
        have hspan : c.spanTo next = ⟨c.position, c.position.after word⟩ := by
          rw [Cursor.spanTo, htakes.2]
        have hfound : CutsInto c.position c.rest
            (((.leaf content (c.spanTo next), c.spanTo next) :: nodes).map (·.1)) := by
          rw [htakes.2] at hcuts
          rw [htakes.1, hspan]
          exact .reference hspells hcuts
        rw [hpieces]
        refine hfound.textPiece hangle hloose hposition ?_
        rintro node ⟨⟩
        exact hspells.isText _
      · rename_i hnone
        have hdrop : c.rest = d :: (c.drop 1).rest := by simp [Cursor.drop, hrest]
        have hsame : (d :: run).reverse ++ (c.drop 1).rest = run.reverse ++ c.rest := by
          rw [hdrop]
          simp
        rw [← hsame] at hangle ⊢
        refine ih ?_ hangle ?_ ?_
        · simp only [Cursor.drop, List.length_drop]
          omega
        · rw [List.reverse_cons]
          rw [hdrop] at hloose
          refine loose_concat hloose fun position => ?_
          have hsame := piece?_isSome_position html c position
          rw [hnone] at hsame
          rw [← Option.not_isSome_iff_eq_none, ← hdrop, hsame]
          decide
        · simp [Cursor.drop, hrest, hposition, Position.after_append]

namespace CutsInto

variable {p : Position} {cs : List Char} {nodes : List Node}

theorem write (h : CutsInto p cs nodes) : (writeAll nodes).toList = cs := by
  induction h with
  | done => rfl
  | reference hspells _ ih =>
    rw [writeAll, Node.write, String.toList_append, ← hspells.eq_write, ih]
  | text _ _ _ _ ih =>
    rw [writeAll, Node.write, String.toList_append, ih, Leaf.write, String.toList_ofList]

theorem kinds (h : CutsInto p cs nodes) :
    ∀ node ∈ nodes, node.isText = true ∨
      ∃ content span, node = .leaf content span ∧ content.isReference = true := by
  induction h with
  | done => simp
  | reference hspells _ ih =>
    rintro node (⟨⟩ | ⟨_, hmem⟩)
    · exact .inr ⟨_, _, rfl, hspells.isReference⟩
    · exact ih node hmem
  | text _ _ _ _ ih =>
    rintro node (⟨⟩ | ⟨_, hmem⟩)
    · exact .inl rfl
    · exact ih node hmem

theorem chain (h : CutsInto p cs nodes) :
    nodes.IsChain fun node next => (node.isText && next.isText) = false := by
  induction h with
  | done => exact .nil
  | reference hspells _ ih =>
    rw [List.isChain_cons]
    refine ⟨fun next _ => ?_, ih⟩
    rw [hspells.isText, Bool.false_and]
  | text _ _ hhead _ ih =>
    rw [List.isChain_cons]
    refine ⟨fun next hnext => ?_, ih⟩
    rw [hhead next hnext, Bool.and_false]

/-- The references among the nodes are those that are spelled in the source. A reference cannot be
spelled across the end of another one or of a text: its first character is its only ampersand, and
none starts in a text. -/
theorem mem_reference_iff (h : CutsInto p cs nodes) (hangle : '<' ∉ cs) {span : Span}
    (hreference : content.isReference = true) :
    .leaf content span ∈ nodes ↔ ∃ left word right, cs = left ++ (word ++ right) ∧
      SpellsReference word content ∧ span = ⟨p.after left, p.after (left ++ word)⟩ := by
  induction h with
  | done =>
    constructor
    · rintro ⟨⟩
    · rintro ⟨left, word, right, hcs, hspells, -⟩
      obtain ⟨others, rfl, -⟩ := hspells.cons
      simp at hcs
  | @reference p first rest found nodes hfound _ ih =>
    have hrest : '<' ∉ rest := fun hmem => hangle (List.mem_append_right _ hmem)
    rw [List.mem_cons, ih hrest]
    constructor
    · rintro (heq | ⟨left, word, right, rfl, hspells, rfl⟩)
      · obtain ⟨rfl, rfl⟩ := Node.leaf.inj heq
        exact ⟨[], first, rest, rfl, hfound, rfl⟩
      · exact ⟨first ++ left, word, right, by simp, hspells, by simp [Position.after_append]⟩
    · rintro ⟨left, word, right, hcs, hspells, rfl⟩
      by_cases hleft : left = []
      · subst hleft
        obtain ⟨rfl, rfl, rfl⟩ := hfound.unique hspells hcs hangle
        exact .inl rfl
      · obtain ⟨others, rfl, -⟩ := hspells.cons
        obtain ⟨more, rfl, hmore⟩ := hfound.next_ampersand hleft hcs
        exact .inr ⟨more, _, right, hmore, hspells, by simp [Position.after_append]⟩
  | @text p text rest nodes hne hnone _ _ ih =>
    have hrest : '<' ∉ rest := fun hmem => hangle (List.mem_append_right _ hmem)
    rw [List.mem_cons, ih hrest]
    constructor
    · rintro (heq | ⟨left, word, right, rfl, hspells, rfl⟩)
      · obtain ⟨rfl, rfl⟩ := Node.leaf.inj heq
        cases hreference
      · exact ⟨text ++ left, word, right, by simp, hspells, by simp [Position.after_append]⟩
    · rintro ⟨left, word, right, hcs, hspells, rfl⟩
      have hstarts := hspells.starts right
      obtain ⟨others, rfl, -⟩ := hspells.cons
      rw [List.cons_append] at hcs hstarts
      rcases append_eq_append_cons hcs with ⟨more, rfl, hmore⟩ | ⟨more, rfl, hothers⟩
      · exact .inr ⟨more, _, right, hmore, hspells, by simp [Position.after_append]⟩
      · rw [hothers] at hstarts
        exact absurd hstarts
          (hnone ('&' :: more) (List.suffix_append left _) (List.cons_ne_nil _ _))

theorem ampersand_mem_text (h : CutsInto p cs nodes) {before behind : List Char}
    (hcs : cs = before ++ '&' :: behind) (hnone : ¬StartsReference ('&' :: behind)) :
    ∃ left inner inner' right, before = left ++ inner ∧ behind = inner' ++ right ∧
      .leaf (.text (String.ofList (inner ++ '&' :: inner')))
        ⟨p.after left, p.after (left ++ (inner ++ '&' :: inner'))⟩ ∈ nodes := by
  induction h generalizing before with
  | done => simp at hcs
  | @reference p word rest found nodes hfound _ ih =>
    have hbefore : before ≠ [] := by
      rintro rfl
      rw [List.nil_append] at hcs
      exact hnone (hcs ▸ hfound.starts rest)
    obtain ⟨more, rfl, hrest⟩ := hfound.next_ampersand hbefore hcs
    obtain ⟨left, inner, inner', right, rfl, rfl, hmem⟩ := ih hrest
    refine ⟨word ++ left, inner, inner', right, by simp, rfl, List.mem_cons_of_mem _ ?_⟩
    simpa [Position.after_append] using hmem
  | @text p text rest nodes _ _ _ _ ih =>
    rcases append_eq_append_cons hcs with ⟨more, rfl, hrest⟩ | ⟨inner', rfl, rfl⟩
    · obtain ⟨left, inner, inner', right, rfl, rfl, hmem⟩ := ih hrest
      refine ⟨text ++ left, inner, inner', right, by simp, rfl, List.mem_cons_of_mem _ ?_⟩
      simpa [Position.after_append] using hmem
    · exact ⟨[], before, inner', rest, rfl, rfl, List.mem_cons_self⟩

end CutsInto

/-- **References and text.** A source without angle brackets is read without problems and written as
it was. Its nodes are text and references, no two texts are neighbours, the references are those
that are spelled somewhere in the source, at their places, and every other ampersand is a character
of a text. -/
theorem parse_references (html : Bool) (source : String) (hangle : '<' ∉ source.toList) :
    (parse { html } source).problems = [] ∧ (parse { html } source).root.write = source ∧
      let nodes := (parse { html } source).root.children
      (nodes.IsChain fun node next => (node.isText && next.isText) = false) ∧
      (∀ node ∈ nodes, node.isText = true ∨
        ∃ content span, node = .leaf content span ∧ content.isReference = true) ∧
      (∀ content span, content.isReference = true →
        (.leaf content span ∈ nodes ↔
          ∃ word, SpellsReference word content ∧ span.Covers source.toList word)) ∧
      ∀ before behind, source.toList = before ++ '&' :: behind →
        ¬StartsReference ('&' :: behind) →
        ∃ left inner inner' right, before = left ++ inner ∧ behind = inner' ++ right ∧
          .leaf (.text (String.ofList (inner ++ '&' :: inner')))
            ⟨Position.first.after left,
              Position.first.after (left ++ (inner ++ '&' :: inner'))⟩ ∈ nodes := by
  have hlength : (Cursor.ofString source).rest.length ≤ source.length :=
    Nat.le_of_eq String.length_toList
  obtain ⟨wholes, hpieces, hcuts⟩ := @piecesFrom_cutsInto html (.ofString source) source.length
    .first [] hlength hangle (loose_nil html _) rfl
  obtain ⟨hproblems, span, hroot⟩ := parse_wholes { html } source wholes hpieces
  have hnodes : CutsInto .first source.toList (parse { html } source).root.children := by
    rw [hroot]
    exact hcuts
  refine ⟨hproblems, ?_, hnodes.chain, hnodes.kinds, fun content span hreference => ?_,
    fun before behind => hnodes.ampersand_mem_text⟩
  · rw [hroot]
    exact String.toList_inj.1 hcuts.write
  · rw [hnodes.mem_reference_iff hangle hreference]
    constructor
    · rintro ⟨left, word, right, hsource, hspells, rfl⟩
      exact ⟨word, hspells, left, right, by rw [hsource, List.append_assoc], rfl, rfl⟩
    · rintro ⟨word, hspells, left, right, hsource, hstart, hstop⟩
      refine ⟨left, word, right, by rw [hsource, List.append_assoc], hspells, ?_⟩
      rw [← hstart, ← hstop]

/-- The second of three ampersands in a row starts a reference: what follows the first one is no
name, and the code that follows the third one is too large. -/
theorem parse_references_ampersands :
    let source := "&&#38;&#x100000000;"
    let document := parse { html := false } source
    let nodes := document.root.children
    '<' ∉ source.toList ∧ document.problems = [] ∧ document.root.write = source ∧
      .leaf (.charRef "38" 38) ⟨⟨1, 2, 1⟩, ⟨1, 7, 6⟩⟩ ∈ nodes ∧
      ∃ others span, .leaf (.text (String.ofList ('&' :: others))) span ∈ nodes := by
  intro source document nodes
  have hangle : '<' ∉ source.toList := by decide
  obtain ⟨hproblems, hwrite, -, -, hreferences, htexts⟩ := parse_references false source hangle
  refine ⟨hangle, hproblems, hwrite, ?_, ?_⟩
  · have hdigits : IsNumeral 10 ['3', '8'] 38 := ⟨by simp, by simp [isDigitIn, digit?], by decide, by decide⟩
    exact (hreferences (.charRef "38" 38) _ rfl).2
      ⟨_, .decimal hdigits, ['&'], "&#x100000000;".toList, by decide⟩
  · have hnone : ¬StartsReference ('&' :: "&#38;&#x100000000;".toList) :=
      @not_startsReference false ⟨_, .first⟩ (by decide) (by decide)
    obtain ⟨left, inner, others, right, hempty, -, hmem⟩ := htexts [] _ (by decide) hnone
    obtain ⟨rfl, rfl⟩ := List.nil_eq_append_iff.1 hempty
    exact ⟨others, _, hmem⟩

end WidgetLint.Markup
