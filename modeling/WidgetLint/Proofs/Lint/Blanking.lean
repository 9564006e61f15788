import Mathlib.Data.List.Basic
import WidgetLint.Proofs.Lint.Places

/-!
# Blanking pages and their templates

A linter that blanks server blocks does so in a page and again in each of its templates. A template
is a part of the blanked page, so it has no blocks any more: what is reported is what a linter that
does not blank reports for the page that was blanked as a whole. The main result,
`blankServerBlocks_exact`, also says which text that is.
-/

namespace WidgetLint.Lint

open Text Markup Check

/-! ## Templates in blanked pages -/

mutual

/-- Only the role attribute of the settings matters for where the places of interest are. -/
theorem spotsIn_congr (s t : Settings) (h : s.roleAttribute = t.roleAttribute)
    (skips : String → Bool) : (node : Markup.Node) → spotsIn s skips node = spotsIn t skips node
  | .leaf .. => rfl
  | .element tag children => by
    have hread : readElement s ⟨tag, children⟩ = readElement t ⟨tag, children⟩ := by
      rw [readElement, readElement, h]
    rw [spotsIn, spotsIn, hread, spotsInAll_congr s t h skips children]

theorem spotsInAll_congr (s t : Settings) (h : s.roleAttribute = t.roleAttribute)
    (skips : String → Bool) :
    (nodes : List Markup.Node) → spotsInAll s skips nodes = spotsInAll t skips nodes
  | [] => rfl
  | node :: rest => by
    rw [spotsInAll, spotsInAll, spotsIn_congr s t h skips node, spotsInAll_congr s t h skips rest]

end

namespace Linter

variable (l : Linter) {text : String}

/-- The linter, told whether to blank the server blocks of pages and templates. -/
def withAsp (asp : Bool) : Linter :=
  { l with settings := { l.settings with asp } }

theorem checkPage_blanked {template template' : String → List Diagnostic}
    (h : ∀ body : String, body.toList <:+: (blankServerBlocks text).toList →
      template body = template' body) :
    (l.withAsp true).checkPage template text =
      (l.withAsp false).checkPage template' (blankServerBlocks text) := by
  have hpage : readPage (l.withAsp true).settings text =
      readPage (l.withAsp false).settings (blankServerBlocks text) := rfl
  have hspots := spotsIn_congr (l.withAsp true).settings (l.withAsp false).settings rfl isStyle
  obtain ⟨hroot, -⟩ := parse_placed ⟨true, false⟩ (blankServerBlocks text)
  have hplaced := spotsIn_placed (l.withAsp false).settings isStyle _
    (.element hroot.tag hroot.children)
  rw [checkPage_eq, checkPage_eq, hpage, hspots]
  refine congrArg _ (List.flatMap_congr fun spot hspot => ?_)
  have hspot := hplaced spot hspot
  cases spot with
  | role e role => rfl
  | embedded kind body span =>
    cases kind with
    | script => rfl
    | template =>
      obtain ⟨before, behind, hcut, -⟩ := hspot
      have hpart : body.toList <:+: (blankServerBlocks text).toList := ⟨before, behind, hcut.symm⟩
      rw [checkSpot_template, checkSpot_template, h body hpart]

/-- A linter that blanks the page and each template in it reports what it does for a page that was
blanked as a whole. -/
theorem checkDocument_blanked (levels : Nat) (text : String) :
    (l.withAsp true).checkDocument levels text =
      (l.withAsp false).checkDocument levels (blankServerBlocks text) := by
  induction levels generalizing text with
  | zero =>
    exact l.checkPage_blanked fun body _ => rfl
  | succ levels ih =>
    rw [checkDocument_succ, checkDocument_succ]
    refine l.checkPage_blanked fun body hpart => ?_
    rw [ih body, blankServerBlocks_part hpart]

end Linter

/-- **Blanking is exact, keeps positions and is done once.** The blanked text has as many characters
as before, each at its position. It is made by turning each block into a comment with spaces for the
characters that mean something in markup, and by nothing else. No block is left in it, so that it
and each of its parts are blanked already: blanking the templates of a page again does not change
what is reported. -/
theorem blankServerBlocks_exact (text : String) :
    let blanked := blankServerBlocks text
    blanked.toList.length = text.toList.length ∧
      (∀ k, Position.first.after (blanked.toList.take k) =
        Position.first.after (text.toList.take k)) ∧
      (∀ out, Blanks text.toList out ↔ out = blanked.toList) ∧
      NoBlock blanked.toList ∧ blankServerBlocks blanked = blanked ∧
      (∀ part : String, part.toList <:+: blanked.toList → blankServerBlocks part = part) ∧
      ∀ (l : Linter) (filename : String),
        (l.withAsp true).lintMarkup text filename =
          (l.withAsp false).lintMarkup blanked filename := by
  intro blanked
  have hshape := shape_blankServerBlocks text
  have hpart (part : String) : part.toList <:+: blanked.toList → blankServerBlocks part = part :=
    blankServerBlocks_part
  refine ⟨?_, fun k => ?_, fun out => ?_, (blanks_blankServerBlocks text).noBlock,
    hpart blanked List.infix_rfl, hpart, fun l filename => ?_⟩
  · simpa using congrArg List.length hshape
  · refine Position.after_congr _ ?_
    rw [List.map_take, List.map_take, hshape]
  · rw [blanks_iff]
    show _ ↔ out = (String.ofList _).toList
    rw [String.toList_ofList]
  · rw [Linter.lintMarkup_map, Linter.lintMarkup_map, l.checkDocument_blanked]

/-- A closer that shares a character with its opener, an opener that is not closed on its line, and
a block that ends in its own delimiter: the end of the blanked page is blanked already. -/
theorem blankServerBlocks_exact_part :
    let blanked := blankServerBlocks "<%>a%><p><%\n<% 'x' %%>"
    let part := "<%\n/*  x  %*/"
    blanked = "/* a*/<p><%\n/*  x  %*/" ∧ part.toList <:+: blanked.toList ∧
      blankServerBlocks part = part := by
  intro blanked part
  have hblanked : blanked = "/* a*/<p><%\n/*  x  %*/" := by decide
  have hpart : part.toList <:+: blanked.toList := by
    rw [hblanked]
    exact ⟨"/* a*/<p>".toList, [], by decide⟩
  obtain ⟨-, -, -, -, -, hparts, -⟩ := blankServerBlocks_exact "<%>a%><p><%\n<% 'x' %%>"
  exact ⟨hblanked, hpart, hparts part hpart⟩

end WidgetLint.Lint
