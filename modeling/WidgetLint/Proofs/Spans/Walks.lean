import WidgetLint.Proofs.Spans.Keys
import WidgetLint.Proofs.Walks.Parts

/-!
# What walks pass on

A property of parts that is passed on to direct parts, such as being well nested, holds of all nodes
that a walk meets: what is inside a node is inside one of its direct parts, or is one of them.
-/

namespace WidgetLint.Script

open Text

section
variable {text : List Char}

/-- All parts of a list are well nested. -/
def AllNested (text : List Char) (ps : List Part) : Prop :=
  ∀ p ∈ ps, p.WellNested text

theorem allNested_cons {p : Part} {ps : List Part} :
    AllNested text (p :: ps) ↔ p.WellNested text ∧ AllNested text ps :=
  List.forall_mem_cons

theorem Part.WellNested.parts {p : Part} (h : p.WellNested text) : AllNested text p.parts := by
  cases h with
  | mk _ _ _ _ _ hparts => exact hparts

theorem Part.WellNested.apart {p : Part} (h : p.WellNested text) :
    p.parts.Pairwise Part.Precedes := by
  cases h with
  | mk _ _ _ _ hapart _ => exact hapart

end

/-! ## Hereditary properties -/

/-- The direct parts of a part with the property have it too. -/
def Hereditary (Q : Part → Prop) : Prop :=
  ∀ p, Q p → ∀ q ∈ p.parts, Q q

theorem hereditary_wellNested (text : List Char) : Hereditary (Part.WellNested text) :=
  fun _ h => h.parts

section
variable {Q : Part → Prop}

/-- A walk through a part with a hereditary property meets only nodes with that property. -/
theorem Hereditary.visits (hQ : Hereditary Q) {p : Part} (h : Q p) (d : Nat) :
    ∀ v ∈ p.visits d, Q v.node.part := by
  induction p using Part.induction generalizing d with
  | h p ih =>
    intro v hv
    rcases Part.mem_visits hv with ⟨-, hown⟩ | ⟨w, hw, hv⟩
    · exact hown ▸ h
    · have hpart := Part.mem_parts hw
      exact ih w.1 hpart (hQ p h _ hpart) _ v hv

/-- **A walk through statements with a hereditary property meets only nodes with that property.** -/
theorem Hereditary.program_visits (hQ : Hereditary Q) {p : Program}
    (h : ∀ s ∈ p.body, Q (.stmt s)) : ∀ v ∈ p.visits, Q v.node.part := by
  intro v hv
  rw [Program.visits, visitBody_eq, List.flatMap_map] at hv
  obtain ⟨s, hs, hv⟩ := List.mem_flatMap.1 hv
  exact hQ.visits (h s hs) 0 v hv

end

end WidgetLint.Script
