import WidgetLint.Proofs.Spans.Parts

/-!
# Walks through parts

A walk meets a part and then its direct parts, each with all that is inside it, in the order of
`Part.walked`: the order of the text, except that the test of a loop comes before its body wherever
it is written (`Part.visits_eq`). Facts about walks are shown by induction on parts
(`Part.induction`), for all kinds of nodes at once.
-/

namespace WidgetLint.Script

open Text

/-- The direct parts, each with its index among them, in the order of a walk. -/
def Part.walked : Part → List (Part × Nat)
  | stmt (.doWhile _ body test) => [(.expr test, 1), (.stmt body, 0)]
  | p => p.parts.zipIdx

/-- The node that a part is. Named members and names are none. -/
def Part.node? : Part → Option Node
  | expr e => some (.expr e)
  | stmt s => some (.stmt s)
  | named .. | name _ => none

/-- The depth at which a walk meets the direct parts of a part. -/
def Part.below (d : Nat) : Part → Nat
  | expr _ | stmt _ => d + 1
  | named .. | name _ => d

/-- The visits of a part and of what is inside it. -/
def Part.visits (d : Nat) : Part → List Visit
  | expr e => e.visit d (e.inside (d + 1))
  | stmt s => s.visit d (s.inside (d + 1))
  | named _ key value => key.inside d ++ value.visit d (value.inside (d + 1))
  | name _ => []

/-! ## The lists of a tree -/

section
variable (d : Nat)

theorem visitAll_eq (es : List Expr) :
    visitAll d es = (es.map .expr).flatMap (Part.visits d) := by
  induction es with
  | nil => rfl
  | cons e rest ih =>
    rw [visitAll, ih]
    rfl

theorem visitOptional_eq (e : Option Expr) :
    visitOptional d e = (optionalPart e).flatMap (Part.visits d) := by
  cases e with
  | none => rfl
  | some e => exact (List.append_nil _).symm

theorem visitItems_eq (items : List (Option Expr)) :
    visitItems d items = (items.flatMap optionalPart).flatMap (Part.visits d) := by
  induction items with
  | nil => rfl
  | cons item rest ih =>
    rw [visitItems, ih, visitOptional_eq, List.flatMap_cons, List.flatMap_append]

theorem Key.inside_eq (key : Key) : key.inside d = key.parts.flatMap (Part.visits d) := by
  cases key with
  | computed key => exact (List.append_nil _).symm
  | ident | string | number => rfl

theorem Member.inside_eq (member : Member) :
    member.inside d = member.parts.flatMap (Part.visits d) := by
  cases member with
  | named | spread => exact (List.append_nil _).symm

theorem visitMembers_eq (members : List Member) :
    visitMembers d members = (members.flatMap Member.parts).flatMap (Part.visits d) := by
  induction members with
  | nil => rfl
  | cons member rest ih =>
    rw [visitMembers, ih, Member.inside_eq, List.flatMap_cons, List.flatMap_append]

theorem visitBody_eq (body : List Stmt) :
    visitBody d body = (body.map .stmt).flatMap (Part.visits d) := by
  induction body with
  | nil => rfl
  | cons s rest ih =>
    rw [visitBody, ih]
    rfl

theorem ArrowBody.inside_eq (body : ArrowBody) :
    body.inside d = body.parts.flatMap (Part.visits d) := by
  cases body with
  | expression value => exact (List.append_nil _).symm
  | block body => exact visitBody_eq d body

theorem visitElse_eq (s : Option Stmt) :
    visitElse d s = (s.toList.map .stmt).flatMap (Part.visits d) := by
  cases s with
  | none => rfl
  | some s => exact (List.append_nil _).symm

theorem visitDeclarators_eq (declarators : List Declarator) :
    visitDeclarators d declarators =
      (declarators.flatMap Declarator.parts).flatMap (Part.visits d) := by
  induction declarators with
  | nil => rfl
  | cons declarator rest ih =>
    cases declarator with
    | mk target value =>
      rw [visitDeclarators, ih, visitOptional_eq, List.flatMap_cons, List.flatMap_append]
      rfl

theorem ForInit.inside_eq (init : ForInit) :
    init.inside d = init.parts.flatMap (Part.visits d) := by
  cases init with
  | declaration kind declarators => exact visitDeclarators_eq d declarators
  | expression value => exact (List.append_nil _).symm

theorem visitInit_eq (init : Option ForInit) :
    visitInit d init = (init.toList.flatMap ForInit.parts).flatMap (Part.visits d) := by
  cases init with
  | none => rfl
  | some init => rw [visitInit, ForInit.inside_eq, Option.toList_some, List.flatMap_singleton]

theorem visitHandler_eq (handler : Option Handler) :
    visitHandler d handler = (handler.toList.flatMap Handler.parts).flatMap (Part.visits d) := by
  cases handler with
  | none => rfl
  | some handler =>
    cases handler with
    | mk param body =>
      rw [visitHandler, visitOptional_eq, visitBody_eq, Option.toList_some, List.flatMap_singleton,
        Handler.parts, List.flatMap_append]

theorem visitFinalizer_eq (finalizer : Option (List Stmt)) :
    visitFinalizer d finalizer =
      (finalizer.toList.flatMap (·.map .stmt)).flatMap (Part.visits d) := by
  cases finalizer with
  | none => rfl
  | some body => rw [visitFinalizer, visitBody_eq, Option.toList_some, List.flatMap_singleton]

theorem visitCases_eq (cases : List Case) :
    visitCases d cases = (cases.flatMap Case.parts).flatMap (Part.visits d) := by
  induction cases with
  | nil => rfl
  | cons c rest ih =>
    cases c with
    | mk test body =>
      rw [visitCases, ih, visitOptional_eq, visitBody_eq, List.flatMap_cons, List.flatMap_append,
        Case.parts, List.flatMap_append]

end

/-! ## Nodes -/

theorem Part.walked_eq {p : Part} (h : ∀ span body test, p ≠ .stmt (.doWhile span body test)) :
    p.walked = p.parts.zipIdx := by
  unfold Part.walked
  split
  · rename_i span body test
    exact absurd rfl (h span body test)
  · rfl

theorem Part.flatMap_zipIdx (ps : List Part) (f : Part → List Visit) :
    ps.zipIdx.flatMap (fun w => f w.1) = ps.flatMap f := by
  rw [← List.flatMap_map Prod.fst f, List.zipIdx_map_fst]

theorem Expr.inside_eq (d : Nat) (e : Expr) : e.inside d = e.parts.flatMap (Part.visits d) := by
  cases e <;> simp [Expr.inside, Expr.parts, visitAll_eq, visitItems_eq, visitMembers_eq,
    visitBody_eq, ArrowBody.inside_eq, Part.visits]

theorem Stmt.inside_eq (d : Nat) (s : Stmt) :
    s.inside d = (Part.stmt s).walked.flatMap fun w => w.1.visits d := by
  cases s with
  | doWhile => simp [Stmt.inside, Part.walked, Part.visits]
  | _ =>
    rw [Part.walked_eq (by simp), Part.flatMap_zipIdx]
    simp [Part.parts, Stmt.inside, Stmt.parts, visitAll_eq, visitBody_eq, visitOptional_eq,
      visitElse_eq, visitDeclarators_eq, ForInit.inside_eq, visitInit_eq, visitHandler_eq,
      visitFinalizer_eq, visitCases_eq, Part.visits]

/-- **A walk meets a part and then its direct parts with what is inside them.** -/
theorem Part.visits_eq (d : Nat) (p : Part) :
    p.visits d = (p.node?.map (Visit.mk d)).toList ++
      p.walked.flatMap fun w => w.1.visits (p.below d) := by
  cases p with
  | stmt s =>
    rw [Part.visits, Stmt.inside_eq]
    rfl
  | expr e =>
    rw [Part.visits, Expr.inside_eq, Part.walked_eq (by simp), Part.flatMap_zipIdx]
    rfl
  | named s key value =>
    rw [Part.visits, Key.inside_eq, Part.walked_eq (by simp), Part.flatMap_zipIdx, Part.parts,
      List.flatMap_append, List.flatMap_singleton]
    rfl
  | name s => rfl

theorem Part.mem_visits {p : Part} {d : Nat} {v : Visit} (h : v ∈ p.visits d) :
    (v.depth = d ∧ v.node.part = p) ∨ ∃ w ∈ p.walked, v ∈ w.1.visits (p.below d) := by
  rw [Part.visits_eq, List.mem_append] at h
  refine h.imp (fun h => ?_) List.mem_flatMap.1
  cases p with
  | expr | stmt =>
    obtain rfl := List.mem_singleton.1 h
    exact ⟨rfl, rfl⟩
  | named | name => cases h

/-! ## Induction on parts -/

theorem Part.walked_perm (p : Part) : p.walked.Perm p.parts.zipIdx := by
  unfold Part.walked
  split
  · exact .swap _ _ _
  · exact .refl _

theorem Part.mem_walked {p q : Part} {i : Nat} : (q, i) ∈ p.walked ↔ p.parts[i]? = some q := by
  rw [p.walked_perm.mem_iff, List.mem_zipIdx_iff_getElem?]

theorem Part.mem_parts {p : Part} {w : Part × Nat} (h : w ∈ p.walked) : w.1 ∈ p.parts :=
  List.mem_of_getElem? (Part.mem_walked.1 h)

/-- What a walk meets of one of several parts stands together in the walk through all of them. -/
theorem Part.visits_sublist_flatMap {ws : List (Part × Nat)} {w : Part × Nat} (d : Nat)
    (h : w ∈ ws) : (w.1.visits d).Sublist (ws.flatMap fun w => w.1.visits d) :=
  List.sublist_flatten_of_mem (List.mem_map_of_mem h)

theorem Part.visits_sublist {p : Part} {w : Part × Nat} (d : Nat) (h : w ∈ p.walked) :
    (w.1.visits (p.below d)).Sublist (p.visits d) := by
  rw [Part.visits_eq d p]
  exact (Part.visits_sublist_flatMap _ h).trans (List.sublist_append_right _ _)

/-- The number of visits, twice, and one for a part that is not visited itself. -/
def Part.size (d : Nat) (p : Part) : Nat :=
  2 * (p.visits d).length + if p.node?.isNone then 1 else 0

theorem Part.eq_expr_of_mem_named {s : Span} {key : Key} {value : Expr} {q : Part}
    (h : q ∈ (Part.named s key value).parts) : ∃ e, q = .expr e := by
  cases key with
  | computed key =>
    rcases List.mem_cons.1 h with rfl | h
    · exact ⟨key, rfl⟩
    · exact ⟨value, List.mem_singleton.1 h⟩
  | ident | string | number => exact ⟨value, List.mem_singleton.1 h⟩

theorem Part.size_lt {p q : Part} (d : Nat) (h : q ∈ p.parts) :
    q.size (p.below d) < p.size d := by
  obtain ⟨i, hi⟩ := List.mem_iff_getElem?.1 h
  have hsublist : (q.visits (p.below d)).Sublist
      (p.walked.flatMap fun w => w.1.visits (p.below d)) :=
    Part.visits_sublist_flatMap _ (Part.mem_walked.2 hi)
  have hlength := hsublist.length_le
  have hvisits := congrArg List.length (p.visits_eq d)
  rw [List.length_append] at hvisits
  unfold Part.size
  cases p with
  | expr | stmt =>
    simp only [Part.node?, Option.map_some, Option.toList_some, List.length_singleton] at hvisits
    split <;> simp only [Part.node?, Option.isNone_some] <;> omega
  | named s key value =>
    obtain ⟨e, rfl⟩ := Part.eq_expr_of_mem_named h
    simp only [Part.node?, Option.map_none, Option.toList_none, List.length_nil] at hvisits
    simp only [Part.node?, Option.isNone_some, Option.isNone_none, if_true, Bool.false_eq_true,
      if_false]
    omega
  | name s => cases h

/-- What follows for a part from the same about its direct parts holds of all parts. -/
theorem Part.induction {motive : Part → Prop}
    (h : ∀ p, (∀ q ∈ p.parts, motive q) → motive p) (p : Part) : motive p := by
  suffices hall : ∀ n d p, p.size d < n → motive p from hall _ 0 p (Nat.lt_succ_self _)
  intro n
  induction n with
  | zero => exact fun _ _ hlt => absurd hlt (Nat.not_lt_zero _)
  | succ n ih =>
    intro d p hlt
    refine h p fun q hq => ih (p.below d) q ?_
    exact Nat.lt_of_lt_of_le (Part.size_lt d hq) (Nat.le_of_lt_succ hlt)

end WidgetLint.Script
