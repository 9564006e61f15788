import WidgetLint.Lint.Linter
import WidgetLint.Proofs.Spans.Nested
import WidgetLint.Proofs.Walks.CallSites

/-!
# The order of a walk

A walk meets the nodes of a script in the order in which they start, with one exception: it goes
through the test of a `do` loop before the body that is written in front of it. **A node is met
after one that starts behind it exactly if it is in the body of a `do` loop and the other one in the
test of that loop** (`visits_inTurn_unless_tested`). The diagnostics of a script come in the order in
which a walk meets its call sites.
-/

namespace WidgetLint.Script

open Text

def Visit.start (v : Visit) : Nat :=
  v.node.part.span.start.offset

/-- Among the visits is a `do` loop with one visit in its test and the other one in its body. -/
def TestedBefore (visits : List Visit) (v w : Visit) : Prop :=
  ∃ d span body test, ⟨d, .stmt (.doWhile span body test)⟩ ∈ visits ∧
    v ∈ (Part.expr test).visits (d + 1) ∧ w ∈ (Part.stmt body).visits (d + 1)

theorem TestedBefore.mono {visits others : List Visit} {v w : Visit} (h : TestedBefore visits v w)
    (hsub : visits ⊆ others) : TestedBefore others v w := by
  obtain ⟨d, span, body, test, hloop, hv, hw⟩ := h
  exact ⟨d, span, body, test, hsub hloop, hv, hw⟩

section
variable {text : List Char} {p : Part}

theorem Part.WellNested.start_lt_stop (h : p.WellNested text) :
    p.span.start.offset < p.span.stop.offset := by
  cases h with
  | @mk _ stretch hne _ hlength _ _ _ =>
    obtain ⟨c, rest, rfl⟩ := List.exists_cons_of_ne_nil hne
    have hpos := Char.utf8Size_pos c
    rw [byteSize_cons, Span.length] at hlength
    omega

theorem Part.WellNested.visits_within (h : p.WellNested text) (d : Nat) :
    ∀ v ∈ p.visits d, p.span.start.offset ≤ v.start ∧ v.start < p.span.stop.offset := by
  induction h generalizing d with
  | @mk p stretch hne hcovers hlength hwithin hapart hnested ih =>
    have hlt := (Part.WellNested.mk hne hcovers hlength hwithin hapart hnested).start_lt_stop
    intro v hv
    rcases Part.mem_visits hv with ⟨-, hown⟩ | ⟨w, hw, hv⟩
    · rw [Visit.start, hown]
      exact ⟨Nat.le_refl _, hlt⟩
    · have hpart := hwithin _ (Part.mem_parts hw)
      obtain ⟨hstart, hstop⟩ := ih _ (Part.mem_parts hw) (p.below d) v hv
      exact ⟨Nat.le_trans hpart.1 hstart, Nat.lt_of_lt_of_le hstop hpart.2⟩

/-- The body of a `do` loop stands in front of its test. -/
theorem TestedBefore.start_lt {visits : List Visit} {v w : Visit}
    (hvisits : ∀ v ∈ visits, v.node.part.WellNested text) (h : TestedBefore visits v w) :
    w.start < v.start := by
  obtain ⟨d, span, body, test, hloop, hv, hw⟩ := h
  have hnested : (Part.stmt (.doWhile span body test)).WellNested text := hvisits _ hloop
  obtain ⟨hbody, htest⟩ := allNested_cons.1 hnested.parts
  have hapart : (Part.stmt body).Precedes (.expr test) := List.pairwise_pair.1 hnested.apart
  have hv' := ((allNested_cons.1 htest).1.visits_within _ v hv).1
  have hw' := (hbody.visits_within _ w hw).2
  exact Nat.lt_of_lt_of_le hw' (Nat.le_trans hapart hv')

/-! ## What comes in turn -/

/-- The second visit does not start in front of the first one, or it is in the body of a `do` loop
with the first one in its test. -/
def InTurn (visits : List Visit) (v w : Visit) : Prop :=
  v.start ≤ w.start ∨ TestedBefore visits v w

/-- Walks through parts that stand one behind the other follow in turn if each of them does. -/
theorem pairwise_inTurn {ws : List (Part × Nat)} {d : Nat} {visits : List Visit}
    (hnested : ∀ w ∈ ws, w.1.WellNested text)
    (hturn : ∀ w ∈ ws, (w.1.visits d).Pairwise (InTurn visits))
    (horder : ws.Pairwise fun a b => a.1.Precedes b.1 ∨
      ∀ v ∈ a.1.visits d, ∀ w ∈ b.1.visits d, TestedBefore visits v w) :
    (ws.flatMap fun w => w.1.visits d).Pairwise (InTurn visits) := by
  refine List.pairwise_flatMap.2 ⟨hturn, horder.imp_of_mem fun {a b} ha hb hab v hv w hw => ?_⟩
  refine hab.imp (fun hab => ?_) fun htested => htested v hv w hw
  have hv' := ((hnested a ha).visits_within d v hv).2
  have hw' := ((hnested b hb).visits_within d w hw).1
  exact Nat.le_trans (Nat.le_of_lt hv') (Nat.le_trans hab hw')

theorem pairwise_zipIdx {ps : List Part} {R : Part → Part → Prop} (h : ps.Pairwise R) :
    ps.zipIdx.Pairwise fun a b => R a.1 b.1 := by
  rwa [← List.pairwise_map, List.zipIdx_map_fst]

/-- Direct parts are met in the order of the text, except for the two of a `do` loop. -/
theorem Part.walked_pairwise (h : p.parts.Pairwise Part.Precedes) :
    p.walked.Pairwise fun a b => a.1.Precedes b.1 ∨ ∃ span body test,
      p = .stmt (.doWhile span body test) ∧ a.1 = .expr test ∧ b.1 = .stmt body := by
  unfold Part.walked
  split
  · rename_i span body test
    exact List.pairwise_pair.2 (.inr ⟨span, body, test, rfl, rfl, rfl⟩)
  · exact (pairwise_zipIdx h).imp .inl

theorem Part.WellNested.visits_inTurn (h : p.WellNested text) (d : Nat) :
    (p.visits d).Pairwise (InTurn (p.visits d)) := by
  induction h generalizing d with
  | @mk p stretch hne hcovers hlength hwithin hapart hnested ih =>
    have hself := Part.WellNested.mk hne hcovers hlength hwithin hapart hnested
    have hinside : (p.walked.flatMap fun w => w.1.visits (p.below d)).Pairwise
        (InTurn (p.visits d)) := by
      refine pairwise_inTurn (fun w hw => hnested _ (Part.mem_parts hw)) (fun w hw => ?_)
        ((Part.walked_pairwise hapart).imp (.imp_right ?_))
      · have hsub := (Part.visits_sublist d hw).subset
        exact (ih _ (Part.mem_parts hw) _).imp (.imp_right (·.mono hsub))
      · rintro ⟨span, body, test, rfl, htest, hbody⟩ v hv w hw
        refine ⟨d, span, body, test, ?_, htest ▸ hv, hbody ▸ hw⟩
        exact Part.visits_eq d _ ▸ List.mem_cons_self
    have heq := Part.visits_eq d p
    cases hnode : p.node? with
    | none =>
      rw [hnode] at heq
      exact heq ▸ hinside
    | some node =>
      rw [hnode] at heq
      have hown : node.part = p := by
        cases p <;> cases hnode <;> rfl
      rw [heq]
      refine List.pairwise_cons.2 ⟨fun w hw => .inl ?_, heq ▸ hinside⟩
      have hwithin := (hself.visits_within d w (heq ▸ List.mem_cons_of_mem _ hw)).1
      rwa [← hown] at hwithin

theorem Part.visits_sublist_of_mem (p : Part) (d : Nat) {v : Visit} (h : v ∈ p.visits d) :
    (v.node.part.visits v.depth).Sublist (p.visits d) := by
  induction p using Part.induction generalizing d with
  | h p ih =>
    rcases Part.mem_visits h with ⟨hdepth, hown⟩ | ⟨w, hw, hv⟩
    · rw [hdepth, hown]
    · exact (ih w.1 (Part.mem_parts hw) _ hv).trans (Part.visits_sublist d hw)

end

/-! ## Scripts -/

section
variable {text : List Char} {p : Program}

theorem Program.visits_eq (p : Program) :
    p.visits = p.parts.zipIdx.flatMap fun w => w.1.visits 0 := by
  rw [Part.flatMap_zipIdx, Program.parts, ← visitBody_eq, Program.visits]

theorem Program.visits_sublist_of_mem {v : Visit} (h : v ∈ p.visits) :
    (v.node.part.visits v.depth).Sublist p.visits := by
  rw [Program.visits_eq] at h ⊢
  obtain ⟨w, hw, hv⟩ := List.mem_flatMap.1 h
  exact (w.1.visits_sublist_of_mem 0 hv).trans (Part.visits_sublist_flatMap 0 hw)

theorem Program.WellNested.visits_inTurn (h : p.WellNested text) :
    p.visits.Pairwise (InTurn p.visits) := by
  have hnested : ∀ w ∈ p.parts.zipIdx, w.1.WellNested text := by
    rintro ⟨q, i⟩ hw
    obtain ⟨s, hs, rfl⟩ := List.mem_map.1 (List.fst_mem_of_mem_zipIdx hw)
    exact (h.statements s hs).1
  have hmono {w : Part × Nat} (hw : w ∈ p.parts.zipIdx) : w.1.visits 0 ⊆ p.visits :=
    Program.visits_eq p ▸ (Part.visits_sublist_flatMap 0 hw).subset
  have hturn : (p.parts.zipIdx.flatMap fun w => w.1.visits 0).Pairwise (InTurn p.visits) := by
    refine pairwise_inTurn hnested (fun w hw => ?_) ((pairwise_zipIdx h.apart).imp .inl)
    exact ((hnested w hw).visits_inTurn 0).imp (.imp_right (·.mono (hmono hw)))
  rwa [← Program.visits_eq] at hturn

theorem Program.WellNested.start_lt_iff (h : p.WellNested text) :
    p.visits.Pairwise fun v w => w.start < v.start ↔ TestedBefore p.visits v w :=
  h.visits_inTurn.imp fun hturn =>
    ⟨hturn.resolve_left ∘ Nat.not_le_of_lt, TestedBefore.start_lt h.visits⟩

/-- Where a `do` loop stands in a script, the first node of its body is met after its test. -/
theorem Program.WellNested.visits_ordered_iff (h : p.WellNested text) :
    p.visits.Pairwise (fun v w => v.start ≤ w.start) ↔
      ∀ v ∈ p.visits, ∀ span body test, v.node ≠ .stmt (.doWhile span body test) := by
  constructor
  · rintro hordered ⟨d, _⟩ hloop span body test rfl
    have htested : TestedBefore p.visits ⟨d + 1, .expr test⟩ ⟨d + 1, .stmt body⟩ :=
      ⟨d, span, body, test, hloop, List.mem_cons_self, List.mem_cons_self⟩
    have hboth : ([Visit.mk (d + 1) (.expr test)] ++ [Visit.mk (d + 1) (.stmt body)]).Sublist
        ((Part.expr test).visits (d + 1) ++ (Part.stmt body).visits (d + 1)) :=
      .append (List.singleton_sublist.2 List.mem_cons_self)
        (List.singleton_sublist.2 List.mem_cons_self)
    have hsublist := (hboth.cons _).trans (Program.visits_sublist_of_mem hloop)
    have hle := List.pairwise_pair.1 (hordered.sublist hsublist)
    exact Nat.not_le_of_lt (htested.start_lt h.visits) hle
  · intro hnone
    refine h.visits_inTurn.imp fun hturn => hturn.resolve_right ?_
    rintro ⟨d, span, body, test, hloop, -⟩
    exact hnone _ hloop span body test rfl

end

end WidgetLint.Script

namespace WidgetLint.Lint

open Script Check

/-- The diagnostics of a script file that stem from the call site that a visited node is. -/
def Linter.reportsAt (l : Linter) (filename : String) (v : Visit) : List Diagnostic :=
  ((nodeSite? l.settings.methodPrefix v.node).toList.flatMap l.checkSite).map (·.inFile filename)

theorem Linter.lintScript_eq (l : Linter) {text : String} {p : Program}
    (h : parseProgram text = .ok p) (filename : String) :
    l.lintScript text filename = p.visits.flatMap (l.reportsAt filename) := by
  rw [Linter.lintScript_map, Linter.checkScript_ok l h, callSites_eq, List.filterMap_eq_flatMap_toList,
    List.flatMap_assoc, List.map_flatMap]
  rfl

/-- **A walk goes in the order of the text, except that it tests a `do` loop before going into it.**
Of two nodes of a script, the one that is met later starts in front of the other one exactly if it is
in the body of a `do` loop and the other one in the test of that loop, so a walk meets nodes in the
order in which they start exactly if there is no such loop; and the diagnostics of a script are those
of the calls in it, in the order in which a walk meets them. -/
theorem visits_inTurn_unless_tested (text : String) (p : Program) (h : parseProgram text = .ok p) :
    (p.visits.Pairwise fun v w => w.start < v.start ↔ TestedBefore p.visits v w) ∧
      (p.visits.Pairwise (fun v w => v.start ≤ w.start) ↔
        ∀ v ∈ p.visits, ∀ span body test, v.node ≠ .stmt (.doWhile span body test)) ∧
      ∀ (l : Linter) filename,
        l.lintScript text filename = p.visits.flatMap (l.reportsAt filename) :=
  have hnested := parseProgram_wellNested h
  ⟨hnested.start_lt_iff, hnested.visits_ordered_iff, fun l => l.lintScript_eq h⟩

/-- A call in a loop that is tested first, and one behind it. -/
theorem visits_inTurn_while : ∃ p,
    parseProgram "while (a) $.kendoGrid({}); $.kendoMap({});" = .ok p ∧
      (p.visits.Pairwise fun v w => w.start < v.start ↔ TestedBefore p.visits v w) ∧
      p.visits.Pairwise fun v w => v.start ≤ w.start := by
  have hvisits : (parseProgram "while (a) $.kendoGrid({}); $.kendoMap({});").toOption.map
      (·.visits.map Visit.start) = some [0, 7, 10, 10, 10, 10, 22, 27, 27, 27, 27, 38] := by
    decide +kernel
  obtain ⟨p, hp, hstarts⟩ := exists_of_map_toOption hvisits
  refine ⟨p, hp, (visits_inTurn_unless_tested _ p hp).1, List.pairwise_map.1 ?_⟩
  rw [hstarts]
  decide

/-- The test of a `do` loop is met before its body, and so are the calls in it. -/
theorem doWhile_not_inTurn :
    (∃ p, parseProgram "do $.kendoB({}); while ($.kendoA({}));" = .ok p ∧
      ¬p.visits.Pairwise fun v w => v.start ≤ w.start) ∧
      ¬((Linter.lintScript ⟨⟨[], List.nodup_nil⟩, {}⟩ "do $.kendoB({}); while ($.kendoA({}));"
        "a.js").filterMap (·.position.map (·.offset))).Pairwise (· ≤ ·) := by
  obtain ⟨hvisits, hfound⟩ :
      (parseProgram "do $.kendoB({}); while ($.kendoA({}));").toOption.map
        (·.visits.map Visit.start) = some [0, 24, 24, 24, 33, 3, 3, 3, 3, 12] ∧
      ¬((Linter.lintScript ⟨⟨[], List.nodup_nil⟩, {}⟩ "do $.kendoB({}); while ($.kendoA({}));"
        "a.js").filterMap (·.position.map (·.offset))).Pairwise (· ≤ ·) := by
    decide +kernel
  obtain ⟨p, hp, hstarts⟩ := exists_of_map_toOption hvisits
  refine ⟨⟨p, hp, fun hordered => ?_⟩, hfound⟩
  have hmap := List.pairwise_map.2 hordered
  rw [hstarts] at hmap
  revert hmap
  decide

end WidgetLint.Lint
