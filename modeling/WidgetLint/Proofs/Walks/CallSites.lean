import Mathlib.Data.List.Forall2
import Mathlib.Tactic.Choose
import WidgetLint.Lint.CallSite
import WidgetLint.Proofs.Walks.Parts

/-!
# Every call site is found once

A place in a tree is a path of indices among the direct parts of its nodes. A walk meets the node
at every place once, and a node before those inside it (`Program.exists_lists`). So **the call sites
of a script are those of its calls, anywhere in the tree, that name a component's method and
configure it with an object, each once and the outer ones first** (`callSites_exact`).
-/

namespace WidgetLint.Script

/-! ## Places in trees -/

/-- The part that a path leads to, each index being one among the direct parts. -/
def Part.at? (p : Part) : List Nat → Option Part
  | [] => some p
  | i :: path => p.parts[i]?.bind (·.at? path)

/-- The part that a path leads to from a list of parts. -/
def partAt? (ps : List Part) : List Nat → Option Part
  | [] => none
  | i :: path => ps[i]?.bind (·.at? path)

def Program.parts (p : Program) : List Part :=
  p.body.map .stmt

/-- The paths lead to the visited nodes, in this order and to each of them once; no path is listed
before one that it goes on from. -/
structure Lists (at? : List Nat → Option Part) (visits : List Visit) (paths : List (List Nat)) :
    Prop where
  nodes : paths.map (fun path => (at? path).bind Part.node?) = visits.map fun v => some v.node
  complete : ∀ path q n, at? path = some q → q.node? = some n → path ∈ paths
  outward : paths.Pairwise fun earlier later => ¬later <+: earlier

/-- If the walks through the parts of a list are listed, so is that through all of them. -/
theorem lists_partAt? {ps : List Part} {ws : List (Part × Nat)} (hperm : ws.Perm ps.zipIdx) {d : Nat}
    (h : ∀ q ∈ ps, ∃ paths, Lists q.at? (q.visits d) paths) :
    ∃ paths, [] ∉ paths ∧ Lists (partAt? ps) (ws.flatMap fun w => w.1.visits d) paths := by
  choose! paths hpaths using h
  have hmem {q : Part} {i : Nat} : (q, i) ∈ ws ↔ ps[i]? = some q := by
    rw [hperm.mem_iff, List.mem_zipIdx_iff_getElem?]
  refine ⟨ws.flatMap fun w => (paths w.1).map (w.2 :: ·), by simp, ?_, ?_, ?_⟩
  · rw [List.map_flatMap, List.map_flatMap]
    refine List.flatMap_congr fun w hw => ?_
    obtain ⟨q, i⟩ := w
    have hq := hmem.1 hw
    rw [List.map_map, ← (hpaths q (List.mem_of_getElem? hq)).nodes]
    exact List.map_congr_left fun path _ => by simp [partAt?, hq]
  · rintro (- | ⟨i, path⟩) q n hat hnode
    · cases hat
    · obtain ⟨p, hp, hat⟩ := Option.bind_eq_some_iff.1 hat
      have hpath := (hpaths p (List.mem_of_getElem? hp)).complete path q n hat hnode
      exact List.mem_flatMap.2 ⟨(p, i), hmem.2 hp, List.mem_map_of_mem hpath⟩
  · rw [List.pairwise_flatMap]
    constructor
    · rintro ⟨q, i⟩ hw
      rw [List.pairwise_map]
      refine (hpaths q (List.mem_of_getElem? (hmem.1 hw))).outward.imp fun hnot hprefix => hnot ?_
      exact (List.cons_prefix_cons.1 hprefix).2
    · -- different parts have different indices
      have hnodup : (ws.map Prod.snd).Nodup := by
        rw [(hperm.map Prod.snd).nodup_iff, List.zipIdx_map_snd]
        exact List.nodup_range'
      rw [List.Nodup, List.pairwise_map] at hnodup
      refine hnodup.imp fun hne path hpath path' hpath' hprefix => ?_
      obtain ⟨rest, -, rfl⟩ := List.mem_map.1 hpath
      obtain ⟨rest', -, rfl⟩ := List.mem_map.1 hpath'
      exact hne (List.cons_prefix_cons.1 hprefix).1.symm

theorem Part.at?_of_ne_nil {p : Part} {path : List Nat} (h : path ≠ []) :
    p.at? path = partAt? p.parts path := by
  cases path with
  | nil => exact absurd rfl h
  | cons i path => rfl

/-- A walk through a part meets every node in it once, and a node before those inside it. -/
theorem Part.exists_lists (p : Part) (d : Nat) : ∃ paths, Lists p.at? (p.visits d) paths := by
  induction p using Part.induction generalizing d with
  | h p ih =>
    obtain ⟨paths, hnil, hpaths⟩ := lists_partAt? p.walked_perm fun q hq => ih q hq (p.below d)
    have hne {path : List Nat} (hpath : path ∈ paths) : path ≠ [] := fun h => hnil (h ▸ hpath)
    have hnodes : paths.map (fun path => (p.at? path).bind Part.node?) =
        (p.walked.flatMap fun w => w.1.visits (p.below d)).map fun v => some v.node := by
      rw [← hpaths.nodes]
      exact List.map_congr_left fun path hpath => by rw [Part.at?_of_ne_nil (hne hpath)]
    have hcomplete (path : List Nat) (q : Part) (n : Node) (hat : p.at? path = some q)
        (hnode : q.node? = some n) : path = [] ∧ p.node? = some n ∨ path ∈ paths := by
      cases path with
      | nil =>
        cases hat
        exact .inl ⟨rfl, hnode⟩
      | cons i path => exact .inr (hpaths.complete _ q n hat hnode)
    rw [Part.visits_eq]
    cases hself : p.node? with
    | none =>
      refine ⟨paths, hnodes, fun path q n hat hnode => ?_, hpaths.outward⟩
      refine (hcomplete path q n hat hnode).resolve_left fun h => ?_
      rw [hself] at h
      cases h.2
    | some node =>
      refine ⟨[] :: paths, ?_, fun path q n hat hnode => ?_, ?_⟩
      · rw [List.map_cons, hnodes, Part.at?, Option.bind_some, hself]
        rfl
      · exact List.mem_cons.2 ((hcomplete path q n hat hnode).imp_left And.left)
      · refine List.pairwise_cons.2 ⟨fun path hpath hprefix => ?_, hpaths.outward⟩
        exact hne hpath (List.prefix_nil.1 hprefix)

theorem Program.exists_lists (p : Program) : ∃ paths, Lists (partAt? p.parts) p.visits paths := by
  obtain ⟨paths, -, hpaths⟩ :=
    lists_partAt? (List.Perm.refl p.parts.zipIdx) fun q _ => q.exists_lists 0
  rw [Part.flatMap_zipIdx, Program.parts, ← visitBody_eq] at hpaths
  exact ⟨paths, hpaths⟩

end WidgetLint.Script

namespace WidgetLint.Lint

open Text Script

/-! ## Call sites -/

theorem componentMethod?_iff {lead component : String} {callee : Expr} {method : Span} :
    componentMethod? lead callee = some (component, method) ↔
      component ≠ "" ∧ ∃ span object optional,
        callee = .dot span object optional (lead ++ component) method := by
  constructor
  · intro h
    obtain ⟨span, object, optional, name, rfl⟩ := componentMethod?_eq_some h
    unfold componentMethod? at h
    dsimp only at h
    split at h
    · rename_i found hname
      rw [Option.ite_none_left_eq_some] at h
      obtain ⟨hempty, hfound⟩ := h
      cases hfound
      exact ⟨by simpa using hempty, span, object, optional, by rw [afterWord?_eq_some.1 hname]⟩
    · cases h
  · rintro ⟨hne, span, object, optional, rfl⟩
    have hname : afterWord? lead (lead ++ component) = some component := afterWord?_eq_some.2 rfl
    simp [componentMethod?, hname, hne]

/-- The expression calls a method of an object by its name, which creates a component, and the first
argument of the call is an object. -/
inductive Configures (lead : String) : Expr → CallSite → Prop
  | mk {span dotSpan nameSpan objectSpan : Span} {object : Expr} {optional optionalCall : Bool}
      {component : String} {members : List Member} {others : List Expr} : component ≠ "" →
      Configures lead
        (.call span (.dot dotSpan object optional (lead ++ component) nameSpan) optionalCall
          (.object objectSpan members :: others))
        ⟨component, nameSpan, .object objectSpan members⟩

theorem callSite?_iff {lead : String} {e : Expr} {site : CallSite} :
    callSite? lead e = some site ↔ Configures lead e site := by
  constructor
  · intro h
    obtain ⟨span, callee, optionalCall, others, rfl, hmethod⟩ := callSite?_eq_some h
    obtain ⟨hne, dotSpan, object, optional, rfl⟩ := componentMethod?_iff.1 hmethod
    obtain ⟨component, method, config⟩ := site
    simp only [callSite?, hmethod, Option.ite_none_right_eq_some] at h
    cases config with
    | object => exact .mk hne
    | _ => cases h.1
  · rintro ⟨hne⟩
    have hmethod {s : Span} {object : Expr} {optional : Bool} {component : String} {method : Span}
        (hne : component ≠ "") :
        componentMethod? lead (.dot s object optional (lead ++ component) method) =
          some (component, method) :=
      componentMethod?_iff.2 ⟨hne, s, object, optional, rfl⟩
    rw [callSite?, hmethod hne]
    rfl

/-- A call site stands where a path leads to. -/
def SiteAt (lead : String) (p : Program) (path : List Nat) (site : CallSite) : Prop :=
  ∃ e, partAt? p.parts path = some (.expr e) ∧ Configures lead e site

/-- The call site that a node is, if it is one. -/
def nodeSite? (lead : String) : Node → Option CallSite
  | .expr e => callSite? lead e
  | .stmt _ => none

theorem callSites_eq (lead : String) (p : Program) :
    callSites lead p = p.visits.filterMap fun v => nodeSite? lead v.node := by
  rw [callSites, expressions, List.filterMap_filterMap]
  refine List.filterMap_congr fun v _ => ?_
  cases v.node <;> rfl

/-- The call site where a path leads to, if there is one. -/
def siteAt? (lead : String) (p : Program) (path : List Nat) : Option CallSite :=
  ((partAt? p.parts path).bind Part.node?).bind (nodeSite? lead)

theorem siteAt?_eq_some {lead : String} {p : Program} {path : List Nat} {site : CallSite} :
    siteAt? lead p path = some site ↔ SiteAt lead p path site := by
  rw [siteAt?, SiteAt]
  cases partAt? p.parts path with
  | none => simp
  | some q => cases q <;> simp [Part.node?, nodeSite?, callSite?_iff]

theorem forall₂_filterMap {α β : Type} (f : α → Option β) (xs : List α) :
    List.Forall₂ (fun x y => f x = some y) (xs.filter fun x => (f x).isSome) (xs.filterMap f) := by
  induction xs with
  | nil => exact .nil
  | cons x xs ih =>
    cases hx : f x with
    | none => simpa [hx] using ih
    | some y => simpa [hx] using ih

/-- **Call sites are found wherever they stand, once each, and the outer ones first.** The call
sites of a script stand at the places in its tree, all of them and no others, where a call names a
method that creates a component and configures it with an object; no two are at one place, and none
comes before one that it stands in. -/
theorem callSites_exact (lead : String) (p : Program) :
    ∃ paths : List (List Nat), paths.Nodup ∧
      (∀ path, path ∈ paths ↔ ∃ site, SiteAt lead p path site) ∧
      List.Forall₂ (SiteAt lead p) paths (callSites lead p) ∧
      paths.Pairwise fun earlier later => ¬later <+: earlier := by
  obtain ⟨paths, hpaths⟩ := p.exists_lists
  have hsites : callSites lead p = paths.filterMap (siteAt? lead p) := by
    have hnodes := congrArg (List.filterMap (·.bind (nodeSite? lead))) hpaths.nodes
    rw [List.filterMap_map, List.filterMap_map] at hnodes
    rw [callSites_eq]
    exact hnodes.symm
  have houtward := hpaths.outward.filter fun path => (siteAt? lead p path).isSome
  refine ⟨paths.filter fun path => (siteAt? lead p path).isSome, ?_, fun path => ?_, ?_, houtward⟩
  · refine List.Pairwise.imp ?_ houtward
    rintro earlier later hnot rfl
    exact hnot List.prefix_rfl
  · rw [List.mem_filter, Option.isSome_iff_exists]
    simp only [siteAt?_eq_some]
    refine and_iff_right_of_imp ?_
    rintro ⟨site, e, hat, -⟩
    exact hpaths.complete path _ _ hat rfl
  · rw [hsites]
    exact (forall₂_filterMap (siteAt? lead p) paths).imp fun _ _ => siteAt?_eq_some.1

end WidgetLint.Lint
