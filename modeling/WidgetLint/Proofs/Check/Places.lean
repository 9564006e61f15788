import WidgetLint.Check.Validation
import WidgetLint.Proofs.Script.Places

/-!
# Where the check of a configuration complains

Every diagnostic about an entry stands where its key or its value does, and the entries inside a
value stand inside it. So if all positions of a configuration are places of a text, the diagnostics
are at places of that text too.
-/

namespace WidgetLint.Script

open Text

theorem Expr.Within.start {P : Position → Prop} {e : Expr} (h : e.Within P) : P e.span.start := by
  have hspan := congrArg Expr.span h
  rw [Expr.relabel_span, Relabeling.moving_span, move_keeping_eq_self] at hspan
  exact hspan.1

def Member.Within (P : Position → Prop) (m : Member) : Prop :=
  m.relabel (.moving (keeping P)) = m

theorem Expr.Within.members {P : Position → Prop} {s : Span} {members : List Member}
    (h : (Expr.object s members).Within P) : ∀ m ∈ members, m.Within P := by
  simp only [Expr.Within, Expr.relabel, Expr.object.injEq, relabelMembers_eq] at h
  exact map_eq_self_iff.mp h.2

theorem Member.Within.named {P : Position → Prop} {s : Span} {kind : MemberKind} {key : Key}
    {value : Expr} (h : (Member.named s kind key value).Within P) :
    P s.start ∧ value.Within P := by
  simp only [Member.Within, Member.relabel, Member.named.injEq, Relabeling.moving_span,
    move_keeping_eq_self] at h
  exact ⟨h.1.1, h.2.2.2⟩

/-- A value starts at one of the given positions, and so does everything in it that a check of its
entries looks at. -/
structure Expr.Anchored (P : Position → Prop) (e : Expr) : Prop where
  start : P e.span.start
  members : ∀ s members, e = .object s members → ∀ m ∈ members, m.Within P

theorem Expr.Within.anchored {P : Position → Prop} {e : Expr} (h : e.Within P) : e.Anchored P := by
  refine ⟨h.start, ?_⟩
  rintro s members rfl
  exact h.members

end WidgetLint.Script

namespace WidgetLint.Check

open Text Script Schema

def Diagnostic.Within (P : Position → Prop) (d : Diagnostic) : Prop :=
  ∃ p, d.position = some p ∧ P p

def Entry.Within (P : Position → Prop) (entry : Entry) : Prop :=
  P entry.position ∧ entry.value.Anchored P

variable {P : Position → Prop}

theorem sameAsDefault?_within {d : Descriptor} {entry : Entry} (h : P entry.position)
    {found : Diagnostic} (hfound : sameAsDefault? d entry = some found) : found.Within P := by
  unfold sameAsDefault? at hfound
  split at hfound
  · split at hfound
    · cases hfound
      exact ⟨entry.position, rfl, h⟩
    · cases hfound
  · cases hfound

theorem judge_within {model : Model} {scope : Scope} {entry : Entry}
    {inside : Scope → List Diagnostic} (hentry : entry.Within P)
    (hinside : ∀ inner, ∀ found ∈ inside inner, found.Within P) :
    ∀ found ∈ judge model scope entry inside, found.Within P := by
  intro found hfound
  unfold judge at hfound
  split at hfound
  · rw [List.mem_singleton] at hfound
    subst hfound
    exact ⟨entry.position, rfl, hentry.1⟩
  · simp only at hfound
    split at hfound
    · rcases List.mem_append.mp hfound with hnested | hsame
      · split at hnested
        · cases hscope : innerScope? model ‹Descriptor› with
          | none => simp [hscope] at hnested
          | some inner =>
            rw [hscope] at hnested
            exact hinside inner found hnested
        · simp at hnested
      · exact sameAsDefault?_within hentry.1 (Option.mem_toList.mp hsame)
    · rw [List.mem_singleton] at hfound
      subst hfound
      exact ⟨entry.value.span.start, rfl, hentry.2.start⟩

mutual

theorem checkObject_within (model : Model) (scope : Scope) (e : Expr) (h : e.Anchored P) :
    ∀ found ∈ checkObject model scope e, found.Within P := by
  cases e with
  | object s members =>
    rw [checkObject]
    exact checkMembers_within model scope members (h.members s members rfl)
  | _ => simp [checkObject]

theorem checkMembers_within (model : Model) (scope : Scope) (members : List Member)
    (h : ∀ m ∈ members, m.Within P) :
    ∀ found ∈ checkMembers model scope members, found.Within P := by
  intro found hfound
  cases members with
  | nil => simp [checkMembers] at hfound
  | cons member rest =>
    rw [checkMembers] at hfound
    rcases List.mem_append.mp hfound with hfound | hfound
    · exact checkMember_within model scope member (h member (by simp)) found hfound
    · exact checkMembers_within model scope rest (fun m hm => h m (by simp [hm])) found hfound

theorem checkMember_within (model : Model) (scope : Scope) (member : Member)
    (h : member.Within P) : ∀ found ∈ checkMember model scope member, found.Within P := by
  cases member with
  | spread e => simp [checkMember]
  | named s kind key value =>
    intro found hfound
    rw [checkMember] at hfound
    split at hfound
    · simp at hfound
    · have hentry : Entry.Within P ⟨‹String›, value, s.start, keyLength key ‹String›⟩ :=
        ⟨h.named.1, h.named.2.anchored⟩
      refine judge_within hentry ?_ found hfound
      exact fun inner => checkObject_within model inner value h.named.2.anchored

end

theorem checkComponent_within {model : Model} {c : Component} {entries : List Entry}
    (h : ∀ entry ∈ entries, entry.Within P) :
    ∀ found ∈ checkComponent model c entries, found.Within P := by
  intro found hfound
  simp only [checkComponent, checkEntries, List.mem_flatMap] at hfound
  obtain ⟨entry, hentry, hfound⟩ := hfound
  refine judge_within (h entry hentry) ?_ found hfound
  exact fun inner => checkObject_within model inner entry.value (h entry hentry).2

theorem Entry.ofObject_within {e : Expr} (h : e.Within P) :
    ∀ entry ∈ Entry.ofObject e, entry.Within P := by
  intro entry hentry
  cases e with
  | object s members =>
    simp only [Entry.ofObject, List.mem_filterMap] at hentry
    obtain ⟨member, hmember, hentry⟩ := hentry
    cases member with
    | spread e => cases hentry
    | named s kind key value =>
      simp only [Entry.ofMember?, Option.map_eq_some_iff] at hentry
      obtain ⟨name, -, rfl⟩ := hentry
      have hnamed := (h.members _ hmember).named
      exact ⟨hnamed.1, hnamed.2.anchored⟩
  | _ => simp [Entry.ofObject] at hentry

end WidgetLint.Check
