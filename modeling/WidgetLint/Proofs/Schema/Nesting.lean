import Mathlib.Data.List.Perm.Basic
import WidgetLint.Schema.Nesting

/-!
# Nesting options loses nothing

Nesting moves an option under the option or event that the first part of its name names, with all
that has moved under it before. A *family* is a documented descriptor and the families that have
moved under it, each with its place in the documentation. **A nested component is a forest of the
documented options**, in which every option stands once, under the name before its last point and
among its siblings in the order of the documentation (`nest_loses_nothing`).

Options are moved last to first. What has not been visited stands in front as it was documented,
what has been visited and has stayed follows, and an option comes first under its parent, before
the options that were documented after it (`Stage`).
-/

namespace WidgetLint.Schema

open Text

/-! ## What is documented -/

mutual

/-- What is documented about a descriptor and those inside it: the name that messages use, the types
and the default. -/
def Descriptor.described : Descriptor → List (String × List TypeTag × Option String)
  | ⟨name, fullName, types, defaultText, sub⟩ =>
    (fullName.getD name, types, defaultText) :: describedAll sub

def describedAll : List Descriptor → List (String × List TypeTag × Option String)
  | [] => []
  | d :: rest => d.described ++ describedAll rest

end

def Component.described (c : Component) : List (String × List TypeTag × Option String) :=
  describedAll (c.options ++ c.events)

theorem describedAll_eq (ds : List Descriptor) :
    describedAll ds = ds.flatMap Descriptor.described := by
  induction ds with
  | nil => rfl
  | cons d rest ih => rw [describedAll, ih, List.flatMap_cons]

theorem Descriptor.described_eq (d : Descriptor) :
    d.described = (d.displayName, d.types, d.defaultText) :: d.sub.flatMap described := by
  cases d
  rw [described, describedAll_eq]
  rfl

/-! ## Families -/

/-- A documented descriptor, its place in the documentation and the families that have moved under
it. -/
structure Family where
  head : Descriptor
  place : Nat
  moved : List Family

def Family.label (f : Family) : Descriptor × Nat :=
  (f.head, f.place)

mutual

/-- All descriptors of a family with their places. -/
def Family.members : Family → List (Descriptor × Nat)
  | ⟨d, place, fs⟩ => (d, place) :: membersAll fs

def membersAll : List Family → List (Descriptor × Nat)
  | [] => []
  | f :: fs => f.members ++ membersAll fs

end

mutual

/-- The family as one descriptor that has moved: it goes by the last part of its name and keeps the
name with all its points. -/
def Family.nested : Family → Descriptor
  | ⟨d, _, fs⟩ =>
    { d with
      name := ((splitDotted? d.name).map Prod.snd).getD d.name
      fullName := some d.name
      sub := nestedAll fs ++ d.sub }

def nestedAll : List Family → List Descriptor
  | [] => []
  | f :: fs => f.nested :: nestedAll fs

end

def Family.top (f : Family) : Descriptor :=
  { f.head with sub := nestedAll f.moved ++ f.head.sub }

/-- The families, in this order, belong under a descriptor that was documented under `name`, and so
do the families under each of them: each one is named by `name` and a last part, and they stand in
the order of the documentation. -/
inductive Belong (documentation : List (Descriptor × Nat)) : String → List Family → Prop
  | intro {name : String} {fs : List Family} :
      (∀ f ∈ fs, ∃ child, splitDotted? f.head.name = some (name, child)) →
      (fs.map Family.label).Sublist documentation →
      (∀ f ∈ fs, Belong documentation f.head.name f.moved) → Belong documentation name fs

/-- The component with families as its options and events. -/
def Component.assemble (c : Component) (options events : List Family) : Component :=
  { c with options := options.map Family.top, events := events.map Family.top }

/-- The families of options and events are an arrangement of what is documented. -/
structure Component.Arranges (c : Component) (options events : List Family) : Prop where
  /-- Every option and every event stands once in the arrangement. -/
  once : (membersAll (options ++ events)).Perm (c.options.zipIdx ++ c.events.zipIdx)
  /-- The options that have not moved are in the order of the documentation. -/
  options_sublist : (options.map Family.label).Sublist c.options.zipIdx
  /-- No event has moved. -/
  events_eq : events.map Family.label = c.events.zipIdx
  /-- What has moved has come under its parent, in the order of the documentation. -/
  belong : ∀ f ∈ options ++ events, Belong c.options.zipIdx f.head.name f.moved

/-- No option is documented before the option that the first part of its name names. -/
def Component.ParentsFirst (c : Component) : Prop :=
  c.options.Pairwise fun earlier later =>
    (splitDotted? earlier.name).map Prod.fst ≠ some later.name

/-! ## Lists of families -/

variable {c : Component} {f g : Family} {fs : List Family}

theorem membersAll_eq (fs : List Family) : membersAll fs = fs.flatMap Family.members := by
  induction fs with
  | nil => rfl
  | cons f fs ih => rw [membersAll, ih, List.flatMap_cons]

theorem nestedAll_eq (fs : List Family) : nestedAll fs = fs.map Family.nested := by
  induction fs with
  | nil => rfl
  | cons f fs ih => rw [nestedAll, ih, List.map_cons]

theorem Family.members_eq (f : Family) : f.members = f.label :: f.moved.flatMap Family.members := by
  cases f
  rw [members, membersAll_eq]
  rfl

@[simp] theorem Family.top_name (f : Family) : f.top.name = f.head.name := rfl

theorem Family.nested_eq (f : Family) :
    f.nested = { f.head with
      name := ((splitDotted? f.head.name).map Prod.snd).getD f.head.name
      fullName := some f.head.name
      sub := f.moved.map nested ++ f.head.sub } := by
  cases f
  rw [nested, nestedAll_eq]

theorem Family.nested_displayName (f : Family) : f.nested.displayName = f.head.name := by
  rw [nested_eq]
  rfl

theorem Family.nested_eq_top {parent child : String}
    (h : splitDotted? f.head.name = some (parent, child)) :
    f.nested = { f.top with name := child, fullName := some f.top.name } := by
  rw [nested_eq, h, top, nestedAll_eq]
  rfl

/-- The family with another one in front of those that have moved under it. -/
def Family.adopt (g f : Family) : Family :=
  { g with moved := f :: g.moved }

@[simp] theorem Family.adopt_label (g f : Family) : (g.adopt f).label = g.label := rfl

theorem Family.adopt_members (g f : Family) : (g.adopt f).members.Perm (f.members ++ g.members) := by
  rw [members_eq, members_eq g]
  exact List.perm_middle.symm

/-- The members of families are those of a family that has moved among them and of the others. -/
theorem Family.adopt_among (f g : Family) (before after : List Family) :
    ((before ++ g.adopt f :: after).flatMap Family.members).Perm
      ((f :: (before ++ g :: after)).flatMap Family.members) := by
  rw [List.flatMap_cons, List.flatMap_append, List.flatMap_append, List.flatMap_cons,
    List.flatMap_cons]
  refine (((adopt_members g f).append_right _).append_left _).trans ?_
  rw [List.append_assoc]
  exact List.perm_append_comm_assoc _ _ _

/-- A family that has moved is inserted under the first family that could be its parent. -/
theorem insertUnder_top {parent : String} (f : Family)
    (h : namesOne parent (fs.map Family.top) = true) :
    ∃ before g after, fs = before ++ g :: after ∧ g.head.name = parent ∧
      insertUnder parent f.nested (fs.map Family.top) =
        (before ++ g.adopt f :: after).map Family.top := by
  induction fs with
  | nil => cases h
  | cons g fs ih =>
    rw [List.map_cons, insertUnder]
    by_cases hname : (g.top.name == parent) = true
    · rw [if_pos hname]
      exact ⟨[], g, fs, rfl, eq_of_beq hname, rfl⟩
    · rw [if_neg hname]
      have hrest : namesOne parent (fs.map Family.top) = true := by
        rw [namesOne, List.map_cons, List.any_cons, Bool.eq_false_iff.2 hname] at h
        exact h
      obtain ⟨before, g', after, rfl, hparent, hinsert⟩ := ih hrest
      exact ⟨g :: before, g', after, rfl, hparent, by rw [hinsert]; rfl⟩

theorem namesOne_top (parent : String) (fs : List Family) :
    namesOne parent (fs.map Family.top) = namesOne parent (fs.map Family.head) := by
  simp [namesOne, List.any_map, Function.comp_def]

theorem namesOne_append (name : String) (ds es : List Descriptor) :
    namesOne name (ds ++ es) = (namesOne name ds || namesOne name es) :=
  List.any_append

theorem heads_eq (fs : List Family) : fs.map Family.head = (fs.map Family.label).map Prod.fst := by
  rw [List.map_map]
  rfl

/-! ## One option moves -/

/-- The first part of the option's name names no event and no option that is documented before it,
if the name has two parts. -/
def Component.Stranded (c : Component) (x : Descriptor × Nat) : Prop :=
  ∀ parent child, splitDotted? x.1.name = some (parent, child) →
    namesOne parent (c.options.take x.2) = false ∧ namesOne parent c.events = false

/-- What has moved under the family has come from the options documented at `i` or later. -/
structure Settled (c : Component) (i : Nat) (f : Family) : Prop where
  belong : Belong c.options.zipIdx f.head.name f.moved
  late : (f.moved.map Family.label).Sublist (c.options.zipIdx.drop i)

/-- The families are an arrangement in which the options documented before `i` still stand in front,
and those behind them have been visited and have stayed. -/
structure Stage (c : Component) (i : Nat) (options events : List Family) : Prop where
  visited : ∃ stayed, options.map Family.label = c.options.zipIdx.take i ++ stayed ∧
    stayed.Sublist (c.options.zipIdx.drop i) ∧ ∀ x ∈ stayed, c.Stranded x
  events_eq : events.map Family.label = c.events.zipIdx
  settled : ∀ f ∈ options ++ events, Settled c i f
  once : (membersAll (options ++ events)).Perm (c.options.zipIdx ++ c.events.zipIdx)

variable {i : Nat} {options events : List Family}

theorem Stage.event_heads (h : Stage c i options events) : events.map Family.head = c.events := by
  rw [heads_eq, h.events_eq, List.zipIdx_map_fst]

theorem Settled.weaken (h : Settled c (i + 1) f) : Settled c i f :=
  ⟨h.belong, h.late.trans (List.drop_sublist_drop_left _ (Nat.le_succ i))⟩

theorem Settled.adopt {child : String} (hg : Settled c (i + 1) g) (hf : Settled c (i + 1) f)
    (hlabel : c.options.zipIdx.drop i = f.label :: c.options.zipIdx.drop (i + 1))
    (hsplit : splitDotted? f.head.name = some (g.head.name, child)) : Settled c i (g.adopt f) := by
  have hlate : ((g.adopt f).moved.map Family.label).Sublist (c.options.zipIdx.drop i) := by
    rw [hlabel]
    exact hg.late.cons_cons _
  obtain ⟨hnames, -, hbelong⟩ := hg.belong
  refine ⟨.intro (fun f' hf' => ?_) (hlate.trans (List.drop_sublist _ _)) fun f' hf' => ?_, hlate⟩
  · rcases List.mem_cons.1 hf' with rfl | hf'
    · exact ⟨child, hsplit⟩
    · exact hnames f' hf'
  · rcases List.mem_cons.1 hf' with rfl | hf'
    · exact hf.belong
    · exact hbelong f' hf'

/-- The option documented at `i` is the last one that has not been visited: `init` stand before it
and `rest` have been visited and have stayed. -/
structure Visit (c : Component) (i : Nat) (init : List Family) (f : Family) (rest : List Family) :
    Prop where
  before : init.map Family.label = c.options.zipIdx.take i
  here : c.options.zipIdx.drop i = f.label :: c.options.zipIdx.drop (i + 1)
  behind : (rest.map Family.label).Sublist (c.options.zipIdx.drop (i + 1))
  stranded : ∀ x ∈ rest.map Family.label, c.Stranded x

variable {init rest : List Family}

theorem Stage.visit (h : Stage c (i + 1) options events) (hi : i < c.options.length) :
    ∃ init f rest, options = init ++ f :: rest ∧ Visit c i init f rest := by
  have hlength : i < c.options.zipIdx.length := by rwa [List.length_zipIdx]
  have hdrop := List.drop_eq_getElem_cons hlength
  obtain ⟨stayed, hlabels, hstayed, hstranded⟩ := h.visited
  rw [List.take_succ_eq_append_getElem hlength, List.append_assoc] at hlabels
  obtain ⟨init, others, rfl, hinit, hothers⟩ := List.map_eq_append_iff.1 hlabels
  obtain ⟨f, rest, rfl, hf, rfl⟩ := List.map_eq_cons_iff.1 hothers
  rw [← hf] at hdrop
  exact ⟨init, f, rest, rfl, hinit, hdrop, hstayed, hstranded⟩

theorem Visit.lt_length (h : Visit c i init f rest) : i < c.options.length := by
  have hlength := congrArg List.length h.here
  rw [List.length_drop, List.length_zipIdx, List.length_cons] at hlength
  omega

theorem Visit.length (h : Visit c i init f rest) : (init.map Family.top).length = i := by
  have hlength := h.lt_length
  rw [List.length_map, ← List.length_map Family.label, h.before, List.length_take,
    List.length_zipIdx]
  omega

theorem Visit.place (h : Visit c i init f rest) : f.label.2 = i := by
  have hhere := h.here
  rw [List.drop_eq_getElem_cons (by rw [List.length_zipIdx]; exact h.lt_length)] at hhere
  rw [← (List.cons.inj hhere).1, List.getElem_zipIdx, Nat.zero_add]

theorem Visit.heads (h : Visit c i init f rest) : init.map Family.head = c.options.take i := by
  rw [heads_eq, h.before, List.map_take, List.zipIdx_map_fst]

theorem Visit.getElem? (h : Visit c i init f rest) :
    ((init ++ f :: rest).map Family.top)[i]? = some f.top := by
  rw [List.map_append, List.getElem?_append_right (Nat.le_of_eq h.length), h.length, Nat.sub_self]
  rfl

theorem Visit.eraseIdx (h : Visit c i init f rest) :
    ((init ++ f :: rest).map Family.top).eraseIdx i = (init ++ rest).map Family.top := by
  rw [List.map_append, List.eraseIdx_append_of_length_le (Nat.le_of_eq h.length), h.length,
    Nat.sub_self, List.map_append]
  rfl

theorem Stage.stay (h : Stage c (i + 1) (init ++ f :: rest) events) (hv : Visit c i init f rest)
    (hstranded : c.Stranded f.label) : Stage c i (init ++ f :: rest) events := by
  refine ⟨⟨(f :: rest).map Family.label, ?_, ?_, List.forall_mem_cons.2 ⟨hstranded, hv.stranded⟩⟩,
    h.events_eq, fun f' hf' => (h.settled f' hf').weaken, h.once⟩
  · rw [List.map_append, hv.before]
  · rw [hv.here]
    exact hv.behind.cons_cons _

theorem Stage.move {before after options' events' : List Family} {child : String}
    (h : Stage c (i + 1) (init ++ f :: rest) events) (hv : Visit c i init f rest)
    (hsplit : splitDotted? f.head.name = some (g.head.name, child))
    (hothers : init ++ rest ++ events = before ++ g :: after)
    (hmoved : options' ++ events' = before ++ g.adopt f :: after)
    (hoptions : options'.map Family.label = (init ++ rest).map Family.label)
    (hevents : events'.map Family.label = events.map Family.label) :
    Stage c i options' events' := by
  have hfamilies : (init ++ f :: rest ++ events).Perm (f :: (before ++ g :: after)) := by
    rw [← hothers]
    exact List.perm_middle.append_right events
  have hsettled : ∀ f' ∈ f :: (before ++ g :: after), Settled c (i + 1) f' :=
    fun f' hf' => h.settled f' (hfamilies.mem_iff.2 hf')
  have honce : (membersAll (options' ++ events')).Perm
      (membersAll (init ++ f :: rest ++ events)) := by
    rw [hmoved, membersAll_eq, membersAll_eq]
    exact (Family.adopt_among f g before after).trans (hfamilies.flatMap_right _).symm
  refine ⟨⟨rest.map Family.label, ?_, ?_, hv.stranded⟩, hevents.trans h.events_eq, ?_,
    honce.trans h.once⟩
  · rw [hoptions, List.map_append, hv.before]
  · rw [hv.here]
    exact hv.behind.cons _
  · intro f' hf'
    rw [hmoved] at hf'
    rcases List.mem_append.1 hf' with hf' | hf'
    · exact (hsettled f' (by simp [hf'])).weaken
    · rcases List.mem_cons.1 hf' with rfl | hf'
      · exact (hsettled g (by simp)).adopt (hsettled f (by simp)) hv.here hsplit
      · exact (hsettled f' (by simp [hf'])).weaken

/-- An option whose name has two parts moves under its parent, or stays if it has none. -/
theorem attach_stage {parent child : String} (h : Stage c (i + 1) (init ++ f :: rest) events)
    (hv : Visit c i init f rest) (hsplit : splitDotted? f.head.name = some (parent, child)) :
    ∃ options' events', (c.assemble (init ++ f :: rest) events).attach
        ((init ++ rest).map Family.top) parent f.nested = c.assemble options' events' ∧
      Stage c i options' events' := by
  rw [Component.attach, Component.assemble]
  by_cases hoption : namesOne parent ((init ++ rest).map Family.top) = true
  · rw [if_pos hoption]
    obtain ⟨before, g, after, hamong, rfl, hinsert⟩ := insertUnder_top f hoption
    refine ⟨before ++ g.adopt f :: after, events, by rw [hinsert]; rfl, ?_⟩
    exact h.move hv hsplit (by rw [hamong, List.append_assoc]; rfl)
      (by rw [List.append_assoc]; rfl) (by simp [hamong]) rfl
  · rw [if_neg hoption]
    by_cases hevent : namesOne parent (events.map Family.top) = true
    · rw [if_pos hevent]
      obtain ⟨before, g, after, rfl, rfl, hinsert⟩ := insertUnder_top f hevent
      refine ⟨init ++ rest, before ++ g.adopt f :: after, by rw [hinsert]; rfl, ?_⟩
      exact h.move hv hsplit (by rw [← List.append_assoc]) (by rw [← List.append_assoc]) rfl
        (by simp)
    · rw [if_neg hevent]
      refine ⟨init ++ f :: rest, events, rfl, h.stay hv fun parent' child' hparts => ?_⟩
      rw [Family.label, hsplit] at hparts
      cases hparts
      rw [hv.place]
      refine ⟨Bool.eq_false_iff.2 fun hnames => hoption ?_, ?_⟩
      · rw [List.map_append, namesOne_append, namesOne_top, hv.heads, hnames, Bool.true_or]
      · rw [← h.event_heads, ← namesOne_top]
        exact Bool.eq_false_iff.2 hevent

theorem nestOption_stage (h : Stage c (i + 1) options events) (hi : i < c.options.length) :
    ∃ options' events', nestOption i (c.assemble options events) = c.assemble options' events' ∧
      Stage c i options' events' := by
  obtain ⟨init, f, rest, rfl, hv⟩ := h.visit hi
  rw [nestOption, Component.assemble, hv.getElem?, hv.eraseIdx]
  dsimp only
  rw [f.top_name]
  cases hsplit : splitDotted? f.head.name with
  | none =>
    refine ⟨init ++ f :: rest, events, rfl, h.stay hv fun parent child hparts => ?_⟩
    rw [Family.label, hsplit] at hparts
    cases hparts
  | some parts =>
    obtain ⟨parent, child⟩ := parts
    dsimp only
    rw [← f.top_name, ← Family.nested_eq_top hsplit]
    exact attach_stage h hv hsplit

theorem nestFirst_stage (h : Stage c i options events) (hi : i ≤ c.options.length) :
    ∃ options' events', nestFirst i (c.assemble options events) = c.assemble options' events' ∧
      Stage c 0 options' events' := by
  induction i generalizing options events with
  | zero => exact ⟨options, events, rfl, h⟩
  | succ i ih =>
    obtain ⟨options', events', hstep, hstage⟩ := nestOption_stage h hi
    rw [nestFirst, hstep]
    exact ih hstage (Nat.le_of_succ_le hi)

/-! ## All options move -/

def families (ds : List Descriptor) : List Family :=
  ds.zipIdx.map fun x => ⟨x.1, x.2, []⟩

theorem families_label (ds : List Descriptor) : (families ds).map Family.label = ds.zipIdx := by
  simp [families, Family.label, Function.comp_def]

theorem families_top (ds : List Descriptor) : (families ds).map Family.top = ds := by
  have htop (x : Descriptor × Nat) : Family.top ⟨x.1, x.2, []⟩ = x.1 := by
    obtain ⟨⟨⟩, _⟩ := x
    rfl
  simp only [families, List.map_map, Function.comp_def, htop]
  exact List.zipIdx_map_fst 0 ds

theorem members_families (ds : List Descriptor) :
    (families ds).flatMap Family.members = ds.zipIdx := by
  simp [families, Family.members, membersAll, List.flatMap_map]

theorem stage_families (c : Component) :
    Stage c c.options.length (families c.options) (families c.events) := by
  refine ⟨⟨[], ?_, List.nil_sublist _, by simp⟩, families_label _, fun f hf => ?_, ?_⟩
  · rw [families_label, List.append_nil, List.take_of_length_le (by simp)]
  · have hmoved : f.moved = [] := by
      simp only [families, List.mem_append, List.mem_map] at hf
      rcases hf with ⟨x, -, rfl⟩ | ⟨x, -, rfl⟩ <;> rfl
    refine ⟨hmoved ▸ .intro (by simp) (List.nil_sublist _) (by simp), ?_⟩
    rw [hmoved]
    exact List.nil_sublist _
  · rw [membersAll_eq, List.flatMap_append, members_families, members_families]

theorem assemble_families (c : Component) :
    c.assemble (families c.options) (families c.events) = c := by
  rw [Component.assemble, families_top, families_top]

/-- A nested component is an arrangement of what is documented, in which the options that have not
moved have no parent that was documented before them. -/
theorem nest_arranges (c : Component) :
    ∃ options events, c.nest = c.assemble options events ∧ c.Arranges options events ∧
      ∀ f ∈ options, c.Stranded f.label := by
  obtain ⟨options, events, hnest, hstage⟩ := nestFirst_stage (stage_families c) (Nat.le_refl _)
  obtain ⟨stayed, hlabels, hstayed, hstranded⟩ := hstage.visited
  rw [List.take_zero, List.nil_append] at hlabels
  rw [assemble_families] at hnest
  refine ⟨options, events, hnest, ⟨hstage.once, ?_, hstage.events_eq, fun f hf =>
    (hstage.settled f hf).belong⟩, fun f hf => hstranded _ ?_⟩
  · rw [hlabels]
    exact hstayed
  · rw [← hlabels]
    exact List.mem_map_of_mem hf

/-! ## Nothing is lost -/

theorem Family.described_perm {d : Descriptor} (hname : d.displayName = f.head.displayName)
    (htypes : d.types = f.head.types) (hdefault : d.defaultText = f.head.defaultText)
    (hsub : d.sub = f.moved.map nested ++ f.head.sub)
    (hmoved : ((f.moved.map nested).flatMap Descriptor.described).Perm
      ((f.moved.flatMap members).flatMap fun x => x.1.described)) :
    d.described.Perm (f.members.flatMap fun x => x.1.described) := by
  have hhead : f.label.1.described = (d.displayName, d.types, d.defaultText) ::
      f.head.sub.flatMap Descriptor.described := by
    rw [hname, htypes, hdefault]
    exact f.head.described_eq
  rw [d.described_eq, hsub, f.members_eq, List.flatMap_append, List.flatMap_cons, hhead]
  exact (List.perm_append_comm.trans (hmoved.append_left _)).cons _

theorem Belong.described_perm {documentation : List (Descriptor × Nat)} {name : String}
    (h : Belong documentation name fs) (hnone : ∀ x ∈ documentation, x.1.fullName = none) :
    ((fs.map Family.nested).flatMap Descriptor.described).Perm
      ((fs.flatMap Family.members).flatMap fun x => x.1.described) := by
  induction h with
  | @intro name fs _ hlabels _ ih =>
    rw [List.flatMap_map, List.flatMap_assoc]
    refine List.Perm.flatMap_left _ fun f hf => ?_
    have hhead : f.head.displayName = f.head.name := by
      rw [Descriptor.displayName, show f.head.fullName = none from
        hnone f.label (hlabels.subset (List.mem_map_of_mem hf)), Option.getD_none]
    refine f.described_perm (f.nested_displayName.trans hhead.symm) ?_ ?_ ?_ (ih f hf)
    all_goals rw [f.nested_eq]

theorem described_assemble (h : ∀ d ∈ c.options, d.fullName = none)
    (harranges : c.Arranges options events) :
    (c.assemble options events).described.Perm c.described := by
  have hnone : ∀ x ∈ c.options.zipIdx, x.1.fullName = none :=
    fun x hx => h x.1 (List.fst_mem_of_mem_zipIdx hx)
  have htops : (((options ++ events).map Family.top).flatMap Descriptor.described).Perm
      (((options ++ events).flatMap Family.members).flatMap fun x => x.1.described) := by
    rw [List.flatMap_map, List.flatMap_assoc]
    exact List.Perm.flatMap_left _ fun f hf => f.described_perm rfl rfl rfl
      (by rw [← nestedAll_eq]; rfl) ((harranges.belong f hf).described_perm hnone)
  have hplaces (ds : List Descriptor) :
      (ds.zipIdx.flatMap fun x => x.1.described) = ds.flatMap Descriptor.described := by
    rw [← List.flatMap_map Prod.fst, List.zipIdx_map_fst]
  have honce := harranges.once.flatMap_right fun x => x.1.described
  rw [List.flatMap_append, hplaces, hplaces, ← List.flatMap_append, ← describedAll_eq] at honce
  rw [Component.described, describedAll_eq, Component.assemble, ← List.map_append]
  rw [membersAll_eq] at honce
  exact htops.trans honce

/-! ## No parent comes too late -/

theorem splitDotted?_ne_self (name child : String) : splitDotted? name ≠ some (name, child) := by
  intro h
  have hlength := congrArg List.length (splitDotted?_eq_some.1 h).1
  simp at hlength

theorem ne_of_namesOne {name : String} {ds : List Descriptor} (h : namesOne name ds = false)
    {d : Descriptor} (hd : d ∈ ds) : d.name ≠ name := by
  intro hname
  have hone : namesOne name ds = true := List.any_eq_true.2 ⟨d, hd, beq_iff_eq.2 hname⟩
  rw [h] at hone
  cases hone

/-- If parents are documented first, an option that has no parent before it has none at all. -/
theorem Component.Stranded.ne (hfirst : c.ParentsFirst) {x : Descriptor × Nat}
    (h : c.Stranded x) (hx : x ∈ c.options.zipIdx) {parent child : String}
    (hsplit : splitDotted? x.1.name = some (parent, child)) {d : Descriptor}
    (hd : d ∈ c.options ++ c.events) : d.name ≠ parent := by
  obtain ⟨hearlier, hevents⟩ := h parent child hsplit
  rcases List.mem_append.1 hd with hd | hd
  · obtain ⟨hplace, hhead⟩ := List.mem_zipIdx' hx
    obtain ⟨j, hj, rfl⟩ := List.mem_iff_getElem.1 hd
    rintro rfl
    rcases Nat.lt_trichotomy j x.2 with hbefore | heq | hafter
    · exact ne_of_namesOne hearlier (List.mem_take_iff_getElem.2 ⟨j, by omega, rfl⟩) rfl
    · subst heq
      rw [hhead] at hsplit
      exact splitDotted?_ne_self _ _ hsplit
    · rw [hhead] at hsplit
      exact List.pairwise_iff_getElem.1 hfirst _ _ hplace hj hafter
        (congrArg (Option.map Prod.fst) hsplit)
  · exact ne_of_namesOne hevents hd

/-- **Nesting loses nothing.** What is documented about the options and events of a component is
documented about those of the nested one. Each option that has moved has come under the descriptor
named by its first part, and is named by its last part; options stay in the order of the
documentation. If parents are documented first, no option whose parent is documented stays. -/
theorem nest_loses_nothing (c : Component) (h : ∀ d ∈ c.options, d.fullName = none) :
    c.nest.described.Perm c.described ∧
      (∃ options events, c.nest = c.assemble options events ∧ c.Arranges options events) ∧
      (c.ParentsFirst → ∀ d ∈ c.nest.options, ∀ parent child,
        splitDotted? d.name = some (parent, child) →
          ∀ e ∈ c.options ++ c.events, e.name ≠ parent) := by
  obtain ⟨options, events, hnest, harranges, hstranded⟩ := nest_arranges c
  refine ⟨hnest ▸ described_assemble h harranges, ⟨options, events, hnest, harranges⟩, ?_⟩
  intro hfirst d hd parent child hsplit e he
  rw [hnest] at hd
  obtain ⟨f, hf, rfl⟩ := List.mem_map.1 hd
  exact (hstranded f hf).ne hfirst (harranges.options_sublist.subset (List.mem_map_of_mem hf))
    hsplit he

/-! ## A list with pages -/

/-- A list that documents how it is cut into pages and when it tells of changes. -/
def dottedList : Component :=
  ⟨"list", "list",
    [⟨"pageable", none, [.boolean, .object], some "false", []⟩,
      ⟨"pageable.messages", none, [.object], none, [⟨"locale", none, [.string], none, []⟩]⟩,
      ⟨"change.delay", none, [.number], some "0", []⟩,
      ⟨"pageable.messages.empty", none, [.string], none, []⟩,
      ⟨"height", none, [.number], none, []⟩],
    [.event "change"], [], []⟩

/-- The options of the list that have no parent stay, and all that is documented about the others
is inside them or inside the event. -/
theorem nest_loses_nothing_dottedList :
    (∀ d ∈ dottedList.options, d.fullName = none) ∧ dottedList.ParentsFirst ∧
      dottedList.nest.options.map (·.name) = ["pageable", "height"] ∧
      dottedList.nest.described.Perm dottedList.described ∧
      ∀ d ∈ dottedList.nest.options, ∀ parent child, splitDotted? d.name = some (parent, child) →
        ∀ e ∈ dottedList.options ++ dottedList.events, e.name ≠ parent := by
  have hnone : ∀ d ∈ dottedList.options, d.fullName = none := by decide
  have hfirst : dottedList.ParentsFirst := by
    rw [Component.ParentsFirst]
    decide
  obtain ⟨hdescribed, -, hstays⟩ := nest_loses_nothing dottedList hnone
  exact ⟨hnone, hfirst, by decide, hdescribed, hstays hfirst⟩

end WidgetLint.Schema
