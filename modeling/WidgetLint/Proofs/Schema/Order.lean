import WidgetLint.Proofs.Schema.Nesting

/-!
# The order in which options are documented

Nesting visits the options last to first and looks for the parent of each among the options that
have not moved yet. A parent that is documented later is found there unless it has moved itself
when its child is visited; then the child stays, although its parent is documented. **An option
stays exactly if its parent is no event, is documented nowhere before it and does not stay itself;
every other option sits under its parent** (`nest_stays_iff`). So the order matters only for chains
of three names, such as `a.b.c`, `a.b` and `a` in this order.
-/

namespace WidgetLint.Schema

/-- The name of a descriptor has two parts, and the first one is among the names. -/
def Parented (names : List String) (name : String) : Prop :=
  ∃ parent child, splitDotted? name = some (parent, child) ∧ parent ∈ names

theorem Parented.mono {names names' : List String} {name : String} (h : Parented names name)
    (hsubset : names ⊆ names') : Parented names' name := by
  obtain ⟨parent, child, hsplit, hparent⟩ := h
  exact ⟨parent, child, hsplit, hsubset hparent⟩

theorem parented_cons_self {names : List String} {name : String} :
    Parented (name :: names) name ↔ Parented names name := by
  refine ⟨?_, fun h => h.mono (List.subset_cons_self _ _)⟩
  rintro ⟨parent, child, hsplit, hparent⟩
  rcases List.mem_cons.1 hparent with rfl | hparent
  · exact absurd hsplit (splitDotted?_ne_self _ _)
  · exact ⟨parent, child, hsplit, hparent⟩

/-! ## What one visit does to the names -/

theorem namesOne_iff {name : String} {ds : List Descriptor} :
    namesOne name ds = true ↔ name ∈ ds.map Descriptor.name := by
  simp [namesOne]

theorem insertUnder_names (parent : String) (d : Descriptor) (ds : List Descriptor) :
    (insertUnder parent d ds).map Descriptor.name = ds.map Descriptor.name := by
  induction ds with
  | nil => rfl
  | cons e rest ih =>
    rw [insertUnder]
    split
    · rfl
    · rw [List.map_cons, ih, List.map_cons]

theorem attach_event_names (c : Component) (others : List Descriptor) (parent : String)
    (moved : Descriptor) :
    (c.attach others parent moved).events.map Descriptor.name = c.events.map Descriptor.name := by
  unfold Component.attach
  split
  · rfl
  · split
    · exact insertUnder_names ..
    · rfl

theorem nestOption_event_names (i : Nat) (c : Component) :
    (nestOption i c).events.map Descriptor.name = c.events.map Descriptor.name := by
  unfold nestOption
  split
  · rfl
  · split
    · rfl
    · exact attach_event_names ..

/-- The option that is visited leaves its place exactly if another option or an event is its
parent. -/
theorem nestOption_names {c : Component} {init rest : List String} {name : String}
    (h : c.options.map Descriptor.name = init ++ name :: rest) :
    (nestOption init.length c).options.map Descriptor.name = init ++ name :: rest ∧
        ¬ Parented (init ++ rest ++ c.events.map Descriptor.name) name ∨
      (nestOption init.length c).options.map Descriptor.name = init ++ rest ∧
        Parented (init ++ rest ++ c.events.map Descriptor.name) name := by
  obtain ⟨before, others, hoptions, rfl, hothers⟩ := List.map_eq_append_iff.1 h
  obtain ⟨d, after, rfl, rfl, rfl⟩ := List.map_eq_cons_iff.1 hothers
  have hget : c.options[before.length]? = some d := by
    rw [hoptions, List.getElem?_append_right (Nat.le_refl _), Nat.sub_self]
    rfl
  have herase : c.options.eraseIdx before.length = before ++ after := by
    rw [hoptions, List.eraseIdx_append_of_length_le (Nat.le_refl _), Nat.sub_self]
    rfl
  rw [List.length_map, nestOption, hget, herase]
  dsimp only
  cases hsplit : splitDotted? d.name with
  | none =>
    refine .inl ⟨h, ?_⟩
    rintro ⟨parent, child, hparts, -⟩
    rw [hsplit] at hparts
    cases hparts
  | some parts =>
    obtain ⟨parent, child⟩ := parts
    have hparented (names : List String) : Parented names d.name ↔ parent ∈ names := by
      simp [Parented, hsplit]
    rw [hparented, ← List.map_append, List.mem_append]
    dsimp only
    rw [Component.attach]
    by_cases hoption : parent ∈ (before ++ after).map Descriptor.name
    · rw [if_pos (namesOne_iff.2 hoption)]
      exact .inr ⟨insertUnder_names .., .inl hoption⟩
    · rw [if_neg fun hone => hoption (namesOne_iff.1 hone)]
      by_cases hevent : parent ∈ c.events.map Descriptor.name
      · rw [if_pos (namesOne_iff.2 hevent)]
        exact .inr ⟨rfl, .inr hevent⟩
      · rw [if_neg fun hone => hevent (namesOne_iff.1 hone)]
        exact .inl ⟨h, fun hparent => hparent.elim hoption hevent⟩

/-! ## Which names stay -/

/-- The options documented at `i` and later have been visited, and those named in `stayed` have
stayed: the ones whose parent is neither documented before them nor has stayed nor is an event. -/
structure Visited (documented events : List String) (i : Nat) (c : Component)
    (stayed : List String) : Prop where
  option_names : c.options.map Descriptor.name = documented.take i ++ stayed
  event_names : c.events.map Descriptor.name = events
  sublist : stayed.Sublist (documented.drop i)
  stays_iff : ∀ before name after, documented = before ++ name :: after → i ≤ before.length →
    (name ∈ stayed ↔ ¬ Parented (before ++ stayed ++ events) name)

section

variable {documented events stayed : List String} {c : Component} {i : Nat}

theorem Visited.step (h : Visited documented events (i + 1) c stayed) (hdup : documented.Nodup)
    (hi : i < documented.length) : ∃ stayed', Visited documented events i (nestOption i c) stayed' := by
  obtain ⟨init, name, later, hdocumented, hlength⟩ :
      ∃ init name later, documented = init ++ name :: later ∧ init.length = i :=
    ⟨documented.take i, documented[i], documented.drop (i + 1), by simp, by simp; omega⟩
  subst hlength
  have htake : documented.take init.length = init := by rw [hdocumented]; simp
  have hdrop : documented.drop init.length = name :: later := by rw [hdocumented]; simp
  have hdrop' : documented.drop (init.length + 1) = later := by rw [hdocumented]; simp
  have hsublist : stayed.Sublist later := hdrop' ▸ h.sublist
  have hoptions : c.options.map Descriptor.name = init ++ name :: stayed := by
    rw [h.option_names, hdocumented, List.take_length_add_append, List.append_assoc]
    rfl
  have hname : name ∉ stayed := by
    rw [hdocumented] at hdup
    exact fun hmem =>
      (List.nodup_cons.1 (List.nodup_append.1 hdup).2.1).1 (hsublist.subset hmem)
  -- What has been visited before is not affected: the option stood in front of it and still does.
  have hlater : ∀ before x after, documented = before ++ x :: after →
      init.length + 1 ≤ before.length → name ∈ before ∧ x ≠ name := by
    intro before x after heq hle
    have hget : before[init.length]? = some name := by
      rw [← List.getElem?_append_left (by omega), ← heq, hdocumented]
      simp
    refine ⟨List.mem_of_getElem? hget, ?_⟩
    rintro rfl
    rw [heq] at hdup
    exact (List.nodup_append.1 hdup).2.2 _ (List.mem_of_getElem? hget) _ (by simp) rfl
  have hself : ∀ before x after, documented = before ++ x :: after →
      before.length = init.length → before = init ∧ x = name := by
    intro before x after heq hlength
    rw [hdocumented] at heq
    obtain ⟨rfl, hcons⟩ := List.append_inj heq.symm hlength
    exact ⟨rfl, (List.cons.inj hcons).1⟩
  rcases nestOption_names hoptions with ⟨hnames, hnot⟩ | ⟨hnames, hparented⟩
  · rw [h.event_names] at hnot
    refine ⟨name :: stayed, by rw [hnames, htake], (nestOption_event_names _ _).trans h.event_names,
      hdrop ▸ hsublist.cons_cons _, fun before x after heq hle => ?_⟩
    rcases Nat.eq_or_lt_of_le hle with hlength | hlt
    · obtain ⟨rfl, rfl⟩ := hself before x after heq hlength.symm
      refine iff_of_true (List.mem_cons_self ..) fun hparented => hnot ?_
      rw [← parented_cons_self]
      exact hparented.mono (by simp)
    · obtain ⟨hbefore, hne⟩ := hlater before x after heq hlt
      rw [List.mem_cons, or_iff_right hne, h.stays_iff before x after heq hlt]
      refine not_congr ⟨fun hx => hx.mono (by simp), fun hx => hx.mono ?_⟩
      simp [hbefore]
  · rw [h.event_names] at hparented
    refine ⟨stayed, by rw [hnames, htake], (nestOption_event_names _ _).trans h.event_names,
      hdrop ▸ hsublist.cons _, fun before x after heq hle => ?_⟩
    rcases Nat.eq_or_lt_of_le hle with hlength | hlt
    · obtain ⟨rfl, rfl⟩ := hself before x after heq hlength.symm
      exact iff_of_false hname (not_not_intro hparented)
    · exact h.stays_iff before x after heq hlt

theorem Visited.run (h : Visited documented events i c stayed) (hdup : documented.Nodup)
    (hi : i ≤ documented.length) : ∃ stayed', Visited documented events 0 (nestFirst i c) stayed' := by
  induction i generalizing c stayed with
  | zero => exact ⟨stayed, h⟩
  | succ i ih =>
    obtain ⟨stayed', hstep⟩ := h.step hdup hi
    exact ih hstep (Nat.le_of_succ_le hi)

end

variable {c : Component}

theorem nest_visited (h : (c.options.map Descriptor.name).Nodup) :
    Visited (c.options.map Descriptor.name) (c.events.map Descriptor.name) 0 c.nest
      (c.nest.options.map Descriptor.name) := by
  have hstart : Visited (c.options.map Descriptor.name) (c.events.map Descriptor.name)
      c.options.length c [] := by
    refine ⟨?_, rfl, List.nil_sublist _, fun before name after heq hle => ?_⟩
    · rw [List.append_nil, List.take_of_length_le (by simp)]
    · have hlength := congrArg List.length heq
      simp at hlength
      omega
  obtain ⟨stayed, hend⟩ := hstart.run h (by simp)
  have hnames : c.nest.options.map Descriptor.name = stayed := hend.option_names
  rw [hnames]
  exact hend

/-- An option stays at the top exactly if its name has no parent among the options documented before
it, the options that stay and the events. -/
theorem mem_nest_names_iff (h : (c.options.map Descriptor.name).Nodup)
    {before after : List Descriptor} {d : Descriptor} (hoptions : c.options = before ++ d :: after) :
    d.name ∈ c.nest.options.map Descriptor.name ↔
      ¬ Parented (before.map Descriptor.name ++ c.nest.options.map Descriptor.name ++
        c.events.map Descriptor.name) d.name :=
  (nest_visited h).stays_iff _ _ (after.map Descriptor.name) (by simp [hoptions]) (Nat.zero_le _)

/-! ## Where the others sit -/

/-- The descriptor is one of these or inside one of them. -/
inductive Descriptor.Within (d : Descriptor) : List Descriptor → Prop
  | here {ds : List Descriptor} : d ∈ ds → Within d ds
  | inside {ds : List Descriptor} {e : Descriptor} : e ∈ ds → Within d e.sub → Within d ds

/-- A documented descriptor that has moved with `moved` under it: it goes by the last part of its
name and keeps the name with all its points. -/
def Descriptor.renamed (d : Descriptor) (child : String) (moved : List Descriptor) : Descriptor :=
  { d with name := child, fullName := some d.name, sub := moved ++ d.sub }

/-- What a documented descriptor can become: others have moved under it, and it may have moved. -/
def Descriptor.Becomes (d e : Descriptor) : Prop :=
  ∃ moved, e = { d with sub := moved ++ d.sub } ∨
    ∃ parent child, splitDotted? d.name = some (parent, child) ∧ e = d.renamed child moved

/-- In the nested component, an option sits under the one descriptor that was documented under the
name of its parent, named by the last part of its name. -/
def Component.Seats (c : Component) (d : Descriptor) (parent child : String) : Prop :=
  ∃ e ∈ c.options ++ c.events, e.name = parent ∧
    ∃ holder, Descriptor.Within holder (c.nest.options ++ c.nest.events) ∧ e.Becomes holder ∧
      ∃ moved, d.renamed child moved ∈ holder.sub

variable {options events fs : List Family} {f : Family}

theorem Descriptor.Within.of_sub {d e : Descriptor} {ds : List Descriptor} (he : Within e ds)
    (hd : Within d e.sub) : Within d ds := by
  induction he with
  | here hmem => exact .inside hmem hd
  | inside hmem _ ih => exact .inside hmem ih

theorem Family.top_becomes (f : Family) : f.head.Becomes f.top :=
  ⟨nestedAll f.moved, .inl rfl⟩

theorem Family.nested_renamed {parent child : String}
    (h : splitDotted? f.head.name = some (parent, child)) :
    f.nested = f.head.renamed child (f.moved.map nested) := by
  rw [nested_eq, h]
  rfl

/-- A member of families that belong under a holder is among them or under one of them. -/
theorem Belong.seated {documentation : List (Descriptor × Nat)} {name : String}
    (h : Belong documentation name fs) {x : Descriptor × Nat}
    (hx : x ∈ fs.flatMap Family.members) {holder : Descriptor} {ds : List Descriptor}
    (hwithin : holder.Within ds) (hsub : ∀ f ∈ fs, f.nested ∈ holder.sub) :
    (∃ child moved, splitDotted? x.1.name = some (name, child) ∧
        x.1.renamed child moved ∈ holder.sub) ∨
      ∃ e ∈ documentation, ∃ inner child moved, Descriptor.Within inner ds ∧ e.1.Becomes inner ∧
        splitDotted? x.1.name = some (e.1.name, child) ∧ x.1.renamed child moved ∈ inner.sub := by
  induction h generalizing holder with
  | @intro name fs hnames hlabels _ ih =>
    obtain ⟨f, hf, hx⟩ := List.mem_flatMap.1 hx
    obtain ⟨child, hsplit⟩ := hnames f hf
    rw [f.members_eq] at hx
    rcases List.mem_cons.1 hx with rfl | hx
    · exact .inl ⟨child, _, hsplit, Family.nested_renamed hsplit ▸ hsub f hf⟩
    · have hin : f.nested.Within ds := hwithin.of_sub (.here (hsub f hf))
      have hmoved : ∀ g ∈ f.moved, g.nested ∈ f.nested.sub := fun g hg => by
        rw [f.nested_eq]
        exact List.mem_append_left _ (List.mem_map_of_mem hg)
      rcases ih f hf hx hin hmoved with ⟨child', moved, hsplit', hmem⟩ | hdeeper
      · exact .inr ⟨f.label, hlabels.subset (List.mem_map_of_mem hf), f.nested, child', moved, hin,
          ⟨_, .inr ⟨name, child, hsplit, Family.nested_renamed hsplit⟩⟩, hsplit', hmem⟩
      · exact .inr hdeeper

theorem Component.Arranges.head_mem (h : c.Arranges options events)
    (hf : f ∈ options ++ events) : f.head ∈ c.options ++ c.events := by
  rcases List.mem_append.1 hf with hf | hf
  · exact List.mem_append_left _ (List.fst_mem_of_mem_zipIdx
      (h.options_sublist.subset (List.mem_map_of_mem hf)))
  · exact List.mem_append_right _ (List.fst_mem_of_mem_zipIdx
      (h.events_eq ▸ List.mem_map_of_mem hf))

/-- An option of an arrangement is at the top or has moved under one of its families. -/
theorem Component.Arranges.option_mem (h : c.Arranges options events) {x : Descriptor × Nat}
    (hx : x ∈ c.options.zipIdx) :
    x ∈ options.map Family.label ∨ ∃ f ∈ options ++ events, x ∈ f.moved.flatMap Family.members := by
  have hmembers (fs : List Family) : (fs.flatMap Family.members).Perm
      (fs.flatMap (fun f => f.moved.flatMap Family.members) ++ fs.map Family.label) := by
    induction fs with
    | nil => exact .refl _
    | cons f fs ih =>
      rw [List.flatMap_cons, List.flatMap_cons, List.map_cons, f.members_eq, List.append_assoc]
      refine (List.Perm.cons _ (ih.append_left _)).trans ?_
      rw [← List.append_assoc, ← List.append_assoc]
      exact List.perm_middle.symm
  -- An option and an event can be documented alike, so the events are taken out by counting.
  have honce := (hmembers _).symm.trans (membersAll_eq _ ▸ h.once)
  rw [List.map_append, h.events_eq, ← List.append_assoc, List.perm_append_right_iff] at honce
  rcases List.mem_append.1 (honce.mem_iff.2 hx) with hx | hx
  · exact .inr (List.mem_flatMap.1 hx)
  · exact .inl hx

theorem seats_of_not_mem_nest {d : Descriptor} (hd : d ∈ c.options)
    (h : d.name ∉ c.nest.options.map Descriptor.name) :
    ∃ parent child, splitDotted? d.name = some (parent, child) ∧ c.Seats d parent child := by
  obtain ⟨options, events, hnest, harranges, -⟩ := nest_arranges c
  have htops : (options ++ events).map Family.top = c.nest.options ++ c.nest.events := by
    rw [hnest, List.map_append]
    rfl
  obtain ⟨x, hx, rfl⟩ : ∃ x ∈ c.options.zipIdx, x.1 = d := by
    rwa [← List.mem_map, List.zipIdx_map_fst]
  rcases harranges.option_mem hx with htop | ⟨f, hf, hmoved⟩
  · obtain ⟨f, hf, rfl⟩ := List.mem_map.1 htop
    refine absurd ?_ h
    rw [hnest]
    exact List.mem_map.2 ⟨f.top, List.mem_map_of_mem hf, rfl⟩
  · have hholder : f.top.Within (c.nest.options ++ c.nest.events) :=
      htops ▸ .here (List.mem_map_of_mem hf)
    have hsub : ∀ g ∈ f.moved, g.nested ∈ f.top.sub := fun g hg => by
      rw [Family.top, nestedAll_eq]
      exact List.mem_append_left _ (List.mem_map_of_mem hg)
    rcases (harranges.belong f hf).seated hmoved hholder hsub with
      ⟨child, moved, hsplit, hmem⟩ | ⟨e, he, inner, child, moved, hwithin, hbecomes, hsplit, hmem⟩
    · exact ⟨_, child, hsplit, f.head, harranges.head_mem hf, rfl, f.top, hholder,
        f.top_becomes, moved, hmem⟩
    · exact ⟨_, child, hsplit, e.1, List.mem_append_left _ (List.fst_mem_of_mem_zipIdx he), rfl,
        inner, hwithin, hbecomes, moved, hmem⟩

/-- **Where an option ends up.** Among options with distinct names, an option whose name has two
parts stays at the top exactly if the first part names no event, no option before it and no option
that stays. All that do not stay sit under their parents, wherever these are documented. So an
option whose parent is documented stays only if the parent comes later and has itself a parent. -/
theorem nest_stays_iff (h : (c.options.map Descriptor.name).Nodup)
    {before after : List Descriptor} {d : Descriptor} (hoptions : c.options = before ++ d :: after)
    {parent child : String} (hsplit : splitDotted? d.name = some (parent, child)) :
    (d.name ∈ c.nest.options.map Descriptor.name ↔
        parent ∉ before.map Descriptor.name ∧ parent ∉ c.nest.options.map Descriptor.name ∧
          parent ∉ c.events.map Descriptor.name) ∧
      (d.name ∉ c.nest.options.map Descriptor.name → c.Seats d parent child) ∧
      (d.name ∈ c.nest.options.map Descriptor.name →
        parent ∈ (c.options ++ c.events).map Descriptor.name →
        parent ∈ after.map Descriptor.name ∧
          Parented ((c.options ++ c.events).map Descriptor.name) parent) := by
  have hstays : d.name ∈ c.nest.options.map Descriptor.name ↔
      parent ∉ before.map Descriptor.name ∧ parent ∉ c.nest.options.map Descriptor.name ∧
        parent ∉ c.events.map Descriptor.name := by
    rw [mem_nest_names_iff h hoptions]
    simp [Parented, hsplit, and_assoc]
  refine ⟨hstays, fun hmoved => ?_, fun htop hparent => ?_⟩
  · obtain ⟨parent', child', hsplit', hseats⟩ := seats_of_not_mem_nest (by simp [hoptions]) hmoved
    rw [hsplit] at hsplit'
    cases hsplit'
    exact hseats
  · obtain ⟨hbefore, hnest, hevents⟩ := hstays.1 htop
    have hafter : parent ∈ after.map Descriptor.name := by
      have hne : parent ≠ d.name := by
        rintro rfl
        exact splitDotted?_ne_self _ _ hsplit
      rw [List.map_append, List.mem_append, or_iff_left hevents, hoptions, List.map_append,
        List.map_cons, List.mem_append, or_iff_right hbefore, List.mem_cons,
        or_iff_right hne] at hparent
      exact hparent
    refine ⟨hafter, ?_⟩
    obtain ⟨p, hp, rfl⟩ := List.mem_map.1 hafter
    obtain ⟨init, rest, hrest⟩ := List.append_of_mem (show p ∈ c.options by simp [hoptions, hp])
    rw [mem_nest_names_iff h hrest, not_not] at hnest
    refine hnest.mono ?_
    have hinit : init ⊆ c.options := hrest ▸ List.subset_append_left _ _
    rw [List.map_append]
    exact List.append_subset.2 ⟨List.append_subset.2
      ⟨List.subset_append_of_subset_left _ (List.map_subset _ hinit),
        List.subset_append_of_subset_left _ (nest_visited h).sublist.subset⟩,
      List.subset_append_right _ _⟩

/-! ## A grid whose messages are documented backwards -/

/-- A grid that documents what is inside an option before the option. -/
def backwardsGrid : Component :=
  ⟨"grid", "grid",
    [⟨"filterable.messages.info", none, [.string], none, []⟩,
      ⟨"filterable.messages", none, [.object], none, []⟩,
      ⟨"filterable", none, [.boolean, .object], some "false", []⟩,
      ⟨"change.delay", none, [.number], some "0", []⟩],
    [.event "change"], [], []⟩

/-- The messages come under the option documented after them. What is documented about one of them
stays at the top, since its parent has a parent. -/
theorem nest_stays_iff_backwardsGrid :
    (backwardsGrid.options.map Descriptor.name).Nodup ∧
      backwardsGrid.nest.options.map Descriptor.name =
        ["filterable.messages.info", "filterable"] ∧
      backwardsGrid.Seats ⟨"filterable.messages", none, [.object], none, []⟩
        "filterable" "messages" ∧
      Parented ((backwardsGrid.options ++ backwardsGrid.events).map Descriptor.name)
        "filterable.messages" := by
  have hdup : (backwardsGrid.options.map Descriptor.name).Nodup := by decide
  obtain ⟨-, hseats, -⟩ := @nest_stays_iff _ hdup (backwardsGrid.options.take 1)
    (backwardsGrid.options.drop 2) ⟨"filterable.messages", none, [.object], none, []⟩ rfl
    "filterable" "messages" (by decide)
  obtain ⟨-, -, hchain⟩ := @nest_stays_iff _ hdup [] (backwardsGrid.options.drop 1)
    ⟨"filterable.messages.info", none, [.string], none, []⟩ rfl "filterable.messages" "info"
    (by decide)
  exact ⟨hdup, by decide, hseats (by decide), (hchain (by decide) (by decide)).2⟩

/-- The order of the documentation matters: an option whose parent is documented stays at the top,
under its name with all its points. Documented the other way round, no option stays that has a
parent. -/
theorem backwardsGrid_not_nested :
    (backwardsGrid.options.map Descriptor.name).Nodup ∧
      (∀ d ∈ backwardsGrid.options, d.fullName = none) ∧
      splitDotted? "filterable.messages.info" = some ("filterable.messages", "info") ∧
      "filterable.messages" ∈ backwardsGrid.options.map Descriptor.name ∧
      "filterable.messages.info" ∈ backwardsGrid.nest.options.map Descriptor.name ∧
      { backwardsGrid with
          options := backwardsGrid.options.reverse }.nest.options.map Descriptor.name =
        ["filterable"] := by
  decide

end WidgetLint.Schema
