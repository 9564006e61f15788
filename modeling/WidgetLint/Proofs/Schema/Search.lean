import WidgetLint.Schema.Search

/-!
# What a search finds

A query names a component and a member, and `Model.search` looks for both without regard to case;
of the options with a name, or else of the events, the one documented last counts. A configuration
is checked against `Component.option?` instead, the first option or event with exactly the name.
**A query for what a configuration can set always finds an option or an event of that name, and it
is the same one exactly if that one is documented last** (`search_finds_last`).
-/

namespace WidgetLint.Schema

open Text

/-! ## The last of a name -/

/-- The name of what is documented is this name up to case. -/
def Descriptor.IsCalled (d : Descriptor) (name : String) : Prop :=
  lowercase d.name = lowercase name

/-- The descriptor is the last one in a list with this name up to case. -/
def LastNamed (ds : List Descriptor) (name : String) (d : Descriptor) : Prop :=
  d.IsCalled name ∧ ∃ before after, ds = before ++ d :: after ∧
    ∀ other ∈ after, ¬other.IsCalled name

/-- What is documented last under a name up to case: an option or, if no option has the name, an
event. -/
inductive Component.LastUnder (c : Component) (name : String) : Found → Prop
  | option {d : Descriptor} : LastNamed c.options name d → c.LastUnder name (.option d)
  | event {d : Descriptor} : (∀ other ∈ c.options, ¬other.IsCalled name) →
      LastNamed c.events name d → c.LastUnder name (.event d)

/-- No two options or events have the same name up to case. -/
def Component.NamesApart (c : Component) : Prop :=
  (c.scope.map (lowercase ·.name)).Nodup

theorem findLast?_eq_some_iff {ds : List Descriptor} {name : String} {d : Descriptor} :
    findLast? (lowercase name) ds = some d ↔ LastNamed ds name d := by
  rw [findLast?, List.find?_eq_some_iff_append, LastNamed, Descriptor.IsCalled, beq_iff_eq]
  refine and_congr_right fun _ => ⟨?_, ?_⟩
  · rintro ⟨after, before, hds, hafter⟩
    refine ⟨before.reverse, after.reverse, ?_, fun other hother => ?_⟩
    · simpa using congrArg List.reverse hds
    · simpa [Descriptor.IsCalled] using hafter other (List.mem_reverse.1 hother)
  · rintro ⟨before, after, rfl, hafter⟩
    refine ⟨after.reverse, before.reverse, by simp, fun other hother => ?_⟩
    simpa [Descriptor.IsCalled] using hafter other (List.mem_reverse.1 hother)

theorem findLast?_eq_none_iff {ds : List Descriptor} {name : String} :
    findLast? (lowercase name) ds = none ↔ ∀ other ∈ ds, ¬other.IsCalled name := by
  simp [findLast?, Descriptor.IsCalled]

/-! ## Members -/

variable {m : Model} {c : Component} {name suffix : String} {d : Descriptor} {found : Found}

theorem Component.LastUnder.member? (h : c.LastUnder name found) :
    c.member? (lowercase name) = some found := by
  cases h with
  | option hlast => rw [Component.member?, findLast?_eq_some_iff.2 hlast]; rfl
  | event hnone hlast =>
    rw [Component.member?, findLast?_eq_none_iff.2 hnone, findLast?_eq_some_iff.2 hlast]
    rfl

theorem Component.LastUnder.unique {other : Found} (h : c.LastUnder name found)
    (hother : c.LastUnder name other) : found = other :=
  Option.some.inj (h.member?.symm.trans hother.member?)

theorem Component.exists_lastUnder (h : c.option? name = some d) :
    ∃ found, c.LastUnder name found := by
  have hmem : d ∈ c.options ++ c.events := List.mem_of_find?_eq_some h
  have hname : d.name = name := by simpa using List.find?_some h
  have hcalled : d.IsCalled name := congrArg lowercase hname
  cases hoption : findLast? (lowercase name) c.options with
  | some e => exact ⟨.option e, .option (findLast?_eq_some_iff.1 hoption)⟩
  | none =>
    have hnone := findLast?_eq_none_iff.1 hoption
    cases hevent : findLast? (lowercase name) c.events with
    | some e => exact ⟨.event e, .event hnone (findLast?_eq_some_iff.1 hevent)⟩
    | none =>
      rcases List.mem_append.1 hmem with hd | hd
      · exact absurd hcalled (hnone d hd)
      · exact absurd hcalled (findLast?_eq_none_iff.1 hevent d hd)

theorem lastNamed_of_nodup {ds : List Descriptor} (h : (ds.map (lowercase ·.name)).Nodup)
    (hd : d ∈ ds) : LastNamed ds d.name d := by
  obtain ⟨before, after, rfl⟩ := List.append_of_mem hd
  rw [List.map_append, List.map_cons] at h
  have hafter := (List.nodup_cons.1 (List.nodup_append.1 h).2.1).1
  exact ⟨rfl, before, after, rfl, fun other hother hcalled =>
    hafter (List.mem_map.2 ⟨other, hother, hcalled⟩)⟩

theorem Component.NamesApart.lastUnder (h : c.NamesApart) (hoption : c.option? name = some d) :
    c.LastUnder name (.option d) ∨ c.LastUnder name (.event d) := by
  have hmem : d ∈ c.options ++ c.events := List.mem_of_find?_eq_some hoption
  obtain rfl : d.name = name := by simpa using List.find?_some hoption
  rw [Component.NamesApart, Component.scope, List.map_append, List.nodup_append] at h
  obtain ⟨hoptions, hevents, hapart⟩ := h
  rcases List.mem_append.1 hmem with hd | hd
  · exact .inl (.option (lastNamed_of_nodup hoptions hd))
  · refine .inr (.event (fun other hother hcalled => ?_) (lastNamed_of_nodup hevents hd))
    exact hapart _ (List.mem_map_of_mem hother) _ (List.mem_map_of_mem hd) hcalled

/-! ## Queries -/

/-- A member is found by the name of its component, if that has no point, and its own name. -/
theorem Model.search_append (hsuffix : '.' ∉ suffix.toList)
    (hfind : m.findBySuffix? suffix = some c) (hname : name ≠ "")
    (hmember : c.member? (lowercase name) = some found) :
    m.search (suffix ++ "." ++ name) = .ok ⟨c, found⟩ := by
  have hsplit : splitFirst? '.' (suffix ++ "." ++ name) = some (suffix, name) :=
    splitFirst?_of_not_mem (by simp) hsuffix
  have hne : suffix ≠ "" := by
    rintro rfl
    cases hfind
  simp [Model.search, hsplit, hne, hname, hfind, hmember]

theorem Model.search_empty (hsuffix : '.' ∉ suffix.toList) :
    m.search (suffix ++ "." ++ "") = .error (.malformedQuery (suffix ++ "." ++ "")) := by
  have hsplit : splitFirst? '.' (suffix ++ "." ++ "") = some (suffix, "") :=
    splitFirst?_of_not_mem (by simp) hsuffix
  rw [Model.search, hsplit]
  simp

/-- **A search for an option or event finds the last of that name up to case, and so the same one
as a check exactly if that one is documented last**; the empty name cannot be searched for. In
particular they agree if no two names are the same up to case. -/
theorem search_finds_last (hsuffix : '.' ∉ suffix.toList)
    (hfind : m.findBySuffix? suffix = some c) (hoption : c.option? name = some d) :
    (name = "" → m.search (suffix ++ "." ++ name) =
      .error (.malformedQuery (suffix ++ "." ++ name))) ∧
    (name ≠ "" → ∃ found, m.search (suffix ++ "." ++ name) = .ok ⟨c, found⟩ ∧
      c.LastUnder name found ∧
      (found = .option d ∨ found = .event d ↔
        c.LastUnder name (.option d) ∨ c.LastUnder name (.event d)) ∧
      (c.NamesApart → found = .option d ∨ found = .event d)) := by
  refine ⟨?_, fun hname => ?_⟩
  · rintro rfl
    exact Model.search_empty hsuffix
  · obtain ⟨found, hfound⟩ := Component.exists_lastUnder hoption
    have hsame : found = .option d ∨ found = .event d ↔
        c.LastUnder name (.option d) ∨ c.LastUnder name (.event d) :=
      or_congr ⟨fun h => h ▸ hfound, hfound.unique⟩ ⟨fun h => h ▸ hfound, hfound.unique⟩
    exact ⟨found, Model.search_append hsuffix hfind hname hfound.member?, hfound, hsame,
      fun hapart => hsame.2 (hapart.lastUnder hoption)⟩

/-- A component with options and an event that differ in the case of their names only, and an option
without a name. -/
def casedGrid : Component :=
  ⟨"kendo.ui.Grid", "kendo.ui.Grid",
    [⟨"size", none, [.number], none, []⟩, ⟨"Size", none, [.string], none, []⟩,
      ⟨"Change", none, [.boolean], none, []⟩, ⟨"", none, [.object], none, []⟩],
    [.event "change"], [], []⟩

def casedModel : Model :=
  ⟨[casedGrid], by decide⟩

/-- The later of two options is found under its own name. -/
theorem search_finds_last_size :
    '.' ∉ "grid".toList ∧ casedModel.findBySuffix? "grid" = some casedGrid ∧
      casedGrid.option? "Size" = some ⟨"Size", none, [.string], none, []⟩ ∧ "Size" ≠ "" ∧
      ∃ found, casedModel.search ("grid" ++ "." ++ "Size") = .ok ⟨casedGrid, found⟩ ∧
        casedGrid.LastUnder "Size" found := by
  have hsuffix : '.' ∉ "grid".toList := by decide
  have hfind : casedModel.findBySuffix? "grid" = some casedGrid := rfl
  have hoption : casedGrid.option? "Size" = some ⟨"Size", none, [.string], none, []⟩ := rfl
  have hname : "Size" ≠ "" := by decide
  obtain ⟨found, hsearch, hlast, -⟩ := (search_finds_last hsuffix hfind hoption).2 hname
  exact ⟨hsuffix, hfind, hoption, hname, found, hsearch, hlast⟩

/-- An option with a later namesake, an event with the name of an option and what has no name are
checked, but a search does not find them. -/
theorem casedGrid_found_otherwise :
    Model.ofComponents [casedGrid] = .ok casedModel ∧ '.' ∉ "grid".toList ∧
      casedModel.findBySuffix? "grid" = some casedGrid ∧
      ∀ name ∈ ["size", "change", ""], ∃ d, casedGrid.option? name = some d ∧
        casedModel.search ("grid" ++ "." ++ name) ≠ .ok ⟨casedGrid, .option d⟩ ∧
        casedModel.search ("grid" ++ "." ++ name) ≠ .ok ⟨casedGrid, .event d⟩ := by
  have hsize : casedModel.search ("grid" ++ "." ++ "size") =
      .ok ⟨casedGrid, .option ⟨"Size", none, [.string], none, []⟩⟩ := rfl
  have hchange : casedModel.search ("grid" ++ "." ++ "change") =
      .ok ⟨casedGrid, .option ⟨"Change", none, [.boolean], none, []⟩⟩ := rfl
  have hempty : casedModel.search ("grid" ++ "." ++ "") = .error (.malformedQuery "grid.") := rfl
  refine ⟨rfl, by decide, rfl, ?_⟩
  simp only [List.forall_mem_cons]
  refine ⟨⟨_, rfl, ?_⟩, ⟨_, rfl, ?_⟩, ⟨_, rfl, ?_⟩, nofun⟩
  · rw [hsize]
    simp
  · rw [hchange]
    simp [Descriptor.event]
  · rw [hempty]
    simp

end WidgetLint.Schema
