import Mathlib.Data.List.Perm.Basic
import Mathlib.Tactic.Tauto
import WidgetLint.Lint.Usage

/-!
# What is detected does not depend on the order

The detected names are the first spellings of the names that are mentioned (`FirstNames`): adding
one more name keeps that (`FirstNames.addName`), so it holds of everything that is mentioned. Up to
ASCII case the first spellings are determined by which names are mentioned at all, and so by which
scripts and pages there are.
-/

namespace WidgetLint.Lint

open Text Script

variable {names kept : List String}

/-- A name stands in the list, and no name before it is the same up to ASCII case. -/
def IsFirst (names : List String) (name : String) : Prop :=
  ∃ before after, names = before ++ name :: after ∧
    ∀ earlier ∈ before, ¬sameIgnoringCase earlier name

/-- The names that are kept are the first spellings among all names, in their order. -/
structure FirstNames (names kept : List String) : Prop where
  distinct : kept.Pairwise fun name other => ¬sameIgnoringCase name other
  first : ∀ name, name ∈ kept ↔ IsFirst names name
  ordered : kept.Pairwise fun name other => names.idxOf name < names.idxOf other
  covers : ∀ name ∈ names, ∃ component ∈ kept, sameIgnoringCase component name

theorem sameIgnoringCase_refl (name : String) : sameIgnoringCase name name :=
  sameIgnoringCase_iff.2 rfl

theorem sameIgnoringCase_symm {name other : String} (h : sameIgnoringCase name other) :
    sameIgnoringCase other name :=
  sameIgnoringCase_iff.2 (sameIgnoringCase_iff.1 h).symm

theorem sameIgnoringCase_trans {name other third : String} (h : sameIgnoringCase name other)
    (h' : sameIgnoringCase other third) : sameIgnoringCase name third :=
  sameIgnoringCase_iff.2 ((sameIgnoringCase_iff.1 h).trans (sameIgnoringCase_iff.1 h'))

theorem addName_cases (kept : List String) (name : String) :
    (∃ known ∈ kept, sameIgnoringCase known name) ∧ addName kept name = kept ∨
      (∀ known ∈ kept, ¬sameIgnoringCase known name) ∧ addName kept name = kept ++ [name] := by
  unfold addName
  split
  · rename_i h
    obtain ⟨known, hmem, hsame⟩ := List.any_eq_true.1 h
    exact .inl ⟨⟨known, hmem, sameIgnoringCase_symm hsame⟩, rfl⟩
  · rename_i h
    refine .inr ⟨fun known hmem hsame => h ?_, rfl⟩
    exact List.any_eq_true.2 ⟨known, hmem, sameIgnoringCase_symm hsame⟩

theorem IsFirst.mem {name : String} (h : IsFirst names name) : name ∈ names := by
  obtain ⟨before, after, rfl, -⟩ := h
  simp

theorem isFirst_concat {name other : String} : IsFirst (names ++ [name]) other ↔
    IsFirst names other ∨ other = name ∧ ∀ earlier ∈ names, ¬sameIgnoringCase earlier name := by
  constructor
  · rintro ⟨before, after, hnames, hfirst⟩
    rcases append_eq_append_cons hnames with ⟨more, rfl, hmore⟩ | ⟨more, rfl, -⟩
    · cases more with
      | nil =>
        cases hmore
        rw [List.append_nil] at hfirst
        exact .inr ⟨rfl, hfirst⟩
      | cons other' more => simp at hmore
    · exact .inl ⟨before, more, rfl, hfirst⟩
  · rintro (⟨before, after, rfl, hfirst⟩ | ⟨rfl, hfirst⟩)
    · exact ⟨before, after ++ [name], by simp, hfirst⟩
    · exact ⟨names, [], rfl, hfirst⟩

theorem firstNames_nil : FirstNames [] [] :=
  ⟨.nil, fun _ => iff_of_false List.not_mem_nil fun h => List.not_mem_nil h.mem, .nil,
    fun _ h => absurd h List.not_mem_nil⟩

theorem FirstNames.mem (h : FirstNames names kept) {name : String} (hname : name ∈ kept) :
    name ∈ names :=
  ((h.first name).1 hname).mem

theorem FirstNames.ordered_concat (h : FirstNames names kept) (name : String) :
    kept.Pairwise fun a b => (names ++ [name]).idxOf a < (names ++ [name]).idxOf b := by
  refine h.ordered.imp_of_mem fun {a b} ha hb hlt => ?_
  rwa [List.idxOf_append_of_mem (h.mem ha), List.idxOf_append_of_mem (h.mem hb)]

theorem pairwise_concat {R : String → String → Prop} {name : String} (h : kept.Pairwise R)
    (hlast : ∀ known ∈ kept, R known name) : (kept ++ [name]).Pairwise R := by
  rw [List.pairwise_append]
  refine ⟨h, List.pairwise_singleton R name, fun known hknown other hother => ?_⟩
  obtain rfl := List.mem_singleton.1 hother
  exact hlast known hknown

theorem FirstNames.addName (h : FirstNames names kept) (name : String) :
    FirstNames (names ++ [name]) (addName kept name) := by
  rcases addName_cases kept name with ⟨⟨known, hknown, hsame⟩, heq⟩ | ⟨hnone, heq⟩
  · rw [heq]
    refine ⟨h.distinct, fun other => ?_, h.ordered_concat name, fun mentioned hmem => ?_⟩
    · rw [isFirst_concat, h.first, or_iff_left]
      exact fun hlast => hlast.2 known (h.mem hknown) hsame
    · rcases List.mem_append.1 hmem with hmem | hmem
      · exact h.covers mentioned hmem
      · obtain rfl := List.mem_singleton.1 hmem
        exact ⟨known, hknown, hsame⟩
  · rw [heq]
    have hnew : ∀ earlier ∈ names, ¬sameIgnoringCase earlier name := by
      intro earlier hmem hsame
      obtain ⟨known, hknown, hsame'⟩ := h.covers earlier hmem
      exact hnone known hknown (sameIgnoringCase_trans hsame' hsame)
    have hfresh : name ∉ names := fun hmem => hnew name hmem (sameIgnoringCase_refl name)
    refine ⟨pairwise_concat h.distinct hnone, fun other => ?_,
      pairwise_concat (h.ordered_concat name) fun known hknown => ?_, fun mentioned hmem => ?_⟩
    · rw [isFirst_concat, List.mem_append, h.first, List.mem_singleton]
      exact or_congr_right ⟨fun heq => ⟨heq, hnew⟩, And.left⟩
    · rw [List.idxOf_append_of_mem (h.mem hknown), List.idxOf_append_of_notMem hfresh]
      have hlt := List.idxOf_lt_length_of_mem (h.mem hknown)
      omega
    · rcases List.mem_append.1 hmem with hmem | hmem
      · obtain ⟨component, hcomponent, hsame⟩ := h.covers mentioned hmem
        exact ⟨component, List.mem_append_left _ hcomponent, hsame⟩
      · exact ⟨mentioned, List.mem_append_right _ hmem, sameIgnoringCase_refl mentioned⟩

theorem FirstNames.foldl (h : FirstNames names kept) (more : List String) :
    FirstNames (names ++ more) (more.foldl Lint.addName kept) := by
  induction more generalizing names kept with
  | nil => simpa using h
  | cons name more ih => simpa using ih (h.addName name)

theorem mem_mentionedNames {mentions : List Mention} {name : String} :
    name ∈ mentionedNames mentions ↔ .component name ∈ mentions := by
  unfold mentionedNames
  rw [List.mem_filterMap]
  constructor
  · rintro ⟨mention, hmention, hname⟩
    cases mention with
    | binder => simp at hname
    | component other =>
      obtain rfl := Option.some.inj hname
      exact hmention
  · intro h
    exact ⟨_, h, rfl⟩

theorem firstNames_ofMentions (mentions : List Mention) :
    FirstNames (mentionedNames mentions) (Usage.ofMentions mentions).components :=
  firstNames_nil.foldl (mentionedNames mentions)

/-! ## Up to order and case -/

/-- A name up to ASCII case. -/
def foldName (name : String) : List Char :=
  foldAscii name.toList

theorem sameIgnoringCase_iff_foldName {name other : String} :
    sameIgnoringCase name other ↔ foldName name = foldName other :=
  sameIgnoringCase_iff

theorem FirstNames.nodup (h : FirstNames names kept) : (kept.map foldName).Nodup := by
  rw [List.Nodup, List.pairwise_map]
  exact h.distinct.imp fun hdistinct hsame => hdistinct (sameIgnoringCase_iff_foldName.2 hsame)

theorem FirstNames.mem_fold (h : FirstNames names kept) {folded : List Char} :
    folded ∈ kept.map foldName ↔ folded ∈ names.map foldName := by
  simp only [List.mem_map]
  constructor
  · rintro ⟨name, hname, rfl⟩
    exact ⟨name, h.mem hname, rfl⟩
  · rintro ⟨name, hname, rfl⟩
    obtain ⟨component, hcomponent, hsame⟩ := h.covers name hname
    exact ⟨component, hcomponent, sameIgnoringCase_iff_foldName.1 hsame⟩

/-- First spellings are the same up to order and case if the same names are mentioned. -/
theorem FirstNames.perm {names' kept' : List String} (h : FirstNames names kept)
    (h' : FirstNames names' kept') (hsame : ∀ name, name ∈ names ↔ name ∈ names') :
    (kept.map foldName).Perm (kept'.map foldName) := by
  rw [List.perm_ext_iff_of_nodup h.nodup h'.nodup]
  intro folded
  rw [h.mem_fold, h'.mem_fold]
  simp only [List.mem_map, hsame]

/-! ## Usage of scripts and pages -/

theorem scriptMentions_unreadable {s : Settings} {text : String}
    (h : (parseProgram text).toBool = false) : scriptMentions s text = [] := by
  cases hparse : parseProgram text with
  | error e => exact scriptMentions_error s hparse
  | ok p => rw [hparse] at h; cases h

theorem flatMap_readable (scripts : List String) (s : Settings) :
    (scripts.filter fun text => (parseProgram text).toBool).flatMap (scriptMentions s) =
      scripts.flatMap (scriptMentions s) := by
  induction scripts with
  | nil => rfl
  | cons text scripts ih =>
    rw [List.filter_cons, List.flatMap_cons]
    split
    · rw [List.flatMap_cons, ih]
    · rename_i h
      rw [scriptMentions_unreadable (Bool.not_eq_true _ ▸ h), List.nil_append, ih]

/-- **Usage has no repetitions and does not depend on the order.** The components are the first
spellings of all names that the scripts and then the pages mention. Scripts that cannot be read
contribute nothing. Other lists of the same scripts and pages, in any order and with any
repetitions, have the same components, up to order and ASCII case, and bind elements if these do. -/
theorem detect_first_names (scripts pages : List String) (s : Settings) :
    let found := detect scripts pages s
    FirstNames (mentionedNames (scripts.flatMap (scriptMentions s) ++
        pages.flatMap (documentMentions s maxTemplateDepth))) found.components ∧
      detect (scripts.filter fun text => (parseProgram text).toBool) pages s = found ∧
      ∀ scripts' pages' : List String, (∀ text, text ∈ scripts' ↔ text ∈ scripts) →
        (∀ text, text ∈ pages' ↔ text ∈ pages) →
          ((detect scripts' pages' s).components.map foldName).Perm
              (found.components.map foldName) ∧
            (detect scripts' pages' s).usesBinder = found.usesBinder := by
  simp only [detect_eq]
  refine ⟨firstNames_ofMentions _, ?_, fun scripts' pages' hscripts hpages => ?_⟩
  · rw [flatMap_readable]
  · have hmentions (mention : Mention) :
        mention ∈ scripts'.flatMap (scriptMentions s) ++
            pages'.flatMap (documentMentions s maxTemplateDepth) ↔
          mention ∈ scripts.flatMap (scriptMentions s) ++
            pages.flatMap (documentMentions s maxTemplateDepth) := by
      simp only [List.mem_append, List.mem_flatMap, hscripts, hpages]
    refine ⟨(firstNames_ofMentions _).perm (firstNames_ofMentions _) fun name => ?_, ?_⟩
    · rw [mem_mentionedNames, mem_mentionedNames, hmentions]
    · rw [Bool.eq_iff_iff]
      exact List.contains_iff_mem.trans ((hmentions .binder).trans List.contains_iff_mem.symm)

/-- Two spellings of one name, a script that cannot be read, and repetitions. -/
theorem detect_repeated_scripts :
    let scripts := ["x.kendoGrid()", "(", "kendo.bind(y.kendogrid())"]
    let scripts' := ["kendo.bind(y.kendogrid())", "x.kendoGrid()", "(", "x.kendoGrid()"]
    let page := "<p data-role='Menu'></p>"
    let found := detect scripts [page] {}
    let found' := detect scripts' [page, page] {}
    (∀ text, text ∈ scripts' ↔ text ∈ scripts) ∧ (∀ text, text ∈ [page, page] ↔ text ∈ [page]) ∧
      found.components = ["Grid", "Menu"] ∧ found'.components = ["grid", "Menu"] ∧
      (found'.components.map foldName).Perm (found.components.map foldName) ∧
        found'.usesBinder = found.usesBinder := by
  intro scripts scripts' page found found'
  have hscripts : ∀ text, text ∈ scripts' ↔ text ∈ scripts := by
    simp only [scripts, scripts', List.mem_cons, List.not_mem_nil]
    tauto
  have hpages : ∀ text, text ∈ [page, page] ↔ text ∈ [page] := by simp
  obtain ⟨hfound, hfound'⟩ :
      found.components = ["Grid", "Menu"] ∧ found'.components = ["grid", "Menu"] := by
    decide +kernel
  obtain ⟨-, -, hsame⟩ := detect_first_names scripts [page] {}
  exact ⟨hscripts, hpages, hfound, hfound', hsame scripts' _ hscripts hpages⟩

end WidgetLint.Lint
