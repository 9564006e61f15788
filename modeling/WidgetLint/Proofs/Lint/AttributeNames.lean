import Mathlib.Data.List.Chain
import WidgetLint.Lint.Linter

/-!
# Names of options in attributes

The name of an attribute writes a capital letter of an option's name as a hyphen and the letter in
lower case (`kebabCase`), and `camelCase` reads it back. A hyphen directly before a lower-case
letter is always taken for such a capital letter, so an option's name with one cannot be written.
**Every other name is read back from how it is written, and nothing else is ever read**
(`camelCase_image`).
-/

namespace WidgetLint.Lint

open Text

/-- An option name as it stands in the name of an attribute: a capital letter becomes a hyphen and
the letter in lower case. -/
def kebabCase : List Char → List Char
  | [] => []
  | c :: rest => if c.isUpper then '-' :: c.toLower :: kebabCase rest else c :: kebabCase rest

/-- No hyphen stands directly before a lower-case letter. -/
def IsFolded (name : List Char) : Prop :=
  name.IsChain fun c d => c = '-' → d.isLower = false

instance : DecidablePred IsFolded :=
  fun name => inferInstanceAs (Decidable (name.IsChain fun c d => c = '-' → d.isLower = false))

theorem isFolded_cons {c : Char} {rest : List Char} :
    IsFolded (c :: rest) ↔ (∀ d ∈ rest.head?, c = '-' → d.isLower = false) ∧ IsFolded rest :=
  List.isChain_cons

theorem isFolded_of_not_mem {name : List Char} (h : '-' ∉ name) : IsFolded name := by
  induction name with
  | nil => exact .nil
  | cons c rest ih =>
    rw [List.mem_cons, not_or] at h
    exact isFolded_cons.2 ⟨fun _ _ hc => absurd hc.symm h.1, ih h.2⟩

/-! ## Letters -/

theorem toUpper_toLower {c : Char} (h : c.isUpper = true) :
    c.toLower.isLower = true ∧ c.toLower.toUpper = c := by
  obtain ⟨n, rfl⟩ := isUpper_cases h
  revert n
  decide

theorem toUpper_of_isLower {c : Char} (h : c.isLower = true) :
    c.toUpper.isLower = false ∧ c.toUpper ≠ '-' := by
  obtain ⟨hlow, hhigh⟩ := Bool.and_eq_true_iff.1 h
  have hrange : 97 ≤ c.toNat ∧ c.toNat ≤ 122 :=
    ⟨(of_decide_eq_true hlow :), (of_decide_eq_true hhigh :)⟩
  have hall : ∀ n : Fin 26, (Char.ofNat (97 + n)).toUpper.isLower = false ∧
      (Char.ofNat (97 + n)).toUpper ≠ '-' := by
    decide
  have hletter := hall ⟨c.toNat - 97, by omega⟩
  rwa [Nat.add_sub_cancel' hrange.1, Char.ofNat_toNat] at hletter

/-! ## What a name begins with -/

theorem head_kebabCase {name : List Char} (h : ∀ d ∈ name.head?, d.isLower = false) :
    ∀ d ∈ (kebabCase name).head?, d.isLower = false := by
  cases name with
  | nil => exact h
  | cons c rest =>
    rw [kebabCase]
    split
    · rintro d ⟨⟩
      decide
    · exact h

theorem head_camelCase {text : List Char} (h : ∀ d ∈ text.head?, d.isLower = false) :
    ∀ d ∈ (camelCase text).head?, d.isLower = false := by
  fun_cases camelCase text with
  | case1 c rest hlower =>
    rintro d ⟨⟩
    exact (toUpper_of_isLower hlower).1
  | case2 c rest hlower => exact h
  | case3 c rest hhyphen => exact h
  | case4 => exact h

/-! ## Reading and writing -/

theorem camelCase_cons {c : Char} {rest : List Char}
    (h : ∀ d ∈ rest.head?, c = '-' → d.isLower = false) :
    camelCase (c :: rest) = c :: camelCase rest := by
  by_cases hc : c = '-'
  · subst hc
    cases rest with
    | nil => rfl
    | cons d rest =>
      have hlower : ¬d.isLower = true := by simp [h d rfl rfl]
      rw [camelCase, if_neg hlower]
  · rw [camelCase]
    rintro d others rfl -
    exact hc rfl

theorem camelCase_kebabCase {name : List Char} (h : IsFolded name) :
    camelCase (kebabCase name) = name := by
  induction name with
  | nil => rfl
  | cons c rest ih =>
    obtain ⟨hnext, hrest⟩ := isFolded_cons.1 h
    rw [kebabCase]
    split
    · rename_i hupper
      obtain ⟨hlower, hback⟩ := toUpper_toLower hupper
      rw [camelCase, if_pos hlower, hback, ih hrest]
    · -- a hyphen that is not before a lower-case letter is not before one as written either
      have hwritten : ∀ d ∈ (kebabCase rest).head?, c = '-' → d.isLower = false :=
        fun d hd hc => head_kebabCase (fun e he => hnext e he hc) d hd
      rw [camelCase_cons hwritten, ih hrest]

theorem isFolded_camelCase (text : List Char) : IsFolded (camelCase text) := by
  fun_induction camelCase text with
  | case1 c rest hlower ih =>
    exact isFolded_cons.2 ⟨fun _ _ hc => absurd hc (toUpper_of_isLower hlower).2, ih⟩
  | case2 c rest hlower ih =>
    have hhead : ∀ d ∈ (c :: rest).head?, d.isLower = false := by
      rintro d ⟨⟩
      exact Bool.eq_false_iff.2 hlower
    exact isFolded_cons.2 ⟨fun d hd _ => head_camelCase hhead d hd, ih⟩
  | case3 c rest hhyphen ih =>
    refine isFolded_cons.2 ⟨?_, ih⟩
    rintro d hd rfl
    cases rest with
    | nil => cases hd
    | cons e others => exact absurd rfl (hhyphen e others rfl)
  | case4 => exact .nil

theorem camelCase_of_isFolded {name : List Char} (h : IsFolded name) : camelCase name = name := by
  induction name with
  | nil => rfl
  | cons c rest ih =>
    obtain ⟨hnext, hrest⟩ := isFolded_cons.1 h
    rw [camelCase_cons hnext, ih hrest]

/-- **The names that can be read are exactly those without a hyphen directly before a lower-case
letter, and each of them is read back from how it is written**; reading a name that was read changes
nothing. -/
theorem camelCase_image (name : List Char) :
    (camelCase (kebabCase name) = name ↔ IsFolded name) ∧ IsFolded (camelCase name) ∧
      camelCase (camelCase name) = camelCase name ∧
      ((∃ text, camelCase text = name) ↔ IsFolded name) := by
  have hfolded : ∀ text, camelCase text = name → IsFolded name := by
    rintro text rfl
    exact isFolded_camelCase text
  refine ⟨⟨hfolded _, camelCase_kebabCase⟩, isFolded_camelCase name, ?_, ?_, ?_⟩
  · exact camelCase_of_isFolded (isFolded_camelCase name)
  · rintro ⟨text, htext⟩
    exact hfolded text htext
  · intro h
    exact ⟨kebabCase name, camelCase_kebabCase h⟩

/-- Hyphens next to each other, before capital letters, digits and at the end are kept. -/
example : IsFolded "-A-B-1-".toList ∧ kebabCase "-A-B-1-".toList = "--a--b-1-".toList ∧
    camelCase "--a--b-1-".toList = "-A-B-1-".toList := by
  decide

end WidgetLint.Lint
