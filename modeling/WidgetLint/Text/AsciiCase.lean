/-!
# Comparison ignoring ASCII case

Names of tags and components are compared without regard to the case of ASCII letters; other
characters have to be the same.
-/

namespace WidgetLint.Text

/-- The characters with ASCII letters in lower case. -/
def foldAscii (cs : List Char) : List Char :=
  cs.map Char.toLower

/-- Whether two texts differ at most in the case of ASCII letters. -/
def sameIgnoringCase (s t : String) : Bool :=
  foldAscii s.toList == foldAscii t.toList

/-- Whether a text begins with a word, up to the case of ASCII letters. -/
def beginsIgnoringCase : (word text : List Char) → Bool
  | [], _ => true
  | _ :: _, [] => false
  | w :: word, c :: text => w.toLower == c.toLower && beginsIgnoringCase word text

theorem isUpper_cases {c : Char} (h : c.isUpper = true) : ∃ n : Fin 26, c = Char.ofNat (65 + n) := by
  obtain ⟨hlow, hhigh⟩ : 65 ≤ c.toNat ∧ c.toNat ≤ 90 := of_decide_eq_true h
  refine ⟨⟨c.toNat - 65, by omega⟩, ?_⟩
  rw [Nat.add_sub_cancel' hlow, Char.ofNat_toNat]

theorem toLower_of_not_isUpper {c : Char} (h : c.isUpper = false) : c.toLower = c := by
  unfold Char.toLower
  exact dif_neg (of_decide_eq_false h)

theorem sameIgnoringCase_iff {s t : String} :
    sameIgnoringCase s t = true ↔ foldAscii s.toList = foldAscii t.toList := by
  simp [sameIgnoringCase]

end WidgetLint.Text
