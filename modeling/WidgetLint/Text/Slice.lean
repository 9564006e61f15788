/-!
# Parts of a text

Cutting a text at a word or a character, on lists of characters.
-/

namespace WidgetLint.Text

/-- What follows `word` in a text that begins with it. -/
def afterWord? (word text : String) : Option String :=
  if word.toList.isPrefixOf text.toList then some (String.ofList (text.toList.drop word.length))
  else none

theorem afterWord?_eq_some {word text rest : String} :
    afterWord? word text = some rest ↔ text = word ++ rest := by
  rw [afterWord?, Option.ite_none_right_eq_some, List.isPrefixOf_iff_prefix]
  constructor
  · rintro ⟨⟨others, hothers⟩, hrest⟩
    cases hrest
    rw [← String.toList_inj, String.toList_append, String.toList_ofList, ← hothers,
      ← String.length_toList, List.drop_left]
  · rintro rfl
    rw [String.toList_append, ← String.length_toList, List.drop_left, String.ofList_toList]
    exact ⟨List.prefix_append _ _, rfl⟩

theorem afterWord?_append (word rest : String) : afterWord? word (word ++ rest) = some rest :=
  afterWord?_eq_some.2 rfl

/-- What precedes `word` in a text that ends with it. -/
def beforeWord? (word text : String) : Option String :=
  if word.toList.isSuffixOf text.toList then
    some (String.ofList (text.toList.take (text.length - word.length)))
  else none

/-- Whether a word occurs in a text. -/
def occursIn (word : List Char) : (text : List Char) → Bool
  | [] => word.isEmpty
  | c :: rest => word.isPrefixOf (c :: rest) || occursIn word rest

theorem append_eq_append_cons {α : Type} {front rest left right : List α} {c : α}
    (h : front ++ rest = left ++ c :: right) :
    (∃ more, left = front ++ more ∧ rest = more ++ c :: right) ∨
      ∃ more, front = left ++ c :: more ∧ right = more ++ rest := by
  rcases List.append_eq_append_iff.1 h with hsecond | ⟨part, rfl, hpart⟩
  · exact .inl hsecond
  · cases part with
    | nil => exact .inl ⟨[], by simp, hpart.symm⟩
    | cons d part =>
      obtain ⟨rfl, rfl⟩ := List.cons.inj hpart
      exact .inr ⟨part, rfl, rfl⟩

/-- The parts of a text around the first occurrence of a character. -/
def splitFirst? (c : Char) (text : String) : Option (String × String) :=
  match text.toList.dropWhile (· != c) with
  | [] => none
  | _ :: rest => some (String.ofList (text.toList.takeWhile (· != c)), String.ofList rest)

theorem splitFirst?_of_not_mem {c : Char} {text before after : String}
    (htext : text.toList = before.toList ++ c :: after.toList) (h : c ∉ before.toList) :
    splitFirst? c text = some (before, after) := by
  have hbefore : ∀ d ∈ before.toList, (d != c) = true :=
    fun d hd => bne_iff_ne.2 fun heq => h (heq ▸ hd)
  rw [splitFirst?, htext, List.dropWhile_append_of_pos hbefore,
    List.takeWhile_append_of_pos hbefore, List.dropWhile_cons_of_neg (by simp),
    List.takeWhile_cons_of_neg (by simp)]
  simp

/-- The parts of a text around the last occurrence of a character. -/
def splitLast? (c : Char) (text : String) : Option (String × String) :=
  match text.toList.reverse.dropWhile (· != c) with
  | [] => none
  | _ :: rest =>
    some (String.ofList rest.reverse,
      String.ofList (text.toList.reverse.takeWhile (· != c)).reverse)

theorem splitLast?_eq_some {c : Char} {text before after : String} :
    splitLast? c text = some (before, after) ↔
      text.toList = before.toList ++ c :: after.toList ∧ c ∉ after.toList := by
  have hcut := List.takeWhile_append_dropWhile (p := (· != c)) (l := text.toList.reverse)
  have hnone : ∀ d ∈ text.toList.reverse.takeWhile (· != c), d ≠ c :=
    fun d hd => bne_iff_ne.1 (List.all_eq_true.1 List.all_takeWhile d hd)
  constructor
  · intro h
    unfold splitLast? at h
    split at h
    · cases h
    · rename_i d rest hdrop
      obtain ⟨rfl, rfl⟩ := Prod.mk.inj (Option.some.inj h)
      have hd : d = c := by
        have hhead := List.head?_dropWhile_not (· != c) text.toList.reverse
        rw [hdrop] at hhead
        simpa using hhead
      rw [hdrop, hd] at hcut
      have htext := congrArg List.reverse hcut
      rw [List.reverse_reverse, List.reverse_append, List.reverse_cons, List.append_assoc] at htext
      rw [String.toList_ofList, String.toList_ofList]
      exact ⟨htext.symm, fun hmem => hnone c (List.mem_reverse.1 hmem) rfl⟩
  · rintro ⟨htext, hlast⟩
    have hreverse : text.toList.reverse = after.toList.reverse ++ c :: before.toList.reverse := by
      rw [htext, List.reverse_append, List.reverse_cons, List.append_assoc]
      rfl
    have hafter : ∀ d ∈ after.toList.reverse, (d != c) = true :=
      fun d hd => bne_iff_ne.2 fun heq => hlast (heq ▸ List.mem_reverse.1 hd)
    rw [splitLast?, hreverse, List.dropWhile_append_of_pos hafter, List.takeWhile_append_of_pos hafter,
      List.dropWhile_cons_of_neg (by simp), List.takeWhile_cons_of_neg (by simp)]
    simp

end WidgetLint.Text
