import WidgetLint.Markup.ServerBlock
import WidgetLint.Proofs.Text.Place
import WidgetLint.Text.Slice

/-!
# Blanking server blocks

A blanked server block has as many characters as before, each as many bytes long, and the same
characters end lines. So every position of the blanked text is that of the text itself
(`shape_blankServerBlocks`).

`Blanks` says what blanking does without following its scan: the leftmost opener that is closed on
its line begins a block, the block ends at the first closer, and the text behind it is blanked in
the same way (`blanks_iff`). No block is left in a blanked text (`Blanks.noBlock`), so blanking it
or a part of it again changes nothing (`blankServerBlocks_part`).
-/

namespace WidgetLint.Text

/-- What a character does to a position: whether it ends a line, and its number of bytes. -/
def shape (c : Char) : Bool × Nat :=
  (c == '\n', c.utf8Size)

theorem Position.next_congr (p : Position) {c d : Char} (h : shape c = shape d) :
    p.next c = p.next d := by
  simp only [shape, Prod.mk.injEq] at h
  obtain ⟨hnewline, hsize⟩ := h
  have hiff : c = '\n' ↔ d = '\n' := by
    rw [← beq_iff_eq, hnewline, beq_iff_eq]
  unfold Position.next
  by_cases hc : c = '\n'
  · rw [if_pos hc, if_pos (hiff.mp hc), hsize]
  · rw [if_neg hc, if_neg (fun hd => hc (hiff.mpr hd)), hsize]

theorem Position.after_congr (p : Position) {cs ds : List Char}
    (h : cs.map shape = ds.map shape) : p.after cs = p.after ds := by
  induction cs generalizing p ds with
  | nil =>
    cases ds with
    | nil => rfl
    | cons d ds => simp at h
  | cons c cs ih =>
    cases ds with
    | nil => simp at h
    | cons d ds =>
      simp only [List.map_cons, List.cons.injEq] at h
      rw [Position.after_cons, Position.after_cons, Position.next_congr p h.1, ih _ h.2]

theorem PlaceOf.congr {cs ds : List Char} (h : cs.map shape = ds.map shape) {p : Position}
    (hp : PlaceOf cs p) : PlaceOf ds p := by
  obtain ⟨k, hk, rfl⟩ := hp
  have hlength : cs.length = ds.length := by simpa using congrArg List.length h
  refine ⟨k, hlength ▸ hk, Position.after_congr _ ?_⟩
  rw [List.map_take, List.map_take, h]

end WidgetLint.Text

namespace WidgetLint.Markup

open Text

/-! ## Positions -/

theorem shape_blankChar (c : Char) : shape (blankChar c) = shape c := by
  unfold blankChar
  split
  · rename_i h
    simp only [Bool.or_eq_true, beq_iff_eq] at h
    rcases h with (((rfl | rfl) | rfl) | rfl) | rfl <;> decide
  · rfl

theorem shape_blankFrom (inside : Bool) (cs : List Char) :
    (blankFrom inside cs).map shape = cs.map shape := by
  induction inside, cs using blankFrom.induct with
  | case1 => simp [blankFrom]
  | case2 rest h ih =>
    rw [blankFrom, if_pos h, List.map_cons, List.map_cons, ih, List.map_cons, List.map_cons]
    rfl
  | case3 rest h ih => rw [blankFrom, if_neg h]; simp [ih]
  | case4 c rest h ih => rw [blankFrom, List.map_cons, ih, List.map_cons]; exact h
  | case5 rest ih =>
    rw [blankFrom, List.map_cons, List.map_cons, ih, List.map_cons, List.map_cons]
    rfl
  | case6 c rest h ih =>
    rw [blankFrom, List.map_cons, ih, List.map_cons, shape_blankChar]
    exact h

theorem shape_blankServerBlocks (text : String) :
    (blankServerBlocks text).toList.map shape = text.toList.map shape := by
  rw [blankServerBlocks, String.toList_ofList, shape_blankFrom]

variable {cs out body rest : List Char}

/-! ## Blocks -/

/-- A block stands at the beginning of the characters: an opener and a closer on one line. -/
def OpensBlock (cs : List Char) : Prop :=
  ∃ body rest, cs = '<' :: '%' :: (body ++ '%' :: '>' :: rest) ∧ '\n' ∉ body

/-- No block stands anywhere among the characters. -/
def NoBlock (cs : List Char) : Prop :=
  ∀ part, part <:+ cs → ¬OpensBlock part

/-- The character, or a space if it means something in markup. -/
def withoutMarkup (c : Char) : Char :=
  if c ∈ ['<', '&', '>', '\'', '"'] then ' ' else c

/-- What blanking makes of the characters: each block becomes a comment that means nothing in
markup. -/
inductive Blanks : List Char → List Char → Prop
  | done {cs : List Char} : NoBlock cs → Blanks cs cs
  | block {before body rest out : List Char} :
      (∀ part, part <:+ before → part ≠ [] →
        ¬OpensBlock (part ++ '<' :: '%' :: (body ++ '%' :: '>' :: rest))) →
      '\n' ∉ body → ¬['%', '>'] <:+: body → Blanks rest out →
      Blanks (before ++ '<' :: '%' :: (body ++ '%' :: '>' :: rest))
        (before ++ '/' :: '*' :: (body.map withoutMarkup ++ '*' :: '/' :: out))

theorem OpensBlock.append (h : OpensBlock cs) (more : List Char) : OpensBlock (cs ++ more) := by
  obtain ⟨body, rest, rfl, hline⟩ := h
  exact ⟨body, rest ++ more, by simp, hline⟩

theorem noBlock_nil : NoBlock [] := by
  rintro part hpart ⟨body, rest, rfl, -⟩
  cases List.suffix_nil.1 hpart

theorem noBlock_cons {c : Char} : NoBlock (c :: cs) ↔ ¬OpensBlock (c :: cs) ∧ NoBlock cs := by
  simp only [NoBlock, List.suffix_cons_iff, forall_eq_or_imp]

theorem NoBlock.part (h : NoBlock cs) {part : List Char} (hpart : part <:+: cs) :
    NoBlock part := by
  obtain ⟨before, behind, rfl⟩ := hpart
  rintro tail ⟨front, rfl⟩ hopens
  exact h (tail ++ behind) ⟨before ++ front, by simp⟩ (hopens.append behind)

/-! ## The scan -/

theorem blockCloses_cons {c : Char} (hc : c ≠ '\n')
    (h : ¬['%', '>'].isPrefixOf (c :: rest) = true) :
    blockCloses (c :: rest) = blockCloses rest := by
  rw [blockCloses]
  · rintro rfl
    exact hc rfl
  · rintro tail rfl rfl
    exact h rfl

theorem blankFrom_cons {c : Char} (h : ¬['<', '%'].isPrefixOf (c :: rest) = true) :
    blankFrom false (c :: rest) = c :: blankFrom false rest := by
  rw [blankFrom]
  rintro tail rfl rfl
  exact h rfl

theorem blankFrom_true_cons {c : Char} (h : ¬['%', '>'].isPrefixOf (c :: rest) = true) :
    blankFrom true (c :: rest) = blankChar c :: blankFrom true rest := by
  rw [blankFrom]
  rintro tail rfl rfl
  exact h rfl

theorem blockCloses_append (hline : '\n' ∉ body) (rest : List Char) :
    blockCloses (body ++ '%' :: '>' :: rest) = true := by
  induction body with
  | nil => rfl
  | cons c body ih =>
    rw [List.cons_append]
    by_cases hcloses : ['%', '>'].isPrefixOf (c :: (body ++ '%' :: '>' :: rest)) = true
    · obtain ⟨behind, hbehind⟩ := List.isPrefixOf_iff_prefix.1 hcloses
      rw [← hbehind]
      rfl
    · rw [blockCloses_cons (List.ne_of_not_mem_cons hline).symm hcloses]
      exact ih fun hmem => hline (List.mem_cons_of_mem _ hmem)

theorem blockCloses_cut (h : blockCloses cs = true) :
    ∃ body rest, cs = body ++ '%' :: '>' :: rest ∧ '\n' ∉ body ∧ ¬['%', '>'] <:+: body := by
  induction cs with
  | nil => cases h
  | cons c cs ih =>
    by_cases hline : c = '\n'
    · subst hline
      cases h
    by_cases hcloses : ['%', '>'].isPrefixOf (c :: cs) = true
    · obtain ⟨rest, hrest⟩ := List.isPrefixOf_iff_prefix.1 hcloses
      exact ⟨[], rest, hrest.symm, by simp, by simp⟩
    · rw [blockCloses_cons hline hcloses] at h
      obtain ⟨body, rest, rfl, hbody, hfirst⟩ := ih h
      refine ⟨c :: body, rest, rfl, by simp [Ne.symm hline, hbody], ?_⟩
      rw [List.infix_cons_iff, not_or]
      refine ⟨fun hbegins => hcloses (List.isPrefixOf_iff_prefix.2 ?_), hfirst⟩
      exact hbegins.trans (List.prefix_append (c :: body) _)

theorem opensBlock_iff : OpensBlock ('<' :: '%' :: rest) ↔ blockCloses rest = true := by
  constructor
  · rintro ⟨body, behind, hrest, hline⟩
    simp only [List.cons.injEq, true_and] at hrest
    rw [hrest]
    exact blockCloses_append hline behind
  · intro h
    obtain ⟨body, behind, rfl, hline, -⟩ := blockCloses_cut h
    exact ⟨body, behind, rfl, hline⟩

theorem blankChar_eq (c : Char) : blankChar c = withoutMarkup c := by
  simp [blankChar, withoutMarkup, or_assoc]

theorem withoutMarkup_ne_angle (c : Char) : '<' ≠ withoutMarkup c := by
  unfold withoutMarkup
  split
  · decide
  · rename_i h
    rintro rfl
    exact h List.mem_cons_self

theorem blankFrom_kept {c : Char} (h : ¬OpensBlock (c :: cs)) :
    blankFrom false (c :: cs) = c :: blankFrom false cs := by
  by_cases hopener : ['<', '%'].isPrefixOf (c :: cs) = true
  · obtain ⟨rest, hrest⟩ := List.isPrefixOf_iff_prefix.1 hopener
    simp only [List.cons_append, List.nil_append, List.cons.injEq] at hrest
    obtain ⟨rfl, rfl⟩ := hrest
    have hpercent : blankFrom false ('%' :: rest) = '%' :: blankFrom false rest :=
      blankFrom_cons (by simp)
    rw [opensBlock_iff] at h
    rw [blankFrom, if_neg h, hpercent]
  · exact blankFrom_cons hopener

theorem blankFrom_block (hfirst : ¬['%', '>'] <:+: body) :
    blankFrom true (body ++ '%' :: '>' :: rest) =
      body.map blankChar ++ '*' :: '/' :: blankFrom false rest := by
  induction body with
  | nil => rw [List.nil_append, blankFrom, List.map_nil, List.nil_append]
  | cons c body ih =>
    rw [List.infix_cons_iff, not_or] at hfirst
    have hcloses : ¬['%', '>'].isPrefixOf (c :: (body ++ '%' :: '>' :: rest)) = true := by
      cases body with
      | nil => simp
      | cons d body => simpa [List.cons_prefix_cons] using hfirst.1
    rw [List.cons_append, blankFrom_true_cons hcloses, ih hfirst.2, List.map_cons, List.cons_append]

theorem blankFrom_append {before : List Char}
    (h : ∀ part, part <:+ before → part ≠ [] → ¬OpensBlock (part ++ cs)) :
    blankFrom false (before ++ cs) = before ++ blankFrom false cs := by
  induction before with
  | nil => rfl
  | cons c before ih =>
    simp only [List.suffix_cons_iff, forall_eq_or_imp] at h
    have hc : ¬OpensBlock (c :: (before ++ cs)) := h.1 (List.cons_ne_nil c before)
    rw [List.cons_append, blankFrom_kept hc, ih h.2, List.cons_append]

theorem blankFrom_of_noBlock (h : NoBlock cs) : blankFrom false cs = cs := by
  have hkept := @blankFrom_append [] cs fun part hpart _ => by simpa using h part hpart
  rw [List.append_nil, blankFrom, List.append_nil] at hkept
  exact hkept

theorem blankFrom_opener (hline : '\n' ∉ body) (hfirst : ¬['%', '>'] <:+: body) :
    blankFrom false ('<' :: '%' :: (body ++ '%' :: '>' :: rest)) =
      '/' :: '*' :: (body.map withoutMarkup ++ '*' :: '/' :: blankFrom false rest) := by
  rw [blankFrom, if_pos (blockCloses_append hline rest), blankFrom_block hfirst, funext blankChar_eq]

/-! ## What blanking makes of a text -/

theorem Blanks.eq_blankFrom (h : Blanks cs out) : out = blankFrom false cs := by
  induction h with
  | done hnone => exact (blankFrom_of_noBlock hnone).symm
  | block hleftmost hline hfirst _ ih =>
    rw [blankFrom_append hleftmost, blankFrom_opener hline hfirst, ih]

theorem Blanks.cons {c : Char} (h : Blanks cs out) (hc : ¬OpensBlock (c :: cs)) :
    Blanks (c :: cs) (c :: out) := by
  cases h with
  | done hnone => exact .done (noBlock_cons.2 ⟨hc, hnone⟩)
  | @block before body rest out hleftmost hline hfirst hrest =>
    refine @Blanks.block (c :: before) body rest out ?_ hline hfirst hrest
    simp only [List.suffix_cons_iff, forall_eq_or_imp]
    exact ⟨fun _ => hc, hleftmost⟩

theorem blanks_blankFrom (cs : List Char) : Blanks cs (blankFrom false cs) := by
  induction hlength : cs.length using Nat.strongRecOn generalizing cs with
  | _ n ih =>
    subst hlength
    by_cases hopens : OpensBlock cs
    · obtain ⟨body, rest, rfl, hline⟩ := hopens
      obtain ⟨first, behind, hcut, hline, hfirst⟩ := blockCloses_cut (blockCloses_append hline rest)
      have hshorter : behind.length < (body ++ '%' :: '>' :: rest).length := by
        rw [hcut]
        simp only [List.length_append, List.length_cons]
        omega
      have hbehind := ih behind.length (by simp only [List.length_cons]; omega) behind rfl
      rw [hcut, blankFrom_opener hline hfirst]
      exact @Blanks.block [] first behind _ (by simp) hline hfirst hbehind
    · cases cs with
      | nil => exact .done noBlock_nil
      | cons c cs =>
        rw [blankFrom_kept hopens]
        exact (ih cs.length (by simp) cs rfl).cons hopens

theorem blanks_iff : Blanks cs out ↔ out = blankFrom false cs := by
  constructor
  · exact Blanks.eq_blankFrom
  · rintro rfl
    exact blanks_blankFrom cs

/-- No block stands in joined texts if none begins in the first and none stands in the second. -/
theorem noBlock_append {front : List Char}
    (h : ∀ part, part <:+ front → part ≠ [] → ¬OpensBlock (part ++ cs)) (hcs : NoBlock cs) :
    NoBlock (front ++ cs) := by
  induction front with
  | nil => exact hcs
  | cons c front ih =>
    simp only [List.suffix_cons_iff, forall_eq_or_imp] at h
    exact noBlock_cons.2 ⟨h.1 (List.cons_ne_nil c front), ih h.2⟩

theorem noBlock_append_of_not_mem {front : List Char} (h : '<' ∉ front) (hcs : NoBlock cs) :
    NoBlock (front ++ cs) := by
  refine noBlock_append (fun part hpart hne hopens => ?_) hcs
  obtain ⟨inner, behind, hbegins, -⟩ := hopens
  cases part with
  | nil => exact hne rfl
  | cons c part =>
    obtain ⟨rfl, -⟩ := List.cons.inj hbegins
    exact h (hpart.subset List.mem_cons_self)

/-- What begins a block before a comment begins one before the block that became the comment: the
line goes on up to the closer of that block. -/
theorem OpensBlock.before_block {front more : List Char} (hfront : front ≠ [])
    (h : OpensBlock (front ++ '/' :: more)) (hline : '\n' ∉ body) :
    OpensBlock (front ++ '<' :: '%' :: (body ++ '%' :: '>' :: rest)) := by
  obtain ⟨inner, behind, hopens, hinner⟩ := h
  match front, hfront with
  | [c], _ => cases hopens
  | c :: d :: front, _ =>
    simp only [List.cons_append, List.cons.injEq] at hopens
    obtain ⟨rfl, rfl, hopens⟩ := hopens
    rw [List.cons_append, List.cons_append, opensBlock_iff]
    rcases append_eq_append_cons hopens with ⟨tail, rfl, -⟩ | ⟨tail, rfl, htail⟩
    · rw [List.mem_append, not_or] at hinner
      have hjoined : '\n' ∉ front ++ '<' :: '%' :: body := by simp [hinner.1, hline]
      simpa using blockCloses_append hjoined rest
    · cases tail with
      | nil => cases htail
      | cons e tail =>
        obtain ⟨rfl, -⟩ := List.cons.inj htail
        simpa using blockCloses_append hinner (tail ++ '<' :: '%' :: (body ++ '%' :: '>' :: rest))

theorem Blanks.noBlock (h : Blanks cs out) : NoBlock out := by
  induction h with
  | done hnone => exact hnone
  | @block before body rest out hleftmost hline hfirst _ ih =>
    refine noBlock_append (fun part hpart hne hopens => ?_) ?_
    · exact hleftmost part hpart hne (hopens.before_block hne hline)
    · have hcomment : '<' ∉ '/' :: '*' :: (body.map withoutMarkup ++ ['*', '/']) := by
        simp [(withoutMarkup_ne_angle _).symm]
      have hall := noBlock_append_of_not_mem hcomment ih
      simpa using hall

/-! ## Blanked texts -/

theorem blanks_blankServerBlocks (text : String) :
    Blanks text.toList (blankServerBlocks text).toList := by
  rw [blankServerBlocks, String.toList_ofList]
  exact blanks_blankFrom text.toList

theorem blankServerBlocks_part {text part : String}
    (h : part.toList <:+: (blankServerBlocks text).toList) : blankServerBlocks part = part := by
  have hnone := (blanks_blankServerBlocks text).noBlock.part h
  rw [blankServerBlocks, blankFrom_of_noBlock hnone, String.ofList_toList]

end WidgetLint.Markup
