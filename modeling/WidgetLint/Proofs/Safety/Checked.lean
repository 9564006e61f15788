import WidgetLint.Proofs.Text.Place

/-!
# Checked operations

Subtractions that must not become negative, slices of a text that must not cut a character, and
moves that must not leave the text. Each of them has no result where it is not allowed.
-/

namespace WidgetLint.Text

/-! ## Differences -/

/-- A difference, if it is not negative. -/
def minus? (a b : Nat) : Option Nat :=
  if b ≤ a then some (a - b) else none

theorem minus?_eq {a b : Nat} (h : b ≤ a) : minus? a b = some (a - b) :=
  if_pos h

/-! ## Slices -/

def byteSize : List Char → Nat
  | [] => 0
  | c :: cs => c.utf8Size + byteSize cs

@[simp] theorem byteSize_nil : byteSize [] = 0 := rfl

@[simp] theorem byteSize_cons (c : Char) (cs : List Char) :
    byteSize (c :: cs) = c.utf8Size + byteSize cs := rfl

@[simp] theorem byteSize_append (cs ds : List Char) :
    byteSize (cs ++ ds) = byteSize cs + byteSize ds := by
  induction cs with
  | nil => simp
  | cons c cs ih => simp [ih, Nat.add_assoc]

theorem Position.offset_after (p : Position) (cs : List Char) :
    (p.after cs).offset = p.offset + byteSize cs := by
  induction cs generalizing p with
  | nil => rfl
  | cons c cs ih =>
    rw [after_cons, ih, offset_next, byteSize_cons, Nat.add_assoc]

/-- The characters before a byte and those from it on; the byte has to start a character, or to be
the end. -/
def cut? : List Char → Nat → Option (List Char × List Char)
  | cs, 0 => some ([], cs)
  | [], _ + 1 => none
  | c :: cs, n + 1 => do
    let n ← minus? (n + 1) c.utf8Size
    let (before, behind) ← cut? cs n
    return (c :: before, behind)

theorem cut?_append (before behind : List Char) :
    cut? (before ++ behind) (byteSize before) = some (before, behind) := by
  induction before with
  | nil =>
    cases behind with
    | nil => rfl
    | cons => rfl
  | cons c before ih =>
    obtain ⟨n, hn⟩ : ∃ n, byteSize (c :: before) = n + 1 :=
      ⟨c.utf8Size - 1 + byteSize before, by have := c.utf8Size_pos; rw [byteSize_cons]; omega⟩
    have hrest : minus? (n + 1) c.utf8Size = some (byteSize before) := by
      rw [← hn, byteSize_cons, minus?_eq (Nat.le_add_right _ _), Nat.add_sub_cancel_left]
    rw [hn, List.cons_append, cut?, hrest]
    simp only [Option.bind_eq_bind, Option.bind_some, ih]
    rfl

def slice? (cs : List Char) (start stop : Nat) : Option (List Char) := do
  let (_, behind) ← cut? cs start
  let size ← minus? stop start
  let (part, _) ← cut? behind size
  return part

theorem slice?_append {before part behind : List Char} {start stop : Nat}
    (hstart : start = byteSize before) (hstop : stop = start + byteSize part) :
    slice? (before ++ part ++ behind) start stop = some part := by
  subst hstart hstop
  rw [slice?, List.append_assoc, cut?_append, minus?_eq (Nat.le_add_right _ _)]
  simp only [Option.bind_eq_bind, Option.bind_some, Nat.add_sub_cancel_left, cut?_append]
  rfl

theorem slice?_prefix {part behind : List Char} {stop : Nat} (hstop : stop = byteSize part) :
    slice? (part ++ behind) 0 stop = some part := by
  have hwhole : slice? ([] ++ part ++ behind) 0 stop = some part :=
    slice?_append rfl (hstop.trans (Nat.zero_add _).symm)
  exact hwhole

/-! ## Moves -/

namespace Cursor

/-- The cursor after the next character, which has to be there. -/
def advance? (c : Cursor) : Option Cursor :=
  match c.rest with
  | [] => none
  | char :: rest => some ⟨rest, c.position.next char⟩

/-- The cursor after the next `n` characters, all of which have to be there. -/
def drop? (c : Cursor) : (n : Nat) → Option Cursor
  | 0 => some c
  | n + 1 => (c.drop? n).bind advance?

theorem drop?_eq {c : Cursor} {n : Nat} (h : n ≤ c.rest.length) : c.drop? n = some (c.drop n) := by
  induction n with
  | zero => rfl
  | succ n ih =>
    rw [drop?, ih (by omega), Option.bind_some, advance?]
    have hrest : (c.drop n).rest = c.rest[n] :: c.rest.drop (n + 1) := List.drop_eq_getElem_cons h
    rw [hrest]
    simp only [drop, List.take_succ_eq_append_getElem h, Position.after_append, Position.after_cons,
      Position.after_nil]

end Cursor

/-- A place of a region as a place of the enclosing text, if neither line nor column becomes
negative. -/
def Position.translate? (p origin : Position) : Option Position :=
  if p.line = 1 then do
    let column ← minus? (p.column + origin.column) 1
    return ⟨origin.line, column, p.offset + origin.offset⟩
  else do
    let line ← minus? (p.line + origin.line) 1
    return ⟨line, p.column, p.offset + origin.offset⟩

theorem Position.translate?_eq {p : Position} (h : p.Proper) (origin : Position) :
    p.translate? origin = some (p.translate origin) := by
  have hline := h.1
  have hcolumn := h.2
  unfold translate? translate
  split
  · rw [minus?_eq (by omega), Option.bind_eq_bind, Option.bind_some]
    rfl
  · rw [minus?_eq (by omega), Option.bind_eq_bind, Option.bind_some]
    rfl

end WidgetLint.Text
