import WidgetLint.Text.Slice
import WidgetLint.Schema.Component

/-!
# Nested options

An option documented under a name with points, such as `pageable.pageSize`, belongs under the option
named by what precedes its last point, if there is one. Options are moved last to first, so that
`a.b.c` comes under `a.b` before `a.b` comes under `a`.
-/

namespace WidgetLint.Schema

open Text

/-- A name with points as the name of its parent and its own; neither may be empty. -/
def splitDotted? (name : String) : Option (String × String) :=
  (splitLast? '.' name).filter fun (parent, child) => !parent.isEmpty && !child.isEmpty

/-- A name has two parts if neither is empty and a point stands between them, the last one. -/
theorem splitDotted?_eq_some {name parent child : String} :
    splitDotted? name = some (parent, child) ↔
      name.toList = parent.toList ++ '.' :: child.toList ∧ '.' ∉ child.toList ∧
        parent ≠ "" ∧ child ≠ "" := by
  simp [splitDotted?, Option.filter_eq_some_iff, splitLast?_eq_some, and_assoc]

/-- Puts a descriptor first under the first descriptor with the given name. -/
def insertUnder (parent : String) (d : Descriptor) : List Descriptor → List Descriptor
  | [] => []
  | e :: rest =>
    if e.name == parent then { e with sub := d :: e.sub } :: rest
    else e :: insertUnder parent d rest

def namesOne (name : String) (ds : List Descriptor) : Bool :=
  ds.any (·.name == name)

/-- The component with `moved` under the first option or else event named `parent`, where `others`
are the options without it; if there is no such parent, the component as it was. -/
def Component.attach (c : Component) (others : List Descriptor) (parent : String)
    (moved : Descriptor) : Component :=
  if namesOne parent others then { c with options := insertUnder parent moved others }
  else if namesOne parent c.events then
    { c with options := others, events := insertUnder parent moved c.events }
  else c

/-- The component after its option at `i` has moved under its parent, if it has one. -/
def nestOption (i : Nat) (c : Component) : Component :=
  match c.options[i]? with
  | none => c
  | some d =>
    match splitDotted? d.name with
    | none => c
    | some (parent, child) =>
      c.attach (c.options.eraseIdx i) parent { d with name := child, fullName := some d.name }

/-- The component after its first `n` options have moved under their parents, last to first. -/
def nestFirst : (n : Nat) → Component → Component
  | 0, c => c
  | i + 1, c => nestFirst i (nestOption i c)

def Component.nest (c : Component) : Component :=
  nestFirst c.options.length c

theorem attach_id (c : Component) (others : List Descriptor) (parent : String)
    (moved : Descriptor) : (c.attach others parent moved).id = c.id := by
  unfold Component.attach
  split
  · rfl
  · split <;> rfl

theorem nestOption_id (i : Nat) (c : Component) : (nestOption i c).id = c.id := by
  unfold nestOption
  split
  · rfl
  · split
    · rfl
    · exact attach_id ..

theorem nestFirst_id (n : Nat) (c : Component) : (nestFirst n c).id = c.id := by
  induction n generalizing c with
  | zero => rfl
  | succ i ih => rw [nestFirst, ih, nestOption_id]

@[simp] theorem Component.nest_id (c : Component) : c.nest.id = c.id :=
  nestFirst_id _ c

end WidgetLint.Schema
