import WidgetLint.Text.Lowercase
import WidgetLint.Text.Slice
import WidgetLint.Schema.Nesting

/-!
# Models

A model holds all documented components in the order of the documentation. No two have the same
id. Components are looked up by id, by id without regard to case, or by the last segments of an id.
-/

namespace WidgetLint.Schema

open Text

/-- Why a documentation cannot be loaded. -/
inductive SchemaError where
  /-- The text is no JSON object. -/
  | malformed
  /-- What is said about a component does not have the right form. -/
  | component (id : String)
  | duplicate (id : String)
deriving DecidableEq, Repr

def SchemaError.message : SchemaError → String
  | malformed => "Schema error: not a JSON object"
  | component id => "Schema error in component " ++ id
  | duplicate id => "Schema error: component " ++ id ++ " is defined twice"

/-- All documented components. -/
structure Model where
  components : List Component
  nodup : (components.map (·.id)).Nodup

/-- The first name that is also in `seen` or earlier in the list. -/
def firstRepeated (seen : List String) : List String → Option String
  | [] => none
  | name :: rest => if seen.contains name then some name else firstRepeated (name :: seen) rest

/-- No name is repeated exactly when the list has no duplicates and none of its names was seen
before. -/
theorem firstRepeated_eq_none_iff {seen names : List String} :
    firstRepeated seen names = none ↔ names.Nodup ∧ ∀ name ∈ names, name ∉ seen := by
  induction names generalizing seen with
  | nil => simp [firstRepeated]
  | cons name rest ih =>
    by_cases known : name ∈ seen
    · simp [firstRepeated, known]
    · simp only [firstRepeated, List.contains_eq_mem, known, decide_false, Bool.false_eq_true,
        ↓reduceIte, ih, List.nodup_cons, List.forall_mem_cons, not_false_eq_true, true_and]
      grind

theorem map_id_nest (components : List Component) :
    (components.map Component.nest).map (·.id) = components.map (·.id) := by
  simp [Function.comp_def]

namespace Model

/-- The model of the given components, with their options nested. -/
def ofComponents (components : List Component) : Except SchemaError Model :=
  match h : firstRepeated [] (components.map (·.id)) with
  | some id => .error (.duplicate id)
  | none =>
    .ok ⟨components.map Component.nest, by
      rw [map_id_nest]
      exact (firstRepeated_eq_none_iff.mp h).1⟩

/-- The component with exactly this id. -/
def get? (m : Model) (id : String) : Option Component :=
  m.components.find? (·.id == id)

/-- The component with this id; if there is none, the first with this id up to case. -/
def getIgnoringCase? (m : Model) (id : String) : Option Component :=
  (m.get? id).or (m.components.find? fun c => lowercase c.id == lowercase id)

/-- Whether an id ends with a name, both in lower case, and the name is the whole id or follows a
point. -/
def endsWithName (id name : String) : Bool :=
  match beforeWord? name id with
  | some head => head.isEmpty || head.toList.getLast? == some '.'
  | none => false

/-- The first component whose id ends with a name up to case. -/
def findBySuffix? (m : Model) (name : String) : Option Component :=
  let name := lowercase name
  if name.isEmpty then none
  else m.components.find? fun c => endsWithName (lowercase c.id) name

/-- The component that a short name stands for in a namespace. -/
def resolve? (m : Model) (name namespaceText : String) : Option Component :=
  m.getIgnoringCase? (namespaceText ++ name)

end Model

end WidgetLint.Schema
