import WidgetLint.Json
import WidgetLint.Schema.Model

/-!
# Loading models

A model is written in JSON as an object from component ids to what is documented about them. Every
record may also be written as an array of its fields in a fixed order.
-/

namespace WidgetLint.Schema

/-- The values of a record's fields, in the order of `names`. A record in array form has at least
`least` of them; of a member that is repeated in object form the last one counts. -/
def recordFields? (names : List String) (least : Nat) : Json → Option (List (Option Json))
  | .object members =>
    some (names.map fun name => (members.reverse.find? (·.1 == name)).map (·.2))
  | .array items =>
    if least ≤ items.length ∧ items.length ≤ names.length then
      some (items.map some ++ List.replicate (names.length - items.length) none)
    else none
  | _ => none

/-- A text that has to be there. -/
def text? : Option Json → Option String
  | some (.string value) => some value
  | _ => none

/-- A text that may be missing or null. -/
def optionalText? : Option Json → Option (Option String)
  | none => some none
  | some .null => some none
  | some (.string value) => some (some value)
  | _ => none

/-- A list that may be missing. -/
def list? {α : Type} (item : Json → Option α) : Option Json → Option (List α)
  | none => some []
  | some (.array items) => items.mapM item
  | _ => none

/-- A descriptor in which descriptors nest at most `depth` deep. -/
def descriptor? : (depth : Nat) → Json → Option Descriptor
  | 0, _ => none
  | depth + 1, json => do
    match ← recordFields? ["name", "type", "default", "sub", "orig"] 5 json with
    | [name, types, defaultText, sub, fullName] =>
      return {
        name := ← text? name
        types := ← list? (fun t => (text? (some t)).map TypeTag.ofName) types
        defaultText := ← optionalText? defaultText
        sub := ← list? (descriptor? depth) sub
        fullName := ← optionalText? fullName }
    | _ => none

/-- A descriptor; a JSON text cannot nest deeper than the reader allows. -/
def topDescriptor? : Json → Option Descriptor :=
  descriptor? Json.maxDepth

def method? (json : Json) : Option Method := do
  match ← recordFields? ["name", "args"] 1 json with
  | [name, args] => return ⟨← text? name, ← list? topDescriptor? args⟩
  | _ => none

/-- A component with the given id. Events have the form of methods, of which only the names are
kept. -/
def component? (id : String) (json : Json) : Option Component := do
  match ← recordFields? ["name", "config", "events", "methods", "fields"] 1 json with
  | [name, config, events, methods, fields] =>
    return {
      id := id
      name := (← optionalText? name).getD id
      options := ← list? topDescriptor? config
      events := (← list? method? events).map fun m => .event m.name
      methods := ← list? method? methods
      fields := ← list? topDescriptor? fields }
  | _ => none

/-- The components of a documentation; the first one that does not have the right form is the
error. -/
def readComponents : List (String × Json) → Except SchemaError (List Component)
  | [] => .ok []
  | (id, json) :: rest =>
    match component? id json with
    | none => .error (.component id)
    | some c => (readComponents rest).map (c :: ·)

/-- The model that a JSON text documents. -/
def Model.parse (text : String) : Except SchemaError Model :=
  match Json.parse? text with
  | some (.object members) => readComponents (Json.distinct members) >>= Model.ofComponents
  | _ => .error .malformed

end WidgetLint.Schema
