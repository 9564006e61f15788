import WidgetLint.Json

/-!
# Lint settings

The naming conventions that the linter looks for. A settings file is a JSON object that lists what
differs from the defaults, or an array of the first few values in the order of the fields.
-/

namespace WidgetLint.Lint

/-- The naming conventions of the pages to check. -/
structure Settings where
  /-- Joined to a short component name to form its id. -/
  namespaceText : String := "kendo.ui."
  /-- Starts the names of methods that create components. -/
  methodPrefix : String := "kendo"
  /-- Starts the names of attributes that set options. -/
  dataPrefix : String := "data-"
  /-- Names the component that an element becomes. -/
  roleAttribute : String := "data-role"
  /-- Binds an element; never sets an option. -/
  bindAttribute : String := "data-bind"
  /-- Whether server blocks are blanked out before markup is read. -/
  asp : Bool := false
deriving DecidableEq, Repr, Inhabited

namespace Settings

/-- The first segment of the namespace, the object that carries library functions. -/
def namespaceRoot (s : Settings) : String :=
  String.ofList (s.namespaceText.toList.takeWhile (· != '.'))

/-- The names of the settings, in the order of the array form. -/
def keys : List String :=
  ["namespace", "methodPrefix", "dataPrefix", "roleAttribute", "bindAttribute", "asp"]

/-- The settings with one of them replaced; a value of the wrong kind or an unknown name is
refused. -/
def set? (s : Settings) (key : String) (value : Json) : Option Settings :=
  match key, value with
  | "namespace", .string text => some { s with namespaceText := text }
  | "methodPrefix", .string text => some { s with methodPrefix := text }
  | "dataPrefix", .string text => some { s with dataPrefix := text }
  | "roleAttribute", .string text => some { s with roleAttribute := text }
  | "bindAttribute", .string text => some { s with bindAttribute := text }
  | "asp", .bool flag => some { s with asp := flag }
  | _, _ => none

/-- The defaults with the given settings replaced. -/
def ofMembers? (members : List (String × Json)) : Option Settings :=
  members.foldlM (fun s member => s.set? member.1 member.2) {}

/-- Settings from a JSON value: an object without repeated names, or an array that gives the
first few settings in order. -/
def ofJson? : Json → Option Settings
  | .object members => if (members.map (·.1)).Nodup then ofMembers? members else none
  | .array items => if items.length ≤ keys.length then ofMembers? (keys.zip items) else none
  | _ => none

def parse? (text : String) : Option Settings :=
  (Json.parse? text).bind ofJson?

end Settings

end WidgetLint.Lint
