import WidgetLint.Check.Diagnostic
import WidgetLint.Check.Entry
import WidgetLint.Schema.Model
import WidgetLint.Script.Parser
import WidgetLint.Script.Printer

/-!
# Checking configurations

Every entry of a configuration object has to be documented and its value has to have one of the
documented types. Inside an object the entries are checked against the component that the type
refers to, or against the nested options. A value that is the documented default is worth a
warning. The check follows the tree of the value, so it ends whatever the documentation says.
-/

namespace WidgetLint.Check

open Text Script Schema

def admits : TypeTag → Literal → Bool
  | .array, .array _ => true
  | .string, .string _ => true
  | .selector, .string _ => true
  | .number, .number _ => true
  | .boolean, .boolean _ => true
  | .function, .function => true
  | .object, .object _ => true
  | _, _ => false

/-- Whether a literal is something that types can be checked against. -/
def Literal.isResolved : Literal → Bool
  | unresolved => false
  | _ => true

def Literal.isObject : Literal → Bool
  | object _ => true
  | _ => false

/-- Whether a value is one that a descriptor accepts. -/
def accepts (d : Descriptor) (literal : Literal) : Bool :=
  d.types.isEmpty || !literal.isResolved || d.types.any (admits · literal)

/-- The component that the types of a descriptor refer to first. -/
def reference? (types : List TypeTag) : Option String :=
  types.findSome? fun
    | .reference id => some id
    | _ => none

/-- What the entries of an object are checked against, if anything: the component that is referred
to, or the nested options. -/
def innerScope? (model : Model) (d : Descriptor) : Option Scope :=
  match (reference? d.types).bind model.get? with
  | some target => some target.scope
  | none => if d.sub.isEmpty then none else some d.sub

/-- The diagnostic of an entry that is not documented. -/
def notFound (entry : Entry) : Diagnostic :=
  .spanning .error ("Option " ++ entry.key ++ " not found") entry.position entry.length

/-- The diagnostic of an entry whose value has no accepted type. -/
def badType (d : Descriptor) (entry : Entry) : Diagnostic :=
  .spanning .error ("Bad type for option " ++ d.displayName ++ ". Accepted: " ++ d.typeList)
    entry.value.span.start entry.value.span.length

/-- The diagnostic of an entry whose value is written like the default. A default that cannot be
read is passed over. -/
def sameAsDefault? (d : Descriptor) (entry : Entry) : Option Diagnostic :=
  match d.defaultText.map parseExpression with
  | some (.ok e) =>
    if e.text = entry.value.text then
      some (.spanning .warning ("Passed value for option " ++ d.displayName ++
        " is the same as default value: " ++ e.text) entry.position entry.length)
    else none
  | _ => none

/-- The diagnostics of an entry, given those of the entries inside its value for any scope. -/
def judge (model : Model) (scope : Scope) (entry : Entry) (inside : Scope → List Diagnostic) :
    List Diagnostic :=
  match scope.find? entry.key with
  | none => [notFound entry]
  | some d =>
    let literal := Literal.classify entry.value
    if accepts d literal then
      let nested :=
        if literal.isObject && !d.types.isEmpty then (innerScope? model d).elim [] inside else []
      nested ++ (sameAsDefault? d entry).toList
    else [badType d entry]

mutual

/-- The diagnostics of the entries of an object. -/
def checkObject (model : Model) (scope : Scope) : Expr → List Diagnostic
  | .object _ members => checkMembers model scope members
  | _ => []

def checkMembers (model : Model) (scope : Scope) : List Member → List Diagnostic
  | [] => []
  | member :: rest => checkMember model scope member ++ checkMembers model scope rest

def checkMember (model : Model) (scope : Scope) : Member → List Diagnostic
  | .spread _ => []
  | .named span _ key value =>
    match key.name? with
    | none => []
    | some name =>
      judge model scope ⟨name, value, span.start, keyLength key name⟩ fun inner =>
        checkObject model inner value

end

def checkEntry (model : Model) (scope : Scope) (entry : Entry) : List Diagnostic :=
  judge model scope entry fun inner => checkObject model inner entry.value

def checkEntries (model : Model) (scope : Scope) (entries : List Entry) : List Diagnostic :=
  entries.flatMap (checkEntry model scope)

/-- The diagnostics of a component's configuration. -/
def checkComponent (model : Model) (c : Component) (entries : List Entry) : List Diagnostic :=
  checkEntries model c.scope entries

theorem checkMembers_eq (model : Model) (scope : Scope) (members : List Member) :
    checkMembers model scope members =
      checkEntries model scope (members.filterMap Entry.ofMember?) := by
  induction members with
  | nil => simp [checkMembers, checkEntries]
  | cons member rest ih =>
    rw [checkMembers, ih]
    cases member with
    | spread e => simp [checkMember, Entry.ofMember?, List.filterMap_cons]
    | named span kind key value =>
      cases h : key.name? <;>
        simp [checkMember, Entry.ofMember?, h, checkEntries, checkEntry]

theorem checkObject_eq (model : Model) (scope : Scope) (e : Expr) :
    checkObject model scope e = checkEntries model scope (Entry.ofObject e) := by
  cases e <;> simp [checkObject, Entry.ofObject, checkMembers_eq, checkEntries]

end WidgetLint.Check
