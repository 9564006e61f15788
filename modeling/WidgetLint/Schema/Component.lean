/-!
# Documented components

What the documentation says about a component: its options, events, methods and fields, and for
each option the types it accepts and its default.
-/

namespace WidgetLint.Schema

/-- A type that an option accepts. -/
inductive TypeTag where
  | array
  | string
  /-- A selector, written as a string. -/
  | selector
  | number
  | boolean
  | function
  | object
  /-- The configuration of another component. It accepts no literal by itself, but says what the
  entries of an object are checked against. -/
  | reference (id : String)
  /-- A type that no literal has. -/
  | named (name : String)
deriving DecidableEq, Repr

namespace TypeTag

/-- The type with a documented name. A name with a point in it refers to a component. -/
def ofName (name : String) : TypeTag :=
  match name with
  | "Array" => array
  | "String" => string
  | "Selector" => selector
  | "Number" => number
  | "Boolean" => boolean
  | "Function" => function
  | "Object" => object
  | _ => if name.toList.contains '.' then reference name else named name

def name : TypeTag → String
  | array => "Array"
  | string => "String"
  | selector => "Selector"
  | number => "Number"
  | boolean => "Boolean"
  | function => "Function"
  | object => "Object"
  | reference id => id
  | named name => name

end TypeTag

/-- A documented option, event, field or argument. -/
structure Descriptor where
  name : String
  /-- The name with all its points under which a nested option was documented. -/
  fullName : Option String
  types : List TypeTag
  /-- The default, as script source. -/
  defaultText : Option String
  sub : List Descriptor

namespace Descriptor

/-- The descriptor of an event, which is set like an option and takes a function. -/
def event (name : String) : Descriptor :=
  ⟨name, none, [.function], none, []⟩

/-- The name that messages use. -/
def displayName (d : Descriptor) : String :=
  d.fullName.getD d.name

/-- The accepted types as messages list them. -/
def typeList (d : Descriptor) : String :=
  ", ".intercalate (d.types.map TypeTag.name)

end Descriptor

/-- A documented method. -/
structure Method where
  name : String
  args : List Descriptor

/-- Everything that is documented about a component. -/
structure Component where
  id : String
  name : String
  options : List Descriptor
  events : List Descriptor
  methods : List Method
  fields : List Descriptor

/-- The descriptors that the entries of an object are checked against; of several with one name the
first counts. -/
abbrev Scope := List Descriptor

/-- The descriptor of a name in a scope. -/
def Scope.find? (scope : Scope) (name : String) : Option Descriptor :=
  List.find? (·.name == name) scope

/-- The scope of a component's configuration: its options, then its events. -/
def Component.scope (c : Component) : Scope :=
  c.options ++ c.events

/-- The option or event of a component that a configuration key sets. -/
def Component.option? (c : Component) (name : String) : Option Descriptor :=
  c.scope.find? name

end WidgetLint.Schema
