import WidgetLint.Schema.Model

/-!
# Searching a model

A query such as `grid.columns` names a component by the end of its id and one of its members, both
without regard to case. Of members with one name the one that is documented last is found.
-/

namespace WidgetLint.Schema

open Text

/-- A member of a component. -/
inductive Found where
  | option (d : Descriptor)
  | event (d : Descriptor)
  | method (m : Method)
  | field (d : Descriptor)

/-- A member and the component it belongs to. -/
structure Hit where
  component : Component
  found : Found

/-- Why a query finds nothing. -/
inductive SearchError where
  | malformedQuery (query : String)
  | componentNotFound (name : String)
  | memberNotFound (name component : String)
deriving DecidableEq, Repr

def SearchError.message : SearchError → String
  | malformedQuery query =>
    "Expected a query like \x60grid.columns\x60, got \x60" ++ query ++ "\x60"
  | componentNotFound name => "Component not found: " ++ name
  | memberNotFound name component => "Property " ++ name ++ " not found in " ++ component

def Found.name : Found → String
  | option d | event d | field d => d.name
  | method m => m.name

/-- The last descriptor whose name is `name` in lower case. -/
def findLast? (name : String) (ds : List Descriptor) : Option Descriptor :=
  ds.reverse.find? (lowercase ·.name == name)

/-- The member of a component whose name is `name` in lower case: an option, an event, a method or
a field, in this order. -/
def Component.member? (c : Component) (name : String) : Option Found :=
  ((findLast? name c.options).map .option).or <|
    ((findLast? name c.events).map .event).or <|
      ((c.methods.reverse.find? (lowercase ·.name == name)).map .method).or <|
        (findLast? name c.fields).map .field

/-- The member that a query names. -/
def Model.search (m : Model) (query : String) : Except SearchError Hit :=
  match splitFirst? '.' query with
  | none => .error (.malformedQuery query)
  | some (componentName, memberName) =>
    if componentName.isEmpty || memberName.isEmpty then .error (.malformedQuery query)
    else match m.findBySuffix? componentName with
      | none => .error (.componentNotFound componentName)
      | some c =>
        match c.member? (lowercase memberName) with
        | some found => .ok ⟨c, found⟩
        | none => .error (.memberNotFound (lowercase memberName) c.name)

end WidgetLint.Schema
