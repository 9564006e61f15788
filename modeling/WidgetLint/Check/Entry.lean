import WidgetLint.Script.Tree

/-!
# Configuration values

A configuration object is a list of entries, and of each value only its literal shape matters.
Whatever is not written as a literal, such as a variable or a call, is unresolved and fits
everywhere.
-/

namespace WidgetLint.Check

open Text Number Script

/-- A key and a value of a configuration object. -/
structure Entry where
  key : String
  value : Expr
  /-- Where the key starts. -/
  position : Position
  /-- The number of bytes of the key's text. -/
  length : Nat

/-- The number of bytes of a key as it is taken to be written, quotes included. -/
def keyLength (key : Key) (name : String) : Nat :=
  match key with
  | .string _ => name.utf8ByteSize + 2
  | _ => name.utf8ByteSize

/-- The entry of a member; a spread member or a computed key makes none. -/
def Entry.ofMember? : Member → Option Entry
  | .named span _ key value =>
    key.name?.map fun name => ⟨name, value, span.start, keyLength key name⟩
  | .spread _ => none

/-- The entries of an object expression, in order; any other expression has none. -/
def Entry.ofObject : Expr → List Entry
  | .object _ members => members.filterMap Entry.ofMember?
  | _ => []

/-- The literal shape of a value. -/
inductive Literal where
  | string (value : String)
  | number (value : Binary64)
  | boolean (value : Bool)
  | regex
  | array (items : List (Option Expr))
  | object (entries : List Entry)
  | function
  | unresolved

/-- Whether a template contains code. -/
def containsCode : List Char → Bool
  | '$' :: '\x7b' :: _ => true
  | _ :: rest => containsCode rest
  | [] => false

/-- The literal shape of an expression. A signed number is a number, and a template without code
is a string. -/
def Literal.classify : Expr → Literal
  | .string _ value => .string value
  | .template _ raw => if containsCode raw.toList then .unresolved else .string raw
  | .number _ value => .number value
  | .unary _ .neg (.number _ value) => .number value.negate
  | .unary _ .plus (.number _ value) => .number value
  | .boolean _ value => .boolean value
  | .regex .. => .regex
  | .array _ items => .array items
  | .object span members => .object (Entry.ofObject (.object span members))
  | .function .. | .arrow .. => .function
  | _ => .unresolved

end WidgetLint.Check
