import WidgetLint.Text.Position

/-!
# Diagnostics

A diagnostic is a message with a severity and, once known, a place, a length in bytes and a file.
-/

namespace WidgetLint.Check

open Text

/-- How serious a diagnostic is. -/
inductive Severity where
  | error
  | warning
deriving DecidableEq, Repr

def Severity.name : Severity → String
  | error => "error"
  | warning => "warning"

/-- A message anchored to a place in a file. -/
structure Diagnostic where
  severity : Severity
  message : String
  position : Option Position := none
  length : Option Nat := none
  filename : Option String := none
deriving DecidableEq, Repr

namespace Diagnostic

/-- A diagnostic with a place and a length. -/
def spanning (severity : Severity) (message : String) (position : Position) (length : Nat) :
    Diagnostic :=
  ⟨severity, message, some position, some length, none⟩

def moveTo (d : Diagnostic) (position : Position) : Diagnostic :=
  { d with position := some position }

def withLength (d : Diagnostic) (length : Nat) : Diagnostic :=
  { d with length := some length }

/-- The diagnostic in a file, unless it already names one. -/
def inFile (d : Diagnostic) (filename : String) : Diagnostic :=
  { d with filename := d.filename.or (some filename) }

/-- A diagnostic found in a region, moved to the text around the region. -/
def translate (d : Diagnostic) (origin : Position) : Diagnostic :=
  { d with position := d.position.map (·.translate origin) }

/-- The diagnostic as one line of text. -/
def render (d : Diagnostic) : String :=
  let file := match d.filename with
    | some name => name ++ ":"
    | none => ""
  let place := match d.position with
    | some p => p.render ++ ": "
    | none => if d.filename.isSome then " " else ""
  file ++ place ++ d.severity.name ++ ": " ++ d.message

end Diagnostic

end WidgetLint.Check
