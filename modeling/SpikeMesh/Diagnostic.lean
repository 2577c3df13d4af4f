import SpikeMesh.Text.Hex

set_option autoImplicit false

/-! # Diagnostics

Findings that do not stop a compilation, each with a severity, a code and a message, and their
rendering for a terminal. -/

namespace SpikeMesh

/-- How grave a diagnostic is. -/
inductive Severity
  | note
  | warning
  | error
deriving DecidableEq, Repr

namespace Severity

/-- The rank of a severity: notes come first, errors last. -/
def rank : Severity → Nat
  | note => 0
  | warning => 1
  | error => 2

instance : Ord Severity := ⟨compareOn rank⟩

/-- The severity in reports. -/
def description : Severity → String
  | note => "note"
  | warning => "warning"
  | error => "error"

/-- The number of the terminal colour of a severity. -/
def colour : Severity → String
  | note => "36"
  | warning => "33"
  | error => "31"

end Severity

/-- The family of a diagnostic code. -/
inductive Category
  | error
  | warning
  | note
deriving DecidableEq, Repr

/-- The letter before the numbers of a family. -/
def Category.letter : Category → Char
  | error => 'E'
  | warning => 'W'
  | note => 'N'

/-- The code of a kind of diagnostic. Numbers from 101 belong to run settings, from 201 to the
    stages of a compilation, from 301 to routing tables. -/
structure DiagnosticCode where
  category : Category
  number : UInt16
deriving DecidableEq, Repr

namespace DiagnosticCode

/-- The letter of the family and at least three digits. -/
def text (code : DiagnosticCode) : String :=
  String.singleton code.category.letter ++ Text.paddedDigits 3 code.number.toNat

/-- A run without an end was asked for. -/
def unboundedRun : DiagnosticCode := ⟨.warning, 101⟩

/-- Connections between slices that exchange nothing were removed. -/
def connectionsPruned : DiagnosticCode := ⟨.note, 201⟩

/-- A unit was split into several slices. -/
def unitSplit : DiagnosticCode := ⟨.note, 202⟩

/-- A virtual chip was attached to the fabric. -/
def virtualChipAdded : DiagnosticCode := ⟨.note, 203⟩

/-- A routing table is nearly full. -/
def tableNearCapacity : DiagnosticCode := ⟨.warning, 301⟩

end DiagnosticCode

/-- A finding about a unit, a chip or the whole run. -/
structure Diagnostic where
  severity : Severity
  code : DiagnosticCode
  message : String
  /-- What the finding is about. -/
  subject : Option String
  notes : List String
  help : List String
deriving DecidableEq, Repr

namespace Diagnostic

/-- A note without further lines. -/
def note (code : DiagnosticCode) (message : String) (subject : Option String) : Diagnostic :=
  ⟨.note, code, message, subject, [], []⟩

/-- The severity and code of a diagnostic, in the colour of the severity if asked for. -/
def head (d : Diagnostic) (inColour : Bool) : String :=
  let plain := d.severity.description ++ "[" ++ d.code.text ++ "]"
  if inColour then "\x1b[1;" ++ d.severity.colour ++ "m" ++ plain ++ "\x1b[0m" else plain

/-- The lines of a diagnostic: the message, then the subject, the notes and the help. -/
def render (d : Diagnostic) (inColour : Bool) : String :=
  d.head inColour ++ ": " ++ d.message ++ "\n"
    ++ (match d.subject with
      | some subject => "  --> " ++ subject ++ "\n"
      | none => "")
    ++ String.join (d.notes.map fun note => "   = note: " ++ note ++ "\n")
    ++ String.join (d.help.map fun help => "   = help: " ++ help ++ "\n")

end Diagnostic

/-- Diagnostics that wait to be taken, and the number of errors among all that were ever
    emitted. -/
structure DiagnosticSink where
  pending : List Diagnostic
  errorCount : Nat

namespace DiagnosticSink

/-- A sink into which nothing was emitted. -/
def empty : DiagnosticSink := ⟨[], 0⟩

/-- The sink with one more diagnostic. -/
def emit (sink : DiagnosticSink) (d : Diagnostic) : DiagnosticSink :=
  ⟨sink.pending ++ [d], if d.severity = .error then sink.errorCount + 1 else sink.errorCount⟩

/-- The sink after its diagnostics were taken. -/
def taken (sink : DiagnosticSink) : DiagnosticSink := { sink with pending := [] }

/-- Whether an error was ever emitted. -/
def hasErrors (sink : DiagnosticSink) : Bool := 0 < sink.errorCount

end DiagnosticSink

end SpikeMesh
