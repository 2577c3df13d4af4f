import SpikeMesh.Datum.Decode
import SpikeMesh.Diagnostic

set_option autoImplicit false

/-! # Diagnostics as data

Severities and families are written by their capitalised names. -/

namespace SpikeMesh

namespace Severity

/-- The severity as data. -/
def text : Severity → String
  | note => "Note"
  | warning => "Warning"
  | error => "Error"

def toDatum (s : Severity) : Datum := .text s.text

def ofDatum? (d : Datum) : Option Severity := d.toEnum? text [note, warning, error]

end Severity

namespace Category

/-- The family as data. -/
def text : Category → String
  | error => "Error"
  | warning => "Warning"
  | note => "Note"

def toDatum (c : Category) : Datum := .text c.text

def ofDatum? (d : Datum) : Option Category := d.toEnum? text [error, warning, note]

end Category

namespace DiagnosticCode

def toDatum (c : DiagnosticCode) : Datum := .table [
  ("category", c.category.toDatum),
  ("number", .natural c.number.toNat)]

def ofDatum? (d : Datum) : Option DiagnosticCode := do
  let f ← d.toFields? ["category", "number"]
  return {
    category := ← f.required "category" Category.ofDatum?
    number := ← f.required "number" Datum.toUInt16? }

end DiagnosticCode

namespace Diagnostic

def toDatum (d : Diagnostic) : Datum := .table [
  ("severity", d.severity.toDatum),
  ("code", d.code.toDatum),
  ("message", .text d.message),
  ("subject", .ofOption .text d.subject),
  ("notes", .ofList .text d.notes),
  ("help", .ofList .text d.help)]

def ofDatum? (d : Datum) : Option Diagnostic := do
  let f ← d.toFields? ["severity", "code", "message", "subject", "notes", "help"]
  return {
    severity := ← f.required "severity" Severity.ofDatum?
    code := ← f.required "code" DiagnosticCode.ofDatum?
    message := ← f.required "message" Datum.toText?
    subject := ← f.optional "subject" Datum.toText?
    notes := ← f.required "notes" (Datum.toList? Datum.toText?)
    help := ← f.required "help" (Datum.toList? Datum.toText?) }

end Diagnostic

end SpikeMesh
