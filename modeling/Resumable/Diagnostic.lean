import Resumable.Datum
import Resumable.Source.Span
import Resumable.Text.Template

/-!
# Diagnostics

What the lowering reports about the program it is given. A diagnostic never stops the
lowering: the construct it names is dropped or passed on as it stands.
-/

namespace Resumable

inductive Severity where
  | warning
  | error
  | suggestion
  | message
  deriving DecidableEq, Repr, Inhabited

namespace Severity

def name : Severity → String
  | .warning => "Warning"
  | .error => "Error"
  | .suggestion => "Suggestion"
  | .message => "Message"

def all : List Severity := [.warning, .error, .suggestion, .message]

/-- The severity with exactly this name. -/
def ofName? (name : String) : Option Severity := all.find? fun severity => severity.name = name

/-- Reads a stored severity: its name, or a record of one null field with that name. -/
def ofDatum? : Datum → Option Severity
  | .text name => ofName? name
  | .record [(name, .null)] => ofName? name
  | _ => none

theorem ofName?_name (severity : Severity) : ofName? severity.name = some severity := by
  cases severity <;> decide +kernel

end Severity

/-- A kind of diagnostic: its number, its severity and the template of its text. -/
structure Notice where
  code : Nat
  severity : Severity
  template : String
  deriving DecidableEq, Repr

namespace Notice

/-- A parameter of a lowered function lost its default value. -/
def parameterDefault : Notice where
  code := 9001
  severity := .error
  template :=
    "Default value for parameter '\x7b0\x7d' is not supported when lowering a generator function."

/-- A delegating yield has nothing to delegate to. -/
def missingDelegate : Notice where
  code := 9002
  severity := .error
  template := "'yield*' requires an operand."

def all : List Notice := [parameterDefault, missingDelegate]

/-- The template of the notice with this number. -/
def template? (code : Nat) : Option String :=
  (all.find? fun notice => notice.code = code).map template

end Notice

/-- A report against `length` bytes of `file` from `start` on. -/
structure Diagnostic where
  severity : Severity
  code : Nat
  file : String
  start : Nat
  length : Nat
  text : String
  deriving DecidableEq, Repr

namespace Diagnostic

/-- An error with a text of its own. -/
def error (file : String) (start length : Nat) (text : String) (code : Nat) : Diagnostic :=
  ⟨.error, code, file, start, length, text⟩

/-- A notice with its placeholders filled in. -/
def ofNotice (file : String) (start length : Nat) (notice : Notice) (arguments : List String) :
    Diagnostic :=
  ⟨notice.severity, notice.code, file, start, length, Text.fill notice.template arguments⟩

/-- The fields of a stored diagnostic, in the order in which a list gives them. -/
def fieldNames : List String := ["category", "code", "file", "start", "length", "message_text"]

/-- Reads a stored diagnostic: every field has to be there, others are ignored. -/
def ofDatum? (datum : Datum) : Option Diagnostic := do
  let fields ← datum.fields? fieldNames
  return {
    severity := ← Datum.required fields "category" Severity.ofDatum?
    code := ← Datum.required fields "code" (·.asWord?)
    file := ← Datum.required fields "file" (·.asText?)
    start := ← Datum.required fields "start" (·.asWord?)
    length := ← Datum.required fields "length" (·.asWord?)
    text := ← Datum.required fields "message_text" (·.asText?) }

end Diagnostic

end Resumable
