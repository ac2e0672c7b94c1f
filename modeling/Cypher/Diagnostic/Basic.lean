import Cypher.Text.Span
import Cypher.Diagnostic.Code

/-!
# Diagnostics

A diagnostic says what is wrong (a message and a code), where (labelled spans, one of them usually
primary), how bad it is, and what could be done about it (a help line and notes). Diagnostics are
built up from `Cypher.Diagnostic.error` or `Cypher.Diagnostic.warning` part by part, and collected
in a `Cypher.Log` in the order in which they arise.
-/

namespace Cypher

/-- How bad a problem is. -/
inductive Severity
  /-- The text is rejected. -/
  | error
  /-- The text is accepted. -/
  | warning
deriving DecidableEq, Repr

/-- The word for a severity. -/
def Severity.text : Severity → String
  | .error => "error"
  | .warning => "warning"

/-- Whether a label marks the place itself or a place that helps to understand it. -/
inductive Role
  | primary
  | secondary
deriving DecidableEq, Repr

/-- A remark on a stretch of the source. -/
structure Label where
  /-- Which part the stretch plays. -/
  role : Role
  /-- The stretch. -/
  span : Span
  /-- The remark. -/
  message : String
deriving DecidableEq, Repr

/-- **A diagnostic.** -/
structure Diagnostic where
  /-- How bad it is. -/
  severity : Severity
  /-- What is wrong. -/
  message : String
  /-- Where it is wrong. -/
  labels : List Label
  /-- What to do about it. -/
  help : Option String
  /-- What else to know. -/
  notes : List String
  /-- What kind of problem it is. -/
  code : Option Code
deriving DecidableEq, Repr

namespace Diagnostic

/-! ### Building -/

/-- A diagnostic that says nothing but its message. -/
def plain (severity : Severity) (message : String) : Diagnostic :=
  ⟨severity, message, [], none, [], none⟩

/-- An error with a message only. -/
def error (message : String) : Diagnostic := plain .error message

/-- A warning with a message only. -/
def warning (message : String) : Diagnostic := plain .warning message

/-- Adds a label behind those there are. -/
def label (d : Diagnostic) (l : Label) : Diagnostic := { d with labels := d.labels ++ [l] }

/-- Adds a primary label. -/
def primary (d : Diagnostic) (span : Span) (message : String) : Diagnostic :=
  d.label ⟨.primary, span, message⟩

/-- Adds a secondary label. -/
def secondary (d : Diagnostic) (span : Span) (message : String) : Diagnostic :=
  d.label ⟨.secondary, span, message⟩

/-- Sets the help line. -/
def helped (d : Diagnostic) (help : String) : Diagnostic := { d with help := some help }

/-- Adds a note behind those there are. -/
def noted (d : Diagnostic) (note : String) : Diagnostic := { d with notes := d.notes ++ [note] }

/-- Sets the code. -/
def coded (d : Diagnostic) (code : Code) : Diagnostic := { d with code := some code }

@[simp] theorem code_primary (d : Diagnostic) (span : Span) (message : String) :
    (d.primary span message).code = d.code := rfl

@[simp] theorem code_secondary (d : Diagnostic) (span : Span) (message : String) :
    (d.secondary span message).code = d.code := rfl

@[simp] theorem code_helped (d : Diagnostic) (help : String) : (d.helped help).code = d.code := rfl

@[simp] theorem code_noted (d : Diagnostic) (note : String) : (d.noted note).code = d.code := rfl

@[simp] theorem code_coded (d : Diagnostic) (code : Code) : (d.coded code).code = some code := rfl

/-! ### Reading -/

/-- The stage that reports a diagnostic, if it has a code. -/
def family? (d : Diagnostic) : Option Family := d.code.map Code.family

/-- The place a diagnostic is about: its first primary label, for want of one its first label, and
for want of any the start of the text. -/
def span (d : Diagnostic) : Span :=
  (((d.labels.find? fun l => l.role = .primary).or d.labels.head?).map Label.span).getD ⟨0, 0⟩

/-- Whether a diagnostic rejects the text. -/
def isError (d : Diagnostic) : Bool := d.severity = .error

/-- A diagnostic on one line. -/
def line (d : Diagnostic) : String :=
  match d.code with
  | some code => d.severity.text ++ "[" ++ code.text ++ "]: " ++ d.message
  | none => d.severity.text ++ ": " ++ d.message

end Diagnostic

/-! ### Collecting -/

/-- **Diagnostics in the order in which they arose.** -/
structure Log where
  /-- The diagnostics, the earliest first. -/
  entries : List Diagnostic
deriving DecidableEq, Repr

namespace Log

/-- The log without entries. -/
def empty : Log := ⟨[]⟩

/-- Adds one diagnostic behind those there are. -/
def push (log : Log) (d : Diagnostic) : Log := ⟨log.entries ++ [d]⟩

/-- Adds diagnostics behind those there are. -/
def extend (log : Log) (ds : List Diagnostic) : Log := ⟨log.entries ++ ds⟩

/-- The number of diagnostics. -/
def size (log : Log) : Nat := log.entries.length

/-- Whether there are no diagnostics. -/
def isEmpty (log : Log) : Bool := log.entries.isEmpty

/-- Whether one of the diagnostics is an error. -/
def hasErrors (log : Log) : Bool := log.entries.any Diagnostic.isError

/-- The diagnostics with a given code. -/
def withCode (log : Log) (code : Code) : List Diagnostic :=
  log.entries.filter fun d => d.code = some code

/-- The number of diagnostics with a given code. -/
def count (log : Log) (code : Code) : Nat := (log.withCode code).length

theorem entries_push (log : Log) (d : Diagnostic) : (log.push d).entries = log.entries ++ [d] :=
  rfl

theorem entries_extend (log : Log) (ds : List Diagnostic) :
    (log.extend ds).entries = log.entries ++ ds := rfl

end Log

end Cypher
