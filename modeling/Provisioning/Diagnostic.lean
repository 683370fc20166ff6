/-!
# Diagnostics

What the host is told about the processed declarations, and the log that keeps it.
-/

namespace Provisioning

inductive Severity
  | error
  | warning
  | mandatoryWarning
  | note
  deriving DecidableEq, Repr

def Severity.text : Severity → String
  | .error => "error"
  | .warning => "warning"
  | .mandatoryWarning => "mandatory warning"
  | .note => "note"

def Severity.isWarning : Severity → Bool
  | .warning => true
  | .mandatoryWarning => true
  | _ => false

structure Diagnostic where
  severity : Severity
  message : String
  element : Option String
  deriving DecidableEq, Repr

namespace Diagnostic

def display (d : Diagnostic) : String :=
  match d.element with
  | some element => d.severity.text ++ ": " ++ element ++ ": " ++ d.message
  | none => d.severity.text ++ ": " ++ d.message

def error (message : String) (element : Option String) : Diagnostic := ⟨.error, message, element⟩

def warning (message : String) (element : Option String) : Diagnostic :=
  ⟨.mandatoryWarning, message, element⟩

end Diagnostic

abbrev Log := List Diagnostic

namespace Log

def errors (log : Log) : List Diagnostic := log.filter fun d => d.severity = .error

def warnings (log : Log) : List Diagnostic := log.filter fun d => d.severity.isWarning

def hasErrors (log : Log) : Bool := log.any fun d => d.severity = .error

end Log

end Provisioning
