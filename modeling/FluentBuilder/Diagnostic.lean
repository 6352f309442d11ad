import FluentBuilder.Default.Missing
import FluentBuilder.Location

/-!
What is reported about a declaration.
-/

namespace FluentBuilder

/-- What a report is about. -/
inductive Diagnostic.Kind where
  | requiresStruct
  | unsupportedType
  | cyclicDefault
deriving Repr, DecidableEq, Inhabited

def Diagnostic.Kind.name : Kind → String
  | .requiresStruct => "requires-struct"
  | .unsupportedType => "unsupported-type"
  | .cyclicDefault => "cyclic-default"

def Diagnostic.Kind.ofName? (name : String) : Option Kind :=
  [Kind.requiresStruct, .unsupportedType, .cyclicDefault].find? fun kind => kind.name == name

inductive Severity where
  | error
  | warning
deriving Repr, DecidableEq, Inhabited

def Severity.name : Severity → String
  | .error => "error"
  | .warning => "warning"

def Severity.ofName? (name : String) : Option Severity :=
  [Severity.error, .warning].find? fun severity => severity.name == name

/-- A report on a declaration. -/
structure Diagnostic where
  kind : Diagnostic.Kind
  message : String
  location : Option Location := none
  severity : Severity := .error
deriving Repr

namespace Diagnostic

/-- Where and how gravely, and what is reported. -/
def render (report : Diagnostic) : String :=
  let place := match report.location with
    | some location => location.render ++ ": "
    | none => ""
  place ++ report.severity.name ++ ": " ++ report.message

def identifier (report : Diagnostic) : String := "AddBuilder." ++ report.kind.name

def requiresStruct (location : Option Location) : Diagnostic where
  kind := .requiresStruct
  message := "'AddBuilder' macro can only be applied to struct."
  location := location

def unsupportedType (recordName : String) (error : NoDefault) (location : Option Location) :
    Diagnostic where
  kind := .unsupportedType
  message := "Cannot generate builder for '" ++ recordName ++ "': " ++ error.message
  location := location

/-- The defaults of a record lead back to it through the records of a cycle, of which `first` is
the first. -/
def cyclicDefault (recordName first : String) (rest : List String) (location : Option Location) :
    Diagnostic where
  kind := .cyclicDefault
  message := "Builder defaults of '" ++ recordName ++ "' recurse through " ++
    " -> ".intercalate (first :: rest ++ [first])
  location := location

end Diagnostic

end FluentBuilder
