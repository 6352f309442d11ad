import FluentBuilder.Builder.Printer
import FluentBuilder.Diagnostic

/-!
Answering a request for a builder: a declaration, a report, or nothing.
-/

namespace FluentBuilder

/-- What an attribute on a declaration asks for. -/
inductive RequestKind where
  /-- A builder of the declared type. -/
  | addBuilder
  /-- Nothing: it only carries a default. -/
  | builderDefault
deriving Repr, DecidableEq, Inhabited

def RequestKind.name : RequestKind → String
  | .addBuilder => "add-builder"
  | .builderDefault => "builder-default"

def RequestKind.ofName? (name : String) : Option RequestKind :=
  [RequestKind.addBuilder, .builderDefault].find? fun kind => kind.name == name

/-- A request for a builder, and where it is made. -/
structure Request where
  declaration : Declaration
  kind : RequestKind := .addBuilder
  location : Option Location := none

/-- The answer to a request. -/
inductive Expansion where
  /-- Nothing was asked for. -/
  | nothing
  /-- The text of a builder, and what it is made of. -/
  | generated (declaration : String) (spec : BuilderSpec)
  /-- Why there is no builder. -/
  | diagnosed (report : Diagnostic)

namespace Expansion

def declarations : Expansion → List String
  | .generated declaration _ => [declaration]
  | _ => []

def diagnostics : Expansion → List Diagnostic
  | .diagnosed report => [report]
  | _ => []

/-- What the generated builder is made of. -/
def spec? : Expansion → Option BuilderSpec
  | .generated _ spec => some spec
  | _ => none

def hasErrors (expansion : Expansion) : Bool :=
  expansion.diagnostics.any (·.severity == .error)

end Expansion

/-- The builder of a declaration, or the first of its fields without a default. -/
def Declaration.builder (declaration : Declaration) (settings : Settings) :
    Except NoDefault BuilderSpec :=
  let rules := DefaultRules.ofSettings settings declaration.genericParameters
  let (resolutions, delegates) := BuilderSpec.resolve rules declaration.fields
  BuilderSpec.ofResolutions declaration.name resolutions declaration.visibility delegates

/-- The answer to a request. Builders are for structs only. -/
def Request.expand (request : Request) (settings : Settings) : Except NoDefault Expansion :=
  match request.kind with
  | .builderDefault => .ok .nothing
  | .addBuilder =>
    if request.declaration.kind != "struct" then
      .ok (.diagnosed (.requiresStruct (request.location.or request.declaration.location)))
    else
      (request.declaration.builder settings).map fun spec =>
        .generated (spec.render settings.indentWidth settings.builderName) spec

end FluentBuilder
