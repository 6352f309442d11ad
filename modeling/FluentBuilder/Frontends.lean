import FluentBuilder.Path
import FluentBuilder.Text.LowerCase
import FluentBuilder.Text.Quoted

/-!
Readers of source texts by the suffixes of their files. Suffixes are compared in lower case.
-/

namespace FluentBuilder

/-- Readers of sources by file suffix. -/
structure Frontends (α : Type) where
  bySuffix : List (String × α) := []

/-- A file that no reader is registered for. -/
structure NoFrontend where
  path : Path
deriving Repr, DecidableEq

/-- The wording of a missing reader: it names the suffix, or the file if it has none. -/
def NoFrontend.message (error : NoFrontend) : String :=
  let suffix := Text.lowerText error.path.suffix
  "No parser registered for " ++
    Text.quoted (if suffix == "" then error.path.name else suffix) ++ " files"

namespace Frontends

variable {α : Type}

/-- The readers with one more for some suffixes, by default the name of its language. It takes
the place of earlier ones. -/
def register (frontends : Frontends α) (language : String) (suffixes : List String)
    (frontend : α) : Frontends α :=
  let suffixes := if suffixes.isEmpty then ["." ++ language] else suffixes
  { bySuffix := (suffixes.map fun suffix => (Text.lowerText suffix, frontend)) ++
      frontends.bySuffix }

def forPath (frontends : Frontends α) (path : Path) : Except NoFrontend α :=
  match frontends.bySuffix.lookup (Text.lowerText path.suffix) with
  | some frontend => .ok frontend
  | none => .error ⟨path⟩

end Frontends

end FluentBuilder
