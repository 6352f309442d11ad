import FluentBuilder.Decimal.Basic

/-!
Data of unknown shape: what a configuration file holds before it is checked. The entries of an
object keep the order in which they were written.
-/

namespace FluentBuilder

/-- A value of unknown shape. -/
inductive Data where
  | null
  | bool (value : Bool)
  | integer (value : Int)
  | real (value : Decimal)
  | text (value : String)
  | list (items : List Data)
  | object (entries : List (String × Data))
deriving Repr, Inhabited

namespace Data

def get? (key : String) : Data → Option Data
  | .object entries => entries.lookup key
  | _ => none

/-- Entries with the value of a key put in: a key that is already there keeps its place. -/
def insert (entries : List (String × Data)) (key : String) (value : Data) :
    List (String × Data) :=
  if entries.any (·.1 == key) then
    entries.map fun entry => if entry.1 == key then (key, value) else entry
  else entries ++ [(key, value)]

end Data

end FluentBuilder
