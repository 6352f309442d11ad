import FluentBuilder.Data.Value
import FluentBuilder.Decimal.Shortest
import FluentBuilder.Text.Quoted

/-!
The text that data stands for where a name is wanted: a text is itself, everything else is
written out, with texts inside lists and objects quoted.
-/

namespace FluentBuilder.Data

mutual

/-- The value written out. -/
def written : Data → String
  | .null => "None"
  | .bool true => "True"
  | .bool false => "False"
  | .integer value => toString value
  | .real value => value.shortest
  | .text value => Text.quoted value
  | .list items => "[" ++ ", ".intercalate (writtenItems items) ++ "]"
  | .object entries => "\x7b" ++ ", ".intercalate (writtenEntries entries) ++ "\x7d"

def writtenItems : List Data → List String
  | [] => []
  | item :: rest => written item :: writtenItems rest

def writtenEntries : List (String × Data) → List String
  | [] => []
  | (key, value) :: rest => (Text.quoted key ++ ": " ++ written value) :: writtenEntries rest

end

def asName : Data → String
  | .text value => value
  | other => written other

end FluentBuilder.Data
