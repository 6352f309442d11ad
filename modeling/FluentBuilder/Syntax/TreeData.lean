import FluentBuilder.Data.Value
import FluentBuilder.Syntax.Tree

/-!
Syntax trees as data: a node is an object with its kind under `t`, its offsets under `s` and `e`,
and, where they differ from the usual, its role under `f`, marks under `u` and `m` that it is not
named or missing, and its children under `c`.
-/

namespace FluentBuilder.Syntax.Node

def sizeOfData? : Option Data → Option Nat
  | some (.integer n) => if n < 0 then none else some n.toNat
  | _ => none

def textOfData? : Option Data → Option String
  | some (.text value) => some value
  | _ => none

def isSet : Option Data → Bool
  | some (.integer n) => n != 0
  | some (.bool value) => value
  | _ => false

/-- The node of the entries of an object and of its children. -/
def ofEntries? (entries : List (String × Data)) (children : List Node) : Option Node := do
  let kind ← textOfData? (entries.lookup "t")
  let start ← sizeOfData? (entries.lookup "s")
  let stop ← sizeOfData? (entries.lookup "e")
  return { kind, start, stop, role := textOfData? (entries.lookup "f")
           isNamed := !isSet (entries.lookup "u"), isMissing := isSet (entries.lookup "m")
           children }

mutual

/-- The node that data stand for. -/
def ofData? : Data → Option Node
  | .object entries => do
    let children ← childrenOf? entries
    ofEntries? entries children
  | _ => none

def childrenOf? : List (String × Data) → Option (List Node)
  | [] => some []
  | (key, value) :: rest =>
    if key == "c" then listOf? value else childrenOf? rest

def listOf? : Data → Option (List Node)
  | .list items => nodesOf? items
  | _ => none

def nodesOf? : List Data → Option (List Node)
  | [] => some []
  | item :: rest => do
    let node ← ofData? item
    let nodes ← nodesOf? rest
    return node :: nodes

end

end FluentBuilder.Syntax.Node
