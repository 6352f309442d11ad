import FluentBuilder.Builder.Spec

/-!
The declaration of a builder: its slots, a setter for each slot, an initialiser without
arguments, and `build`, which hands the slots to the initialiser of the record.
-/

namespace FluentBuilder.BuilderSpec

/-- The visibilities of a record whose builder is public. -/
def publicVisibilities : List String := ["public", "open"]

/-- The layout of a builder: the spaces of one level, the modifier in front of its parts, and its
name. -/
structure Layout where
  pad : String
  access : String
  name : String

def layout (spec : BuilderSpec) (indentWidth : Nat) (name : String) : Layout where
  pad := String.ofList (List.replicate indentWidth ' ')
  access := match spec.visibility with
    | some visibility => if publicVisibilities.contains visibility then "public " else ""
    | none => ""
  name := name

def slotLine (layout : Layout) (slot : Slot) : String :=
  layout.pad ++ layout.access ++ "var " ++ slot.name ++ ": " ++ slot.type.render ++ " = " ++
    slot.default

/-- The lines of the setter of a slot, with an empty one after it. -/
def setterLines (layout : Layout) (slot : Slot) : List String :=
  let pad := layout.pad
  [pad ++ layout.access ++ "func " ++ slot.name ++ "(_ " ++ slot.name ++ ": " ++
      slot.type.render ++ ") -> Self \x7b",
    pad ++ pad ++ "var copy = self",
    pad ++ pad ++ "copy." ++ slot.name ++ " = " ++ slot.name,
    pad ++ pad ++ "return copy",
    pad ++ "\x7d",
    ""]

/-- The lines of the labelled arguments of `build`, with commas between them. -/
def argumentLines (layout : Layout) : List Slot → List String
  | [] => []
  | [slot] => [layout.pad ++ layout.pad ++ layout.pad ++ slot.name ++ ": " ++ slot.name]
  | slot :: rest =>
    (layout.pad ++ layout.pad ++ layout.pad ++ slot.name ++ ": " ++ slot.name ++ ",") ::
      argumentLines layout rest

def buildLines (layout : Layout) (recordName : String) (slots : List Slot) : List String :=
  let pad := layout.pad ++ layout.pad
  if slots.isEmpty then [pad ++ recordName ++ "()"]
  else (pad ++ recordName ++ "(") :: argumentLines layout slots ++ [pad ++ ")"]

def lines (spec : BuilderSpec) (indentWidth : Nat) (name : String) : List String :=
  let layout := spec.layout indentWidth name
  [layout.access ++ "struct " ++ name ++ " \x7b"] ++
    spec.slots.map (slotLine layout) ++
    (if spec.slots.isEmpty then [] else [""]) ++
    spec.slots.flatMap (setterLines layout) ++
    [layout.pad ++ layout.access ++ "init() \x7b\x7d", "",
      layout.pad ++ layout.access ++ "func build() -> " ++ spec.recordName ++ " \x7b"] ++
    buildLines layout spec.recordName spec.slots ++
    [layout.pad ++ "\x7d", "\x7d"]

def render (spec : BuilderSpec) (indentWidth : Nat) (name : String) : String :=
  "\n".intercalate (spec.lines indentWidth name)

end FluentBuilder.BuilderSpec
