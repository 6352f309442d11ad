import FluentBuilder.Data.Printer
import FluentBuilder.Decimal.Integer

/-!
What can be configured: the attributes that ask for a builder or give a default, the name and the
indentation of the builder, further types with a default, and whether cycles are looked for.
Settings are read from data of unknown shape, which is converted where its meaning is plain.
-/

namespace FluentBuilder

structure Settings where
  /-- The attributes that ask for a builder of a type. -/
  builderAttributes : List String := ["AddBuilder"]
  /-- The attributes that give the default of a field. -/
  defaultAttributes : List String := ["Builder", "AddBuilder"]
  /-- The name of the builder type. -/
  builderName : String := "Builder"
  /-- The spaces of one level of indentation, at least one. -/
  indentWidth : Nat := 4
  /-- Further types whose default is made without arguments. -/
  zeroConstructible : List String := []
  /-- Further types with their default expressions. -/
  literalDefaults : List (String × String) := []
  /-- Whether builders that would make each other forever are rejected. -/
  detectCycles : Bool := true
deriving Repr, DecidableEq, Inhabited

namespace Settings

/-! ### What can be wrong -/

/-- A step on the way to a wrong value. -/
inductive Step where
  | key (name : String)
  | index (position : Nat)
deriving Repr, DecidableEq

/-- What is wrong with a value. -/
inductive Cause where
  | notText
  | notList
  | notObject
  | notInteger
  | unreadableInteger
  | oversizedInteger
  | fractionalInteger
  | infiniteInteger
  | notBoolean
  | unreadableBoolean
  | notIdentifier (name : String)
  | indentTooSmall
deriving Repr, DecidableEq

def Cause.code : Cause → String
  | .notText => "string_type"
  | .notList => "list_type"
  | .notObject => "dict_type"
  | .notInteger => "int_type"
  | .unreadableInteger => "int_parsing"
  | .oversizedInteger => "int_parsing_size"
  | .fractionalInteger => "int_from_float"
  | .infiniteInteger => "finite_number"
  | .notBoolean => "bool_type"
  | .unreadableBoolean => "bool_parsing"
  | .notIdentifier _ => "value_error"
  | .indentTooSmall => "value_error"

/-- The wording of a cause, for the causes that are no mere matter of shape. -/
def Cause.message? : Cause → Option String
  | .notIdentifier name =>
    some ("Value error, builder_name must be an identifier, got " ++ Text.quoted name)
  | .indentTooSmall => some "Value error, indent_width must be at least 1"
  | _ => none

structure Problem where
  path : List Step
  cause : Cause
deriving Repr, DecidableEq

/-- Why data are no settings. -/
inductive Error where
  /-- Attributes are given by something that has no items. -/
  | notIterable
  /-- Some values are wrong. -/
  | invalid (problems : List Problem)
deriving Repr, DecidableEq

/-! ### Reading single values -/

abbrev Checked (α : Type) := Except (List Problem) α

/-- A value that is wrong as a whole. -/
def wrong {α : Type} (key : String) (cause : Cause) : Checked α := .error [⟨[.key key], cause⟩]

/-- The name of an attribute, without the `@`s in front of it and blanks around it. -/
def attributeName (name : String) : String :=
  String.ofList (Text.trim (name.toList.dropWhile (· == '@')))

/-- The items that data have as a row: none if nothing is given, the characters of a text, the
keys of an object. -/
def rowOf? : Data → Option (List String)
  | .null => some []
  | .bool value => if value then none else some []
  | .integer value => if value == 0 then some [] else none
  | .real value => if value.toBinary == .finite 0 Decimal.Binary.minExponent then some [] else none
  | .text value => some (value.toList.map fun c => String.ofList [c])
  | .list items => some (items.map Data.asName)
  | .object entries => some (entries.map (·.1))

def readAttributes (data : Data) : Except Error (List String) :=
  match rowOf? data with
  | some row => .ok (row.map attributeName)
  | none => .error .notIterable

def readBuilderName (key : String) : Data → Checked String
  | .text name => if Text.isIdentifier name then .ok name else wrong key (.notIdentifier name)
  | _ => wrong key .notText

/-- The first size that a word of 64 bits with a sign does not hold. -/
def wordLimit : Nat := Nat.pow 2 63

/-- Whether an integer fits into a word of 64 bits with a sign. -/
def fitsWord : Int → Bool
  | .ofNat n => n < wordLimit
  | .negSucc n => n < wordLimit

/-- The integer that a number with a fraction stands for. It has to be less in size than the first
that no word holds. -/
def readReal (key : String) (value : Decimal) : Checked Int :=
  match value.toBinary with
  | .infinite => wrong key .infiniteInteger
  | size =>
    match size.toNat? with
    | some n =>
      if wordLimit ≤ n then wrong key .oversizedInteger
      else .ok (if value.negative then -n else n)
    | none => wrong key .fractionalInteger

def readInteger (key : String) : Data → Checked Int
  | .integer value => .ok value
  | .bool value => .ok (if value then 1 else 0)
  | .real value => readReal key value
  | .text value =>
    match Decimal.readInteger value.toList with
    | .ok n => .ok n
    | .error .malformed => wrong key .unreadableInteger
    | .error .tooLong => wrong key .oversizedInteger
  | _ => wrong key .notInteger

def readIndentWidth (key : String) (data : Data) : Checked Nat := do
  let width ← readInteger key data
  if width < 1 then wrong key .indentTooSmall else return width.toNat

/-- The problems of several readings, and their values if there are none. -/
def collect {α : Type} : List (Checked α) → Checked (List α)
  | [] => .ok []
  | first :: rest =>
    match first, collect rest with
    | .ok value, .ok values => .ok (value :: values)
    | .ok _, .error problems => .error problems
    | .error problems, .ok _ => .error problems
    | .error problems, .error more => .error (problems ++ more)

def readText (path : List Step) : Data → Checked String
  | .text value => .ok value
  | _ => .error [⟨path, .notText⟩]

def readTexts (key : String) : Data → Checked (List String)
  | .list items => collect (items.mapIdx fun i item => readText [.key key, .index i] item)
  | _ => wrong key .notList

def readTextEntries (key : String) : Data → Checked (List (String × String))
  | .object entries =>
    collect (entries.map fun entry =>
      (readText [.key key, .key entry.1] entry.2).map fun value => (entry.1, value))
  | _ => wrong key .notObject

/-- The truth value that a text stands for, in any case of its letters. -/
def readBooleanText? (text : String) : Option Bool :=
  let word := text.map Char.toLower
  if ["1", "t", "y", "on", "yes", "true"].contains word then some true
  else if ["0", "f", "n", "no", "off", "false"].contains word then some false
  else none

def truthOf (key : String) (n : Int) : Checked Bool :=
  if n == 0 then .ok false else if n == 1 then .ok true else wrong key .unreadableBoolean

/-- A truth value. Numbers that are no integers or fit into no word are none in the first place. -/
def readBoolean (key : String) : Data → Checked Bool
  | .bool value => .ok value
  | .integer value => if fitsWord value then truthOf key value else wrong key .notBoolean
  | .real value =>
    match readReal key value with
    | .ok n => truthOf key n
    | .error _ => wrong key .notBoolean
  | .text value =>
    match readBooleanText? value with
    | some truth => .ok truth
    | none => wrong key .unreadableBoolean
  | _ => wrong key .notBoolean

/-! ### Reading all -/

/-- The setting of a key, or its default if the entries do not have it. -/
def setting {α ε : Type} (entries : List (String × Data)) (key : String) (default : α)
    (read : Data → Except ε α) : Except ε α :=
  match entries.lookup key with
  | some data => read data
  | none => .ok default

def problemsOf {α : Type} : Checked α → List Problem
  | .ok _ => []
  | .error problems => problems

/-- The settings that the entries of an object give. Other keys do not count. Attributes that are
no row come before all other problems, which are listed together in the order of the
settings. -/
def ofEntries (entries : List (String × Data)) : Except Error Settings := do
  let standard : Settings := {}
  let builderAttributes ←
    setting entries "builder_attributes" standard.builderAttributes readAttributes
  let defaultAttributes ←
    setting entries "default_attributes" standard.defaultAttributes readAttributes
  let builderName :=
    setting entries "builder_name" standard.builderName (readBuilderName "builder_name")
  let indentWidth :=
    setting entries "indent_width" standard.indentWidth (readIndentWidth "indent_width")
  let zeroConstructible :=
    setting entries "zero_constructible" standard.zeroConstructible
      (readTexts "zero_constructible")
  let literalDefaults :=
    setting entries "literal_defaults" standard.literalDefaults
      (readTextEntries "literal_defaults")
  let detectCycles :=
    setting entries "detect_cycles" standard.detectCycles (readBoolean "detect_cycles")
  match builderName, indentWidth, zeroConstructible, literalDefaults, detectCycles with
  | .ok builderName, .ok indentWidth, .ok zeroConstructible, .ok literalDefaults,
      .ok detectCycles =>
    return { builderAttributes, defaultAttributes, builderName, indentWidth, zeroConstructible,
             literalDefaults, detectCycles }
  | _, _, _, _, _ =>
    .error <| .invalid <|
      problemsOf builderName ++ problemsOf indentWidth ++ problemsOf zeroConstructible ++
        problemsOf literalDefaults ++ problemsOf detectCycles

end Settings

end FluentBuilder
