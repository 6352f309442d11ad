import FluentBuilder.Settings
import FluentBuilder.TypeExpr.Printer

/-!
The rules by which a named type gets its default: tables of standard types, which settings
extend, and a builder of its own for any other type. Tables go by the last segment of a name.
-/

namespace FluentBuilder

/-! ### Tables -/

namespace Default

/-- Standard types that are made without arguments. -/
def zeroConstructible : List String :=
  ["Bool", "Int", "Int8", "Int16", "Int32", "Int64", "UInt", "UInt8", "UInt16", "UInt32",
    "UInt64", "Float", "Float16", "Float32", "Float64", "Float80", "Double", "Decimal",
    "NSNumber", "CGFloat", "CGSize", "CGPoint", "CGRect", "String", "NSString", "Substring",
    "Data", "NSData", "TimeInterval", "Set", "NSSet", "Array", "NSArray", "Dictionary",
    "NSDictionary"]

/-- Standard types whose default is an expression of their own. -/
def literals : List (String × String) :=
  [("Duration", ".zero"),
    ("Character", "\"/\""),
    ("Date", "Date(timeIntervalSince1970: 0)"),
    ("UUID", "UUID(uuidString: \"00000000-0000-0000-0000-000000000000\")!"),
    ("URL", "URL(string: \"/\")!"),
    ("Void", "()")]

def rangeOperators : List (String × String) := [("Range", "..<"), ("ClosedRange", "...")]

/-- Types of which no value can be made. -/
def neverBuilt : List String := ["Any", "AnyObject", "Never", "Self"]

end Default

/-! ### Rules -/

/-- What the default of a named type is. -/
inductive NominalRule where
  /-- None: the name stands for a generic parameter. -/
  | placeholder
  /-- None: there are no values to choose from. -/
  | neverBuilt
  /-- An expression from a table. -/
  | literal (expression : String)
  /-- The type made without arguments. -/
  | zeroConstructed
  /-- The range from a default of the first argument to the same default. -/
  | range (operator : String)
  /-- The default of the first argument. -/
  | success
  /-- The default of the first argument, or `nil`. -/
  | optional
  /-- What the type's own builder builds. -/
  | delegated
deriving Repr, DecidableEq

/-- The tables that defaults are looked up in. -/
structure DefaultRules where
  builderName : String
  zeroConstructible : List String
  literals : List (String × String)
  placeholders : List String
deriving Repr

namespace DefaultRules

/-- The rules for a record with the given generic parameters. Configured expressions go before
those of the standard types. -/
def ofSettings (settings : Settings) (placeholders : List String) : DefaultRules where
  builderName := settings.builderName
  zeroConstructible := Default.zeroConstructible ++ settings.zeroConstructible
  literals := settings.literalDefaults ++ Default.literals
  placeholders := placeholders

/-- The rule for a name with or without generic arguments. The first that applies counts. -/
def ruleFor (rules : DefaultRules) (name : String) (hasArguments : Bool) : NominalRule :=
  let segment := TypeExpr.lastSegment name
  if rules.placeholders.contains name && !hasArguments then .placeholder
  else if Default.neverBuilt.contains segment then .neverBuilt
  else
    match rules.literals.lookup segment with
    | some expression => .literal expression
    | none =>
      if rules.zeroConstructible.contains segment then .zeroConstructed
      else
        match Default.rangeOperators.lookup segment with
        | some operator => .range operator
        | none =>
          if segment == "Result" then .success
          else if segment == "Optional" then .optional
          else .delegated

end DefaultRules

end FluentBuilder
