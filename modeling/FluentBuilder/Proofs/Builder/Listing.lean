import FluentBuilder.Builder.Printer
import FluentBuilder.Proofs.Builder.Reading
import FluentBuilder.Proofs.Text.Trimming
import Mathlib.Tactic

/-!
# What the text of a builder lists

The text of a builder is read line by line, given no more than the width of its levels and its name.
A line is told by how far it is indented and by the words it starts with: whether it declares a slot
or a function, stands in the body of a setter, or gives an argument. Types, defaults and the name of
the record can be any text of one line, so they are only taken as what stands behind a mark that the
reader has already come to; where a type ends inside the line of a slot is never asked.

`render_listed`: from a rendered builder its record, its access, and for every slot one declaration,
one setter and one argument are read, in the order of the slots. The line of a setter gives the type
of a slot, and the declaration then its default, so two builders of one text agree in all of these.

The listing says nothing of the lines that open and close the call in `build`. This call is read as
code from the lines behind the head, block by block, and no other line than those of a builder is
taken.
-/

namespace FluentBuilder

/-! ### Lines -/

/-- What a line of a builder says. -/
inductive BuilderLine where
  /-- A slot, with its type and its default as one text. -/
  | slot (name value : List Char)
  /-- The head of a setter. -/
  | setter (name parameter type : List Char)
  | copy
  | assign (target value : List Char)
  | give
  | close
  /-- The head of `build`. -/
  | build (result : List Char)
  | argument (label value : List Char) (comma : Bool)
deriving Repr, DecidableEq

namespace BuilderLine

def word (text : List Char) : List Char := text.takeWhile Text.isIdentifierPart

def behindWord (text : List Char) : List Char := text.dropWhile Text.isIdentifierPart

def slot? (text : List Char) : Option BuilderLine := do
  let value ← (behindWord text).dropPrefix? ": ".toList
  return .slot (word text) value

def setter? (text : List Char) : Option BuilderLine := do
  let parameter ← (behindWord text).dropPrefix? "(_ ".toList
  let type ← (behindWord parameter).dropPrefix? ": ".toList
  let type ← type.dropSuffix? ") -> Self \x7b".toList
  return .setter (word text) (word parameter) type

/-- A function without parameters is `build`, one with a parameter is a setter. -/
def function? (text : List Char) : Option BuilderLine :=
  match (behindWord text).dropPrefix? "() -> ".toList with
  | some result =>
    if word text = "build".toList then (result.dropSuffix? " \x7b".toList).map .build else none
  | none => setter? text

/-- A line at the first level, behind its access. -/
def member? (text : List Char) : Option BuilderLine :=
  match text.dropPrefix? "var ".toList with
  | some declared => slot? declared
  | none => (text.dropPrefix? "func ".toList).bind function?

def argument? (text : List Char) : Option BuilderLine := do
  let value ← (behindWord text).dropPrefix? ": ".toList
  match value.dropSuffix? ",".toList with
  | some value => return .argument (word text) value true
  | none => return .argument (word text) value false

def statement? (text : List Char) : Option BuilderLine :=
  if text = "var copy = self".toList then some .copy
  else if text = "return copy".toList then some .give
  else do
    let assigned ← text.dropPrefix? "copy.".toList
    let value ← (behindWord assigned).dropPrefix? " = ".toList
    return .assign (word assigned) value

/-- A line in a body, behind two levels. Lines that end with a parenthesis open or close the call of
the initialiser of the record. -/
def inner? (pad text : List Char) : Option BuilderLine :=
  if text.getLast? = some '(' ∨ text.getLast? = some ')' then none
  else match text.dropPrefix? pad with
    | some labelled => argument? labelled
    | none => statement? text

/-- What a line says, if it is one of a member or in the body of one. -/
def read? (pad access line : List Char) : Option BuilderLine := do
  let text ← line.dropPrefix? pad
  match text.dropPrefix? pad with
  | some nested => inner? pad nested
  | none =>
    if text = "\x7d".toList then some .close else (text.dropPrefix? access).bind member?

/-! ### Words -/

variable {name : String}

/-- A name is the word that a text starts with, if a separator follows it. -/
theorem word_append (hname : Text.isIdentifier name = true) (separator : String)
    (hseparator : separator.toList.head?.any (!Text.isIdentifierPart ·) = true) (rest : List Char) :
    word (name.toList ++ (separator.toList ++ rest)) = name.toList ∧
      behindWord (name.toList ++ (separator.toList ++ rest)) = separator.toList ++ rest := by
  refine Text.span_append (CodeToken.isIdentifierPart_of_isIdentifier hname) ?_
  obtain ⟨c, hhead, hc⟩ := (Option.any_eq_true _ _).mp hseparator
  intro d hd
  rw [List.head?_append, hhead, Option.some_or, Option.mem_some_iff] at hd
  simpa [← hd] using hc

/-- A text that ends with a name ends with no parenthesis. -/
theorem getLast?_append_name (hname : Text.isIdentifier name = true) (text : List Char) :
    ¬((text ++ name.toList).getLast? = some '(' ∨ (text ++ name.toList).getLast? = some ')') := by
  have hne : name.toList ≠ [] := (CodeToken.parts_of_isIdentifier hname).1
  rw [List.getLast?_append, List.getLast?_eq_some_getLast hne, Option.some_or]
  have hlast := CodeToken.isIdentifierPart_of_isIdentifier hname _ (List.getLast_mem hne)
  rintro (h | h) <;>
    · rw [Option.some.inj h] at hlast
      exact absurd hlast (by decide)

/-! ### Fronts and ends -/

theorem dropPrefix?_append (front rest : List Char) : (front ++ rest).dropPrefix? front = some rest :=
  List.dropPrefix?_append_of_beq rest (beq_self_eq_true front)

theorem dropSuffix?_append (text ending : List Char) :
    (text ++ ending).dropSuffix? ending = some text :=
  List.dropSuffix?_eq_some_iff.mpr ⟨ending, rfl, beq_self_eq_true ending⟩

/-! ### Members -/

theorem member?_slot (hname : Text.isIdentifier name = true) (value : List Char) :
    member? ("var ".toList ++ (name.toList ++ (": ".toList ++ value))) =
      some (.slot name.toList value) := by
  obtain ⟨hword, hbehind⟩ := word_append hname ": " (by decide) value
  simp only [member?, dropPrefix?_append, slot?, hword, hbehind, bind, Option.bind_some, pure]

theorem member?_function (text : List Char) :
    member? ("func ".toList ++ text) = function? text := by
  have hvar : ("func ".toList ++ text).dropPrefix? "var ".toList = none := rfl
  simp only [member?, hvar, dropPrefix?_append, Option.bind_some]

theorem member?_setter (hname : Text.isIdentifier name = true) (type : List Char) :
    member? ("func ".toList ++ (name.toList ++ ("(_ ".toList ++ (name.toList ++ (": ".toList ++
        (type ++ ") -> Self \x7b".toList)))))) =
      some (.setter name.toList name.toList type) := by
  obtain ⟨hparameter, hcolon⟩ := word_append hname ": " (by decide)
    (type ++ ") -> Self \x7b".toList)
  obtain ⟨hword, hparenthesis⟩ := word_append hname "(_ " (by decide)
    (name.toList ++ (": ".toList ++ (type ++ ") -> Self \x7b".toList)))
  have hnullary (text : List Char) : ("(_ ".toList ++ text).dropPrefix? "() -> ".toList = none := rfl
  rw [member?_function]
  simp only [function?, hparenthesis, hnullary, setter?, hword, hparameter, hcolon,
    dropPrefix?_append, dropSuffix?_append, bind, Option.bind_some, pure]

theorem member?_build (result : List Char) :
    member? ("func build() -> ".toList ++ (result ++ " \x7b".toList)) = some (.build result) := by
  have hname : Text.isIdentifier "build" = true := by decide
  obtain ⟨hword, hparenthesis⟩ := word_append hname "() -> " (by decide)
    (result ++ " \x7b".toList)
  have hsplit : "func build() -> ".toList ++ (result ++ " \x7b".toList) =
      "func ".toList ++ ("build".toList ++ ("() -> ".toList ++ (result ++ " \x7b".toList))) := rfl
  rw [hsplit, member?_function]
  simp only [function?, hparenthesis, hword, dropPrefix?_append, if_true, dropSuffix?_append,
    Option.map_some]

/-! ### Levels -/

section

variable {pad access : List Char}

theorem dropPrefix?_pad (hpad : pad.head? = some ' ') {text : List Char}
    (htext : text.head? ≠ some ' ') : text.dropPrefix? pad = none := by
  obtain ⟨pad, rfl⟩ := List.head?_eq_some_iff.mp hpad
  cases text with
  | nil => rfl
  | cons c text =>
    have hc : c ≠ ' ' := by simpa using htext
    simp [List.dropPrefix?, hc]

theorem inner?_statement (hpad : pad.head? = some ' ') {text : List Char}
    (hends : ¬(text.getLast? = some '(' ∨ text.getLast? = some ')'))
    (htext : text.head? ≠ some ' ') : inner? pad text = statement? text := by
  rw [inner?, if_neg hends, dropPrefix?_pad hpad htext]

theorem inner?_assign (hname : Text.isIdentifier name = true) (hpad : pad.head? = some ' ') :
    inner? pad ("copy.".toList ++ (name.toList ++ (" = ".toList ++ name.toList))) =
      some (.assign name.toList name.toList) := by
  obtain ⟨hword, hbehind⟩ := word_append hname " = " (by decide) name.toList
  have hends := getLast?_append_name hname ("copy.".toList ++ (name.toList ++ " = ".toList))
  simp only [List.append_assoc] at hends
  have hother (text : List Char) : "copy.".toList ++ text ≠ "var copy = self".toList ∧
      "copy.".toList ++ text ≠ "return copy".toList :=
    ⟨fun h => absurd (congrArg List.head? h) (by simp), fun h =>
      absurd (congrArg List.head? h) (by simp)⟩
  rw [inner?_statement hpad hends (by simp), statement?, if_neg (hother _).1, if_neg (hother _).2]
  simp only [dropPrefix?_append, bind, Option.bind_some, hbehind, hword, pure]

theorem inner?_argument (hname : Text.isIdentifier name = true) (pad : List Char) :
    inner? pad (pad ++ (name.toList ++ (": ".toList ++ name.toList))) =
        some (.argument name.toList name.toList false) ∧
      inner? pad (pad ++ (name.toList ++ (": ".toList ++ (name.toList ++ ",".toList)))) =
        some (.argument name.toList name.toList true) := by
  have hends := getLast?_append_name hname (pad ++ (name.toList ++ ": ".toList))
  simp only [List.append_assoc] at hends
  -- the comma is told from the value by its being no part of a name
  have hcomma : name.toList.dropSuffix? ",".toList = none := by
    refine Option.eq_none_iff_forall_ne_some.mpr fun text hdrop => ?_
    obtain ⟨ending, hchars, hending⟩ := List.dropSuffix?_eq_some_iff.mp hdrop
    have hmem : ',' ∈ name.toList := by
      rw [hchars, beq_iff_eq.mp hending]
      exact List.mem_append_right text (List.mem_singleton_self ',')
    exact absurd (CodeToken.isIdentifierPart_of_isIdentifier hname _ hmem) (by decide)
  obtain ⟨hword, hbehind⟩ := word_append hname ": " (by decide) name.toList
  obtain ⟨hwordComma, hbehindComma⟩ := word_append hname ": " (by decide)
    (name.toList ++ ",".toList)
  constructor
  · rw [inner?, if_neg hends, dropPrefix?_append]
    simp only [argument?, hbehind, hword, dropPrefix?_append, bind, Option.bind_some, hcomma, pure]
  · rw [inner?, if_neg (by simp [List.getLast?_cons]), dropPrefix?_append]
    simp only [argument?, hbehindComma, hwordComma, dropPrefix?_append, bind, Option.bind_some,
      dropSuffix?_append, pure]

theorem read?_inner (pad access text : List Char) :
    read? pad access (pad ++ (pad ++ text)) = inner? pad text := by
  simp only [read?, dropPrefix?_append, bind, Option.bind_some]

theorem read?_close (hpad : pad.head? = some ' ') :
    read? pad access (pad ++ "\x7d".toList) = some .close := by
  have hbrace : "\x7d".toList.head? ≠ some ' ' := by decide
  simp only [read?, dropPrefix?_append, bind, Option.bind_some,
    dropPrefix?_pad hpad hbrace, if_true]

/-- The access in front of the members of a builder. -/
def accessText (isPublic : Bool) : String := if isPublic then "public " else ""

/-- A member stands at the first level, behind the access. -/
theorem read?_member (hpad : pad.head? = some ' ') (isPublic : Bool) {text : List Char}
    (htext : text.head? ≠ some ' ' ∧ text.head? ≠ some '\x7d') :
    read? pad (accessText isPublic).toList (pad ++ ((accessText isPublic).toList ++ text)) =
      member? text := by
  have hhead : ((accessText isPublic).toList ++ text).head? ≠ some ' ' ∧
      ((accessText isPublic).toList ++ text).head? ≠ some '\x7d' := by
    cases isPublic
    · exact htext
    · simp [accessText]
  have hclose : (accessText isPublic).toList ++ text ≠ "\x7d".toList := fun h =>
    hhead.2 (by rw [h]; rfl)
  simp only [read?, dropPrefix?_append, bind, Option.bind_some, dropPrefix?_pad hpad hhead.1,
    if_neg hclose]

theorem read?_outside (hpad : pad.head? = some ' ') {line : List Char}
    (hline : line.head? ≠ some ' ') : read? pad access line = none := by
  simp only [read?, dropPrefix?_pad hpad hline, bind, Option.bind_none]

end

/-! ### The lines of a builder -/

/-- What stands between a builder and its text: levels of spaces, at least one, and an access. -/
structure Level (layout : BuilderSpec.Layout) (isPublic : Bool) : Prop where
  pad : layout.pad.toList.head? = some ' '
  access : layout.access = accessText isPublic

def ofLine? (layout : BuilderSpec.Layout) (line : String) : Option BuilderLine :=
  read? layout.pad.toList layout.access.toList line.toList

open BuilderSpec

variable {layout : Layout} {isPublic : Bool} {slot : Slot} {slots : List Slot}

/-- The type and the default of a slot as they are declared. -/
def slotValue (slot : Slot) : List Char :=
  slot.type.render.toList ++ (" = ".toList ++ slot.default.toList)

theorem ofLine?_slotLine (h : Level layout isPublic) (hname : Text.isIdentifier slot.name = true) :
    ofLine? layout (slotLine layout slot) =
      some (.slot slot.name.toList (slotValue slot)) := by
  simp only [ofLine?, slotLine, String.toList_append, List.append_assoc, h.access]
  rw [read?_member h.pad isPublic (by simp)]
  exact member?_slot hname (slotValue slot)

def setterItems (slot : Slot) : List (Option BuilderLine) :=
  [some (.setter slot.name.toList slot.name.toList slot.type.render.toList), some .copy,
    some (.assign slot.name.toList slot.name.toList), some .give, some .close, none]

theorem map_ofLine?_setterLines (h : Level layout isPublic)
    (hname : Text.isIdentifier slot.name = true) :
    (setterLines layout slot).map (ofLine? layout) = setterItems slot := by
  simp only [setterLines, setterItems, List.map_cons, List.map_nil, ofLine?, String.toList_append,
    List.append_assoc, h.access]
  rw [read?_member h.pad isPublic (by simp), member?_setter hname, read?_inner, read?_inner,
    read?_inner, inner?_assign hname h.pad, inner?_statement h.pad (by decide) (by decide),
    inner?_statement h.pad (by decide) (by decide), read?_close h.pad]
  rw [read?_outside h.pad (by decide)]
  rfl

def argumentItem (comma : Bool) (slot : Slot) : Option BuilderLine :=
  some (.argument slot.name.toList slot.name.toList comma)

/-- The lines of arguments say the slots in their order, all but the last with a comma. -/
theorem map_ofLine?_argumentLines (layout : Layout)
    (hnames : ∀ slot ∈ slots, Text.isIdentifier slot.name = true) :
    (argumentLines layout slots).map (ofLine? layout) =
      slots.dropLast.map (argumentItem true) ++ slots.getLast?.toList.map (argumentItem false) := by
  induction slots with
  | nil => rfl
  | cons slot rest ih =>
    obtain ⟨hname, hrest⟩ := List.forall_mem_cons.mp hnames
    obtain ⟨hlast, hmore⟩ := inner?_argument hname layout.pad.toList
    cases rest with
    | nil =>
      simp only [argumentLines, List.map_cons, List.map_nil, ofLine?, String.toList_append,
        List.append_assoc, read?_inner, hlast]
      rfl
    | cons next rest =>
      rw [argumentLines, List.map_cons, ih hrest, List.dropLast_cons_cons, List.getLast?_cons_cons]
      · simp only [ofLine?, String.toList_append, List.append_assoc, read?_inner, hmore,
          List.map_cons, List.cons_append]
        rfl
      · exact List.cons_ne_nil next rest

/-- What the lines in the body of `build` say: those that open and close the call say nothing. -/
def buildItems (slots : List Slot) : List (Option BuilderLine) :=
  none :: (slots.dropLast.map (argumentItem true) ++
    slots.getLast?.toList.map (argumentItem false) ++ if slots.isEmpty then [] else [none])

theorem map_ofLine?_buildLines (layout : Layout)
    (hnames : ∀ slot ∈ slots, Text.isIdentifier slot.name = true) (recordName : String) :
    (buildLines layout recordName slots).map (ofLine? layout) = buildItems slots := by
  have hcall (text : String) (ending : String) (hending : ending = "(" ∨ ending = ")") :
      ofLine? layout (layout.pad ++ layout.pad ++ text ++ ending) = none := by
    simp only [ofLine?, String.toList_append, List.append_assoc, read?_inner]
    rw [inner?, if_pos]
    rcases hending with rfl | rfl <;> simp
  have harguments := map_ofLine?_argumentLines layout hnames
  cases slots with
  | nil =>
    have hline := hcall (recordName ++ "(") ")" (.inr rfl)
    have hsplit : layout.pad ++ layout.pad ++ recordName ++ "()" =
        layout.pad ++ layout.pad ++ (recordName ++ "(") ++ ")" := by
      simp only [String.append_assoc]
      rfl
    simp only [buildLines, List.isEmpty_nil, if_true, List.map_cons, List.map_nil, hsplit, hline]
    rfl
  | cons slot rest =>
    have hopen := hcall recordName "(" (.inl rfl)
    have hclose := hcall "" ")" (.inr rfl)
    rw [String.append_empty] at hclose
    simp only [buildLines, List.isEmpty_cons, Bool.false_eq_true, if_false, List.cons_append,
      List.map_cons, List.map_append, harguments, List.map_nil, hopen, hclose, buildItems]

/-- The lines of a builder behind its head. -/
def bodyLines (spec : BuilderSpec) (layout : Layout) : List String :=
  spec.slots.map (slotLine layout) ++
    (if spec.slots.isEmpty then [] else [""]) ++
    spec.slots.flatMap (setterLines layout) ++
    [layout.pad ++ layout.access ++ "init() \x7b\x7d", "",
      layout.pad ++ layout.access ++ "func build() -> " ++ spec.recordName ++ " \x7b"] ++
    buildLines layout spec.recordName spec.slots ++
    [layout.pad ++ "\x7d", "\x7d"]

theorem lines_eq (spec : BuilderSpec) (width : Nat) (name : String) :
    spec.lines width name =
      ((spec.layout width name).access ++ "struct " ++ name ++ " \x7b") ::
        bodyLines spec (spec.layout width name) := rfl

def bodyItems (spec : BuilderSpec) : List (Option BuilderLine) :=
  spec.slots.map (fun slot => some (.slot slot.name.toList (slotValue slot))) ++
    (if spec.slots.isEmpty then [] else [none]) ++
    spec.slots.flatMap setterItems ++
    [none, none, some (.build spec.recordName.toList)] ++
    buildItems spec.slots ++
    [some .close, none]

theorem map_ofLine?_bodyLines (h : Level layout isPublic) {spec : BuilderSpec}
    (hnames : ∀ slot ∈ spec.slots, Text.isIdentifier slot.name = true) :
    (bodyLines spec layout).map (ofLine? layout) = bodyItems spec := by
  have hslots : spec.slots.map (ofLine? layout ∘ slotLine layout) =
      spec.slots.map fun slot => some (.slot slot.name.toList (slotValue slot)) :=
    List.map_congr_left fun slot hslot => ofLine?_slotLine h (hnames slot hslot)
  have hsetters : spec.slots.flatMap (fun slot => (setterLines layout slot).map (ofLine? layout)) =
      spec.slots.flatMap setterItems :=
    List.flatMap_congr fun slot hslot => map_ofLine?_setterLines h (hnames slot hslot)
  have hinit : ofLine? layout (layout.pad ++ layout.access ++ "init() \x7b\x7d") = none := by
    simp only [ofLine?, String.toList_append, List.append_assoc, h.access]
    rw [read?_member h.pad isPublic (by decide)]
    rfl
  have hbuild : ofLine? layout (layout.pad ++ layout.access ++ "func build() -> " ++
      spec.recordName ++ " \x7b") = some (.build spec.recordName.toList) := by
    simp only [ofLine?, String.toList_append, List.append_assoc, h.access]
    rw [read?_member h.pad isPublic (by simp), member?_build]
  have hclose : ofLine? layout (layout.pad ++ "\x7d") = some .close := by
    rw [ofLine?, String.toList_append, read?_close h.pad]
  have hempty : ofLine? layout "" = none := read?_outside h.pad (by decide)
  have hend : ofLine? layout "\x7d" = none := read?_outside h.pad (by decide)
  have hbehind : (if spec.slots.isEmpty then [] else [""]).map (ofLine? layout) =
      if spec.slots.isEmpty then [] else [none] := by
    split
    · rfl
    · rw [List.map_singleton, hempty]
  simp only [bodyLines, bodyItems, List.map_append, List.map_map, hslots, List.map_flatMap,
    hsetters, hbehind, List.map_cons, List.map_nil, hinit, hempty, hbuild, hclose, hend,
    map_ofLine?_buildLines layout hnames]

end BuilderLine

/-! ### Listings -/

/-- What a text lists of a builder. -/
structure BuilderListing where
  isPublic : Bool
  /-- What functions with the name of `build` give. -/
  results : List (List Char)
  /-- The names of slots that are declared, with the type and the default behind each. -/
  slots : List (List Char × List Char)
  /-- The names of whole setters, with the types of their parameters. -/
  setters : List (List Char × List Char)
  /-- The labels of arguments, with what is given for them. -/
  arguments : List (List Char × List Char)
  /-- Which of the arguments have a comma behind them. -/
  commas : List Bool
deriving Repr, DecidableEq

namespace BuilderListing

open BuilderLine BuilderSpec

def slotOf? : Option BuilderLine → Option (List Char × List Char)
  | some (.slot name value) => some (name, value)
  | _ => none

def resultOf? : Option BuilderLine → Option (List Char)
  | some (.build result) => some result
  | _ => none

def argumentOf? : Option BuilderLine → Option (List Char × List Char)
  | some (.argument label value _) => some (label, value)
  | _ => none

def commaOf? : Option BuilderLine → Option Bool
  | some (.argument _ _ comma) => some comma
  | _ => none

/-- The setter that lines start with: it gives a copy with the slot of its name set to its
parameter. -/
def setterOf? : List (Option BuilderLine) → Option (List Char × List Char)
  | some (.setter name parameter type) :: some .copy :: some (.assign target value) ::
      some .give :: some .close :: _ =>
    if parameter = name ∧ target = name ∧ value = name then some (name, type) else none
  | _ => none

def ofItems (isPublic : Bool) (items : List (Option BuilderLine)) : BuilderListing where
  isPublic
  results := items.filterMap resultOf?
  slots := items.filterMap slotOf?
  setters := items.tails.filterMap setterOf?
  arguments := items.filterMap argumentOf?
  commas := items.filterMap commaOf?

/-- The lines behind the head of a builder of some name and access. -/
def behindHead? (isPublic : Bool) (name text : String) : Option (List (List Char)) := do
  let head := (accessText isPublic).toList ++ "struct ".toList ++ name.toList ++ " \x7b\n".toList
  let body ← text.toList.dropPrefix? head
  return body.splitOn '\n'

/-- What a text lists of a builder with some access. -/
def ofTextAs? (isPublic : Bool) (width : Nat) (name text : String) : Option BuilderListing := do
  let body ← behindHead? isPublic name text
  return ofItems isPublic (body.map (read? (List.replicate width ' ') (accessText isPublic).toList))

/-- What a text lists of a builder of some name whose levels are some spaces wide. -/
def ofText? (width : Nat) (name text : String) : Option BuilderListing :=
  ofTextAs? true width name text <|> ofTextAs? false width name text

end BuilderListing

/-- The code of the builder of some name that stands in a text. The name can be any text. -/
def BuilderCode.ofNamed? (name text : String) : Option BuilderCode := do
  let body ← BuilderListing.behindHead? true name text <|> BuilderListing.behindHead? false name text
  ofMembers? name (body.map String.ofList)

namespace BuilderListing

open BuilderLine BuilderSpec

/-! ### What is listed -/

/-- No line is the head of a setter. -/
def HasNoSetter (items : List (Option BuilderLine)) : Prop :=
  ∀ name parameter type, some (.setter name parameter type) ∉ items

/-- No setter starts with another line than its head. -/
theorem filterMap_tails_append {items : List (Option BuilderLine)} (h : HasNoSetter items)
    (rest : List (Option BuilderLine)) :
    (items ++ rest).tails.filterMap setterOf? = rest.tails.filterMap setterOf? := by
  induction items with
  | nil => rfl
  | cons item items ih =>
    have hnone : setterOf? (item :: (items ++ rest)) = none := by
      unfold setterOf?
      split
      · next name parameter type _ _ _ heq =>
        rw [List.cons.injEq] at heq
        exact absurd (heq.1 ▸ List.mem_cons_self) (h name parameter type)
      · rfl
    rw [List.cons_append, List.tails_cons, List.filterMap_cons_none hnone]
    exact ih fun name parameter type hmem => h name parameter type (List.mem_cons_of_mem item hmem)

theorem filterMap_tails_setterItems (slots : List Slot) (rest : List (Option BuilderLine)) :
    (slots.flatMap setterItems ++ rest).tails.filterMap setterOf? =
      slots.map (fun slot => (slot.name.toList, slot.type.render.toList)) ++
        rest.tails.filterMap setterOf? := by
  induction slots with
  | nil => rfl
  | cons slot slots ih =>
    have hnone : HasNoSetter [some .copy, some (.assign slot.name.toList slot.name.toList),
        some .give, some .close, none] := by simp [HasNoSetter]
    have hbody := filterMap_tails_append hnone (slots.flatMap setterItems ++ rest)
    have hfirst : setterOf? (setterItems slot ++ (slots.flatMap setterItems ++ rest)) =
        some (slot.name.toList, slot.type.render.toList) := by simp [setterItems, setterOf?]
    rw [List.flatMap_cons, List.append_assoc, List.map_cons, List.cons_append, ← ih, ← hbody]
    exact List.filterMap_cons_some hfirst

/-- What is picked out of single lines comes from slots, from `build` and from its arguments, if
nothing is picked out of setters. -/
theorem filterMap_bodyItems {α : Type} {pick : Option BuilderLine → Option α}
    (hnone : pick none = none) (hclose : pick (some .close) = none)
    (hsetter : ∀ slot, (setterItems slot).filterMap pick = []) (spec : BuilderSpec) :
    (bodyItems spec).filterMap pick =
      spec.slots.filterMap (fun slot => pick (some (.slot slot.name.toList (slotValue slot)))) ++
        ((pick (some (.build spec.recordName.toList))).toList ++
          (spec.slots.dropLast.filterMap (fun slot => pick (argumentItem true slot)) ++
            spec.slots.getLast?.toList.filterMap fun slot => pick (argumentItem false slot))) := by
  have hblank (blank : Bool) : (if blank then [] else [none]).filterMap pick = [] := by
    cases blank
    · exact List.filterMap_cons_none hnone
    · rfl
  have hbuild : [none, none, some (.build spec.recordName.toList)].filterMap pick =
      (pick (some (.build spec.recordName.toList))).toList := by
    cases hpick : pick (some (.build spec.recordName.toList)) <;> simp [hnone, hpick]
  have hends : [some .close, none].filterMap pick = [] := by simp [hnone, hclose]
  have hsetters : (spec.slots.flatMap fun slot => (setterItems slot).filterMap pick) = [] :=
    List.flatMap_eq_nil_iff.mpr fun slot _ => hsetter slot
  simp only [bodyItems, buildItems, List.filterMap_append, List.filterMap_map, Function.comp_def,
    List.filterMap_flatMap, hsetters, hblank, hbuild, hends, List.filterMap_cons_none hnone,
    List.append_nil, List.nil_append, List.append_assoc]

theorem map_dropLast_append {α : Type} (slots : List Slot) (f : Slot → α) :
    slots.dropLast.map f ++ slots.getLast?.toList.map f = slots.map f := by
  rw [← List.map_append]
  cases slots using List.reverseRecOn <;> simp

/-- What is listed of the body of a builder. -/
theorem ofItems_bodyItems (isPublic : Bool) (spec : BuilderSpec) :
    ofItems isPublic (bodyItems spec) = {
      isPublic
      results := [spec.recordName.toList]
      slots := spec.slots.map fun slot => (slot.name.toList, slotValue slot)
      setters := spec.slots.map fun slot => (slot.name.toList, slot.type.render.toList)
      arguments := spec.slots.map fun slot => (slot.name.toList, slot.name.toList)
      commas := spec.slots.dropLast.map (fun _ => true) ++
        spec.slots.getLast?.toList.map fun _ => false } := by
  have hresults : (bodyItems spec).filterMap resultOf? = [spec.recordName.toList] := by
    rw [filterMap_bodyItems rfl rfl fun _ => rfl]
    simp [resultOf?, argumentItem]
  have hslots : (bodyItems spec).filterMap slotOf? =
      spec.slots.map fun slot => (slot.name.toList, slotValue slot) := by
    rw [filterMap_bodyItems rfl rfl fun _ => rfl]
    simp [slotOf?, argumentItem]
  have harguments : (bodyItems spec).filterMap argumentOf? =
      spec.slots.map fun slot => (slot.name.toList, slot.name.toList) := by
    rw [filterMap_bodyItems rfl rfl fun _ => rfl, ← map_dropLast_append]
    simp [argumentOf?, argumentItem]
  have hcommas : (bodyItems spec).filterMap commaOf? =
      spec.slots.dropLast.map (fun _ => true) ++
        spec.slots.getLast?.toList.map fun _ => false := by
    rw [filterMap_bodyItems rfl rfl fun _ => rfl]
    simp [commaOf?, argumentItem]
  have hsetters : (bodyItems spec).tails.filterMap setterOf? =
      spec.slots.map fun slot => (slot.name.toList, slot.type.render.toList) := by
    have hslots : HasNoSetter
        (spec.slots.map (fun slot => some (.slot slot.name.toList (slotValue slot))) ++
          if spec.slots.isEmpty then [] else [none]) := by
      simp [HasNoSetter]
    have hbuild : HasNoSetter ([none, none, some (.build spec.recordName.toList)] ++
        (buildItems spec.slots ++ [some .close, none])) := by
      simp [HasNoSetter, buildItems, argumentItem, -List.map_dropLast]
    have hbehind := filterMap_tails_append hbuild []
    rw [List.append_nil] at hbehind
    simp only [bodyItems, List.append_assoc] at hslots hbehind ⊢
    rw [← List.append_assoc, filterMap_tails_append hslots, filterMap_tails_setterItems, hbehind]
    exact List.append_nil _
  rw [ofItems, hresults, hslots, hsetters, harguments, hcommas]

end BuilderListing

/-! ### Texts -/

namespace BuilderSpec

open BuilderLine BuilderListing

/-- Whether the builder of a record is public. -/
def isPublic (spec : BuilderSpec) : Bool := spec.visibility.any publicVisibilities.contains

/-- The names of slots are identifiers, and all other texts of a builder stand in one line. -/
structure IsLined (spec : BuilderSpec) : Prop where
  names : ∀ slot ∈ spec.slots, Text.isIdentifier slot.name = true
  types : ∀ slot ∈ spec.slots, '\n' ∉ slot.type.render.toList
  defaults : ∀ slot ∈ spec.slots, '\n' ∉ slot.default.toList
  recordName : '\n' ∉ spec.recordName.toList

variable {spec : BuilderSpec} {width : Nat}

theorem level_layout (hwidth : 1 ≤ width) (spec : BuilderSpec) (name : String) :
    Level (spec.layout width name) spec.isPublic := by
  constructor
  · obtain ⟨width, rfl⟩ := Nat.exists_eq_add_of_le' hwidth
    simp [layout, List.replicate_succ]
  · unfold layout isPublic accessText
    cases spec.visibility <;> rfl

theorem lineFeed_notMem_name {name : String} (h : Text.isIdentifier name = true) :
    '\n' ∉ name.toList := fun hmem =>
  absurd (CodeToken.isIdentifierPart_of_isIdentifier h _ hmem) (by decide)

theorem lineFeed_notMem_argumentLines {layout : Layout} {slots : List Slot}
    (hpad : '\n' ∉ layout.pad.toList) (hnames : ∀ slot ∈ slots, Text.isIdentifier slot.name = true) :
    ∀ line ∈ argumentLines layout slots, '\n' ∉ line.toList := by
  induction slots with
  | nil => simp [argumentLines]
  | cons slot rest ih =>
    obtain ⟨hname, hrest⟩ := List.forall_mem_cons.mp hnames
    have hfree := lineFeed_notMem_name hname
    cases rest with
    | nil => simp [argumentLines, hpad, hfree]
    | cons next rest =>
      rw [argumentLines, List.forall_mem_cons]
      · exact ⟨by simp [hpad, hfree], ih hrest⟩
      · exact List.cons_ne_nil next rest

theorem lineFeed_notMem_bodyLines (h : spec.IsLined) (width : Nat) (name : String) :
    ∀ line ∈ bodyLines spec (spec.layout width name), '\n' ∉ line.toList := by
  have hplain := isPlain_layout spec width name
  have hpad : '\n' ∉ (spec.layout width name).pad.toList := by
    obtain ⟨n, hpad⟩ := hplain.pad
    simp [hpad]
  have haccess : '\n' ∉ (spec.layout width name).access.toList := by
    rcases hplain.access with haccess | haccess <;> rw [haccess] <;> decide
  have hslot : ∀ slot ∈ spec.slots, '\n' ∉ (slotLine (spec.layout width name) slot).toList := by
    intro slot hslot
    simp [slotLine, hpad, haccess, lineFeed_notMem_name (h.names slot hslot), h.types slot hslot,
      h.defaults slot hslot]
  have hsetter : ∀ slot ∈ spec.slots, ∀ line ∈ setterLines (spec.layout width name) slot,
      '\n' ∉ line.toList := by
    intro slot hslot
    simp [setterLines, hpad, haccess, lineFeed_notMem_name (h.names slot hslot),
      h.types slot hslot]
  have hbuild : ∀ line ∈ buildLines (spec.layout width name) spec.recordName spec.slots,
      '\n' ∉ line.toList := by
    have harguments := lineFeed_notMem_argumentLines hpad h.names
    unfold buildLines
    split
    · simp [hpad, h.recordName]
    · simp only [List.cons_append, List.forall_mem_cons, List.forall_mem_append]
      exact ⟨by simp [hpad, h.recordName], harguments, by simp [hpad]⟩
  simp only [bodyLines, List.forall_mem_append, List.forall_mem_map, List.forall_mem_flatMap]
  refine ⟨⟨⟨⟨⟨hslot, ?_⟩, hsetter⟩, ?_⟩, hbuild⟩, ?_⟩
  · split <;> simp
  · simp [hpad, haccess, h.recordName]
  · simp [hpad]

theorem toList_render (spec : BuilderSpec) (width : Nat) (name : String) :
    (spec.render width name).toList =
      (spec.layout width name).access.toList ++ "struct ".toList ++ name.toList ++
        " \x7b\n".toList ++ ['\n'].intercalate
          ((bodyLines spec (spec.layout width name)).map String.toList) := by
  have hbody : (bodyLines spec (spec.layout width name)).map String.toList ≠ [] := by
    simp [bodyLines]
  rw [render, String.toList_intercalate, lines_eq, List.map_cons]
  have hline : "\n".toList = ['\n'] := rfl
  have hhead : " \x7b\n".toList = " \x7b".toList ++ ['\n'] := rfl
  rw [hline, List.intercalate_cons_of_ne_nil hbody, hhead]
  simp only [String.toList_append, List.append_assoc]

/-- Behind the head of a builder are its lines. -/
theorem behindHead?_render (hwidth : 1 ≤ width) (name : String) (h : spec.IsLined) :
    behindHead? spec.isPublic name (spec.render width name) =
      some ((spec.lines width name).tail.map String.toList) := by
  have hsplit : List.splitOn '\n' (['\n'].intercalate
      ((bodyLines spec (spec.layout width name)).map String.toList)) =
      (bodyLines spec (spec.layout width name)).map String.toList := by
    refine List.splitOn_intercalate '\n' ?_ (by simp [bodyLines])
    simpa using lineFeed_notMem_bodyLines h width name
  rw [behindHead?, toList_render, (level_layout hwidth spec name).access]
  simp only [dropPrefix?_append, bind, Option.bind_some, hsplit, pure, lines_eq, List.tail_cons]

/-- The head of a builder that is not public is that of no public one. -/
theorem behindHead?_true_render (hwidth : 1 ≤ width) (name : String)
    (hpublic : spec.isPublic = false) : behindHead? true name (spec.render width name) = none := by
  rw [behindHead?, toList_render, (level_layout hwidth spec name).access, hpublic]
  rfl

theorem ofTextAs?_render (hwidth : 1 ≤ width) (name : String) (h : spec.IsLined) :
    ofTextAs? spec.isPublic width name (spec.render width name) =
      some (ofItems spec.isPublic (bodyItems spec)) := by
  have hlevel := level_layout hwidth spec name
  have hread : ((spec.lines width name).tail.map String.toList).map
      (read? (List.replicate width ' ') (accessText spec.isPublic).toList) = bodyItems spec := by
    rw [lines_eq, List.tail_cons, ← map_ofLine?_bodyLines hlevel h.names, List.map_map]
    refine List.map_congr_left fun line _ => ?_
    rw [ofLine?, hlevel.access]
    simp [layout]
  simp only [ofTextAs?, behindHead?_render hwidth name h, bind, Option.bind_some, hread, pure]

theorem ofText?_render_listing (hwidth : 1 ≤ width) (name : String) (h : spec.IsLined) :
    BuilderListing.ofText? width name (spec.render width name) =
      some (ofItems spec.isPublic (bodyItems spec)) := by
  have hread := ofTextAs?_render hwidth name h
  cases hpublic : spec.isPublic with
  | true =>
    rw [hpublic] at hread
    rw [BuilderListing.ofText?, hread]
    rfl
  | false =>
    rw [hpublic] at hread
    have hnone : ofTextAs? true width name (spec.render width name) = none := by
      rw [ofTextAs?, behindHead?_true_render hwidth name hpublic]
      rfl
    rw [BuilderListing.ofText?, hnone, hread]
    rfl

theorem ofNamed?_render (hwidth : 1 ≤ width) (name : String) (h : spec.IsLined) :
    BuilderCode.ofNamed? name (spec.render width name) = some (spec.toCode name) := by
  have hread := behindHead?_render hwidth name h
  have hlines : (behindHead? true name (spec.render width name) <|>
      behindHead? false name (spec.render width name)) =
      some ((spec.lines width name).tail.map String.toList) := by
    cases hpublic : spec.isPublic with
    | true => rw [← hpublic, hread]; rfl
    | false => rw [behindHead?_true_render hwidth name hpublic, ← hpublic, hread]; rfl
  have hback : String.ofList ∘ String.toList = id := funext fun text => String.ofList_toList
  rw [BuilderCode.ofNamed?, hlines]
  simp only [bind, Option.bind_some, List.map_map, hback, List.map_id,
    ofMembers?_lines spec width name h.names]

/-- The setters tell the types of slots, and with them the declarations tell the defaults. -/
theorem slots_of_listed {a b : List Slot}
    (hslots : (a.map fun slot => (slot.name.toList, slotValue slot)) =
      b.map fun slot => (slot.name.toList, slotValue slot))
    (hsetters : (a.map fun slot => (slot.name.toList, slot.type.render.toList)) =
      b.map fun slot => (slot.name.toList, slot.type.render.toList)) :
    (a.map fun slot => (slot.name, slot.type.render, slot.default)) =
      b.map fun slot => (slot.name, slot.type.render, slot.default) := by
  induction a generalizing b with
  | nil => rw [List.map_eq_nil_iff.mp hslots.symm]
  | cons slot rest ih =>
    cases b with
    | nil => cases hslots
    | cons other others =>
      simp only [List.map_cons, List.cons.injEq, Prod.mk.injEq, String.toList_inj] at hslots hsetters
      obtain ⟨⟨hname, hvalue⟩, hslots⟩ := hslots
      obtain ⟨⟨-, htype⟩, hsetters⟩ := hsetters
      have hdefault : slot.default = other.default := by
        rw [slotValue, slotValue, htype, List.append_cancel_left_eq,
          List.append_cancel_left_eq] at hvalue
        exact String.toList_inj.mp hvalue
      rw [List.map_cons, List.map_cons, hname, htype, hdefault, ih hslots hsetters]

/-- **A rendered builder lists its slots**: for each slot there is one declaration, one setter and
one labelled argument, in the order of the slots, with commas between the arguments only. The
arguments are those of the call in `build`, which calls what the record is named, and the code has
no other declarations, setters or arguments. Two builders that are rendered as the same text have
the same record, access and slots. -/
theorem render_listed {width : Nat} (hwidth : 1 ≤ width) (name : String) {spec : BuilderSpec}
    (h : spec.IsLined) :
    BuilderListing.ofText? width name (spec.render width name) = some {
        isPublic := spec.isPublic
        results := [spec.recordName.toList]
        slots := spec.slots.map fun slot => (slot.name.toList,
          slot.type.render.toList ++ (" = ".toList ++ slot.default.toList))
        setters := spec.slots.map fun slot => (slot.name.toList, slot.type.render.toList)
        arguments := spec.slots.map fun slot => (slot.name.toList, slot.name.toList)
        commas := spec.slots.dropLast.map (fun _ => true) ++
          spec.slots.getLast?.toList.map fun _ => false } ∧
      BuilderCode.ofNamed? name (spec.render width name) = some {
        name := CodeToken.tokens name
        slots := spec.slots.map (·.name)
        setters := spec.slots.map fun slot => {
          name := slot.name
          parameter := slot.name
          body := [.declare "copy" "self", .assign "copy" slot.name slot.name, .give "copy"] }
        callee := CodeToken.tokens spec.recordName
        arguments := spec.slots.map fun slot => (slot.name, slot.name) } ∧
      ∀ other : BuilderSpec, other.IsLined → other.render width name = spec.render width name →
        other.recordName = spec.recordName ∧ other.isPublic = spec.isPublic ∧
          other.slots.map (fun slot => (slot.name, slot.type.render, slot.default)) =
            spec.slots.map fun slot => (slot.name, slot.type.render, slot.default) := by
  have hlisted := ofText?_render_listing hwidth name h
  rw [ofItems_bodyItems] at hlisted
  refine ⟨hlisted, ofNamed?_render hwidth name h, fun other hother heq => ?_⟩
  have hotherListed := ofText?_render_listing hwidth name hother
  rw [ofItems_bodyItems, heq, hlisted] at hotherListed
  simp only [Option.some.injEq, BuilderListing.mk.injEq, List.cons.injEq, and_true,
    String.toList_inj] at hotherListed
  obtain ⟨hpublic, hresult, hslots, hsetters, -, -⟩ := hotherListed
  exact ⟨hresult.symm, hpublic.symm, slots_of_listed hslots.symm hsetters.symm⟩

theorem render_listed_point :
    let point : BuilderSpec := {
      recordName := "Point"
      slots := [⟨"x", .nominal "Int" [], "f(\"a: = b\")"⟩, ⟨"y", .nominal "Int" [], "0"⟩]
      visibility := some "open" }
    point.IsLined ∧
      BuilderListing.ofText? 2 "PointBuilder" (point.render 2 "PointBuilder") = some {
        isPublic := true
        results := ["Point".toList]
        slots := [("x".toList, "Int = f(\"a: = b\")".toList), ("y".toList, "Int = 0".toList)]
        setters := [("x".toList, "Int".toList), ("y".toList, "Int".toList)]
        arguments := [("x".toList, "x".toList), ("y".toList, "y".toList)]
        commas := [true, false] } ∧
      ∃ code, BuilderCode.ofNamed? "PointBuilder" (point.render 2 "PointBuilder") = some code ∧
        code.callee = [.word "Point"] ∧ code.arguments = [("x", "x"), ("y", "y")] := by
  intro point
  have hlined : point.IsLined := by
    refine ⟨?_, ?_, ?_, by decide⟩ <;> simp only [point, List.forall_mem_cons] <;>
      exact ⟨by decide, by decide, by simp⟩
  have hwidth : 1 ≤ 2 := by decide
  obtain ⟨hlisted, hcode, -⟩ := render_listed hwidth "PointBuilder" hlined
  exact ⟨hlined, hlisted, _, hcode, by decide, rfl⟩

end BuilderSpec

end FluentBuilder
