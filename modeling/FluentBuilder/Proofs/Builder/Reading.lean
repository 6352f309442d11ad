import FluentBuilder.Builder.Printer
import Mathlib.Tactic

/-!
# The text of a builder, read as code

A builder is printed as lines of text. Here the lines are read back, one after the other, by a
reader that knows words, marks and blocks but nothing of how they came to be printed: which slots
are declared, which setters there are and what their bodies do, and what `build` calls with which
arguments. Types and default expressions are left unread, since they can be any text, with line
feeds of its own; this is why lines are read, and not the text that is made of them.

`ofLines?_lines` says what is read from the lines of a builder. It holds for every name of a builder
and of a record, and for all slots whose names are identifiers.
-/

namespace FluentBuilder

/-! ### Words and marks -/

/-- A word or a mark in a line of code. -/
inductive CodeToken where
  | word (text : String)
  | mark (c : Char)
deriving Repr, DecidableEq

namespace CodeToken

/-- Whether a character is part of a word. Beyond ASCII all are. -/
def isPart (c : Char) : Bool := Text.isIdentifierPart c || 128 ≤ c.toNat

/-- The token of a word that has been read, if there is one. -/
def ofWord (word : List Char) : List CodeToken :=
  if word.isEmpty then [] else [.word (String.ofList word)]

/-- The token of a character between words: blanks are none. -/
def ofSeparator (c : Char) : List CodeToken := if Text.isBlank c then [] else [.mark c]

/-- The tokens of a text, behind a part of a word that has been read already. -/
def tokensFrom (word : List Char) : List Char → List CodeToken
  | [] => ofWord word
  | c :: rest =>
    if isPart c then tokensFrom (word ++ [c]) rest
    else ofWord word ++ (ofSeparator c ++ tokensFrom [] rest)

def tokens (line : String) : List CodeToken := tokensFrom [] line.toList

/-- What stands in front of a separator is read apart from it. -/
theorem tokensFrom_append {c : Char} (hc : isPart c = false) (word text rest : List Char) :
    tokensFrom word (text ++ c :: rest) =
      tokensFrom word text ++ (ofSeparator c ++ tokensFrom [] rest) := by
  induction text generalizing word with
  | nil => simp [tokensFrom, hc]
  | cons d text ih => by_cases hd : isPart d <;> simp [tokensFrom, hd, ih]

theorem tokens_append_left (a b : String) (h : a.toList.getLast?.any (!isPart ·) = true) :
    tokens (a ++ b) = tokens a ++ tokens b := by
  obtain ⟨c, hlast, hc⟩ := (Option.any_eq_true _ _).mp h
  obtain ⟨text, hchars⟩ := List.getLast?_eq_some_iff.mp hlast
  have hc : isPart c = false := by simpa using hc
  simp only [tokens, String.toList_append, hchars, List.append_assoc, List.cons_append,
    List.nil_append, tokensFrom_append hc]
  rfl

theorem tokens_append_right (a b : String) (h : b.toList.head?.any (!isPart ·) = true) :
    tokens (a ++ b) = tokens a ++ tokens b := by
  obtain ⟨c, hhead, hc⟩ := (Option.any_eq_true _ _).mp h
  obtain ⟨text, hchars⟩ := List.head?_eq_some_iff.mp hhead
  have hc : isPart c = false := by simpa using hc
  simp only [tokens, String.toList_append, hchars, tokensFrom_append hc]
  simp [tokensFrom, hc, ofWord]

theorem tokens_spaces (n : Nat) (line : String) :
    tokens (String.ofList (List.replicate n ' ') ++ line) = tokens line := by
  induction n with
  | zero => simp
  | succ n ih =>
    rw [← ih, tokens, tokens, String.toList_append, String.toList_append, String.toList_ofList,
      String.toList_ofList, List.replicate_succ]
    rfl

/-! ### Names -/

theorem isIdentifierPart_of_isIdentifier {name : String} (h : Text.isIdentifier name = true) :
    ∀ c ∈ name.toList, Text.isIdentifierPart c = true := by
  unfold Text.isIdentifier at h
  split at h
  · simp at h
  · next c rest hchars =>
    obtain ⟨hstart, hrest⟩ := by simpa only [Bool.and_eq_true, List.all_eq_true] using h
    rw [hchars]
    refine List.forall_mem_cons.mpr ⟨?_, hrest⟩
    unfold Text.isIdentifierPart
    split
    · next hascii => simp_all [Text.isIdentifierStart]
    · rw [hstart, Bool.true_or, Bool.true_or, Bool.true_or]

theorem parts_of_isIdentifier {name : String} (h : Text.isIdentifier name = true) :
    name.toList ≠ [] ∧ ∀ c ∈ name.toList, isPart c = true := by
  refine ⟨?_, fun c hc => by simp [isPart, isIdentifierPart_of_isIdentifier h c hc]⟩
  intro hnil
  simp [Text.isIdentifier, hnil] at h

/-- The parts of a word are read as one, with what has been read of it. -/
theorem tokensFrom_parts (word : List Char) {chars : List Char}
    (hparts : ∀ c ∈ chars, isPart c = true) : tokensFrom word chars = ofWord (word ++ chars) := by
  induction chars generalizing word with
  | nil => simp [tokensFrom]
  | cons c chars ih =>
    rw [tokensFrom, hparts c List.mem_cons_self]
    simpa using ih (word ++ [c]) fun d hd => hparts d (List.mem_cons_of_mem c hd)

theorem tokens_name {name : String} (h : Text.isIdentifier name = true) :
    tokens name = [.word name] := by
  obtain ⟨hsome, hparts⟩ := parts_of_isIdentifier h
  rw [tokens, tokensFrom_parts [] hparts]
  simp [ofWord, hsome]

/-- A name is read apart from what follows it behind a separator. -/
theorem tokens_name_append {name : String} (hname : Text.isIdentifier name = true)
    (separator rest : String) (h : separator.toList.head?.any (!isPart ·) = true) :
    tokens (name ++ (separator ++ rest)) = .word name :: tokens (separator ++ rest) := by
  rw [tokens_append_right, tokens_name hname, List.singleton_append]
  obtain ⟨c, hhead, hc⟩ := (Option.any_eq_true _ _).mp h
  obtain ⟨text, hchars⟩ := List.head?_eq_some_iff.mp hhead
  simpa [hchars] using hc

end CodeToken

/-! ### Code -/

inductive Statement where
  /-- A variable is declared with a value. -/
  | declare (target value : String)
  /-- A slot of what a variable holds is given a value. -/
  | assign (target slot value : String)
  /-- The setter ends with a value. -/
  | give (value : String)
deriving Repr, DecidableEq

/-- A setter with one unlabelled parameter. -/
structure SetterCode where
  name : String
  parameter : String
  body : List Statement
deriving Repr, DecidableEq

structure BuilderCode where
  /-- The name of the builder. -/
  name : List CodeToken := []
  slots : List String := []
  setters : List SetterCode := []
  /-- What `build` calls. -/
  callee : List CodeToken := []
  /-- The labels in that call and the names behind them. -/
  arguments : List (String × String) := []
deriving Repr, DecidableEq

/-! ### The reader -/

inductive Block where
  /-- None: the builder is still to come. -/
  | outside
  | members
  | setter (code : SetterCode)
  /-- `build`, before its call. -/
  | build
  | arguments
  /-- `build`, behind its call. -/
  | built
  /-- None: the builder is complete. -/
  | closed
deriving Repr, DecidableEq

structure Reading where
  block : Block := .outside
  code : BuilderCode := {}
deriving Repr, DecidableEq

def Statement.ofTokens? : List CodeToken → Option Statement
  | [.word "var", .word target, .mark '=', .word value] => some (.declare target value)
  | [.word target, .mark '.', .word slot, .mark '=', .word value] =>
    some (.assign target slot value)
  | [.word "return", .word value] => some (.give value)
  | _ => none

/-- The line without the modifier of what is public. -/
def withoutAccess : List CodeToken → List CodeToken
  | .word "public" :: rest => rest
  | line => line

namespace Reading

def outside (code : BuilderCode) (line : List CodeToken) : Option Reading :=
  match withoutAccess line with
  | .word "struct" :: rest =>
    if rest.getLast? = some (.mark '\x7b') then
      some { block := .members, code := { code with name := rest.dropLast } }
    else none
  | _ => none

def member (code : BuilderCode) (line : List CodeToken) : Option Reading :=
  match withoutAccess line with
  | [.mark '\x7d'] => some { block := .closed, code }
  | .word "var" :: .word name :: .mark ':' :: _ =>
    some { block := .members, code := { code with slots := code.slots ++ [name] } }
  | .word "func" :: .word name :: .mark '(' :: .word "_" :: .word parameter :: .mark ':' :: _ =>
    some { block := .setter { name, parameter, body := [] }, code }
  | [.word "init", .mark '(', .mark ')', .mark '\x7b', .mark '\x7d'] =>
    some { block := .members, code }
  | .word "func" :: .word "build" :: .mark '(' :: .mark ')' :: _ => some { block := .build, code }
  | _ => none

def statement (code : BuilderCode) (setter : SetterCode) (line : List CodeToken) :
    Option Reading :=
  if line = [.mark '\x7d'] then
    some { block := .members, code := { code with setters := code.setters ++ [setter] } }
  else
    (Statement.ofTokens? line).map fun statement =>
      { block := .setter { setter with body := setter.body ++ [statement] }, code }

def call (code : BuilderCode) (line : List CodeToken) : Option Reading :=
  match line.reverse with
  | .mark '(' :: callee =>
    some { block := .arguments, code := { code with callee := callee.reverse } }
  | .mark ')' :: .mark '(' :: callee =>
    some { block := .built, code := { code with callee := callee.reverse } }
  | _ => none

def argument (code : BuilderCode) (line : List CodeToken) : Option Reading :=
  match line with
  | [.mark ')'] => some { block := .built, code }
  | .word label :: .mark ':' :: .word value :: rest =>
    if rest = [] ∨ rest = [.mark ','] then
      some { block := .arguments,
             code := { code with arguments := code.arguments ++ [(label, value)] } }
    else none
  | _ => none

def step (reading : Reading) (line : List CodeToken) : Option Reading :=
  if line = [] then some reading
  else
    match reading.block with
    | .outside => outside reading.code line
    | .members => member reading.code line
    | .setter setter => statement reading.code setter line
    | .build => call reading.code line
    | .arguments => argument reading.code line
    | .built =>
      if line = [.mark '\x7d'] then some { block := .members, code := reading.code } else none
    | .closed => none

/-- Some lines lead the reader from one state to another. -/
def Leads (before : Reading) (lines : List String) (after : Reading) : Prop :=
  (lines.map CodeToken.tokens).foldlM step before = some after

variable {before between after : Reading} {code : BuilderCode}

theorem Leads.nil : Leads before [] before := rfl

theorem Leads.cons {line : String} {rest : List String} (between : Reading)
    (hline : step before (CodeToken.tokens line) = some between)
    (hrest : Leads between rest after) : Leads before (line :: rest) after := by
  rw [Leads, List.map_cons, List.foldlM_cons, hline]
  exact hrest

theorem Leads.append {first rest : List String} (hfirst : Leads before first between)
    (hrest : Leads between rest after) : Leads before (first ++ rest) after := by
  rw [Leads, List.map_append, List.foldlM_append, hfirst]
  exact hrest

theorem step_members {line : List CodeToken} {first : CodeToken} {rest : List CodeToken}
    (h : withoutAccess line = first :: rest) :
    step { block := .members, code } line = member code line := by
  have hline : line ≠ [] := by
    rintro rfl
    simp [withoutAccess] at h
  simp [step, hline]

end Reading

def BuilderCode.ofLines? (lines : List String) : Option BuilderCode :=
  match (lines.map CodeToken.tokens).foldlM Reading.step {} with
  | some { block := .closed, code } => some code
  | _ => none

/-- The builder of a name whose members stand in some lines. -/
def BuilderCode.ofMembers? (name : String) (lines : List String) : Option BuilderCode :=
  match (lines.map CodeToken.tokens).foldlM Reading.step
      { block := .members, code := { name := CodeToken.tokens name } } with
  | some { block := .closed, code } => some code
  | _ => none

/-- The builder that stands in a text, if no type or default in it has line feeds. -/
def BuilderCode.ofText? (text : String) : Option BuilderCode :=
  ofLines? ((text.toList.splitOn '\n').map String.ofList)

/-! ### Lines -/

namespace BuilderSpec

open CodeToken Reading

variable {layout : Layout} {slot : Slot} {slots : List Slot} {code : BuilderCode}

theorem tokens_head (name : String) :
    tokens ("struct " ++ (name ++ " \x7b")) =
      .word "struct" :: (tokens name ++ [.mark '\x7b']) := by
  rw [tokens_append_left "struct " _ (by decide), tokens_append_right name _ (by decide)]
  rfl

theorem tokens_slot (hname : Text.isIdentifier slot.name = true) (rest : String) :
    tokens ("var " ++ (slot.name ++ (": " ++ rest))) =
      .word "var" :: .word slot.name :: .mark ':' :: tokens rest := by
  rw [tokens_append_left "var " _ (by decide), tokens_name_append hname ": " _ (by decide),
    tokens_append_left ": " _ (by decide)]
  rfl

theorem tokens_setter (hname : Text.isIdentifier slot.name = true) (rest : String) :
    tokens ("func " ++ (slot.name ++ ("(_ " ++ (slot.name ++ (": " ++ rest))))) =
      .word "func" :: .word slot.name :: .mark '(' :: .word "_" :: .word slot.name :: .mark ':' ::
        tokens rest := by
  rw [tokens_append_left "func " _ (by decide), tokens_name_append hname "(_ " _ (by decide),
    tokens_append_left "(_ " _ (by decide), tokens_name_append hname ": " _ (by decide),
    tokens_append_left ": " _ (by decide)]
  rfl

theorem tokens_assignment (hname : Text.isIdentifier slot.name = true) :
    tokens ("copy." ++ (slot.name ++ (" = " ++ slot.name))) =
      [.word "copy", .mark '.', .word slot.name, .mark '=', .word slot.name] := by
  rw [tokens_append_left "copy." _ (by decide), tokens_name_append hname " = " _ (by decide),
    tokens_append_left " = " _ (by decide), tokens_name hname]
  rfl

theorem tokens_build (rest : String) :
    tokens ("func build() -> " ++ rest) = .word "func" :: .word "build" :: .mark '(' ::
      .mark ')' :: .mark '-' :: .mark '>' :: tokens rest := by
  rw [tokens_append_left "func build() -> " _ (by decide)]
  rfl

theorem tokens_argument (hname : Text.isIdentifier slot.name = true) :
    tokens (slot.name ++ (": " ++ slot.name)) =
      [.word slot.name, .mark ':', .word slot.name] ∧
    tokens (slot.name ++ (": " ++ (slot.name ++ ","))) =
      [.word slot.name, .mark ':', .word slot.name, .mark ','] := by
  rw [tokens_name_append hname ": " _ (by decide), tokens_name_append hname ": " _ (by decide),
    tokens_append_left ": " _ (by decide), tokens_append_left ": " _ (by decide),
    tokens_append_right slot.name "," (by decide), tokens_name hname]
  exact ⟨rfl, rfl⟩

theorem tokens_call (recordName : String) :
    tokens (recordName ++ "(") = tokens recordName ++ [.mark '('] ∧
    tokens (recordName ++ "()") = tokens recordName ++ [.mark '(', .mark ')'] := by
  rw [tokens_append_right recordName "(" (by decide),
    tokens_append_right recordName "()" (by decide)]
  exact ⟨rfl, rfl⟩

/-- The parts of a layout that are no name: levels of spaces, and the modifier of what is public. -/
structure Layout.IsPlain (layout : Layout) : Prop where
  pad : ∃ n, layout.pad = String.ofList (List.replicate n ' ')
  access : layout.access = "" ∨ layout.access = "public "

theorem isPlain_layout (spec : BuilderSpec) (width : Nat) (name : String) :
    (spec.layout width name).IsPlain := by
  refine ⟨⟨width, rfl⟩, ?_⟩
  unfold layout
  dsimp only
  repeat' split
  all_goals simp

theorem Layout.IsPlain.tokens_pad (h : layout.IsPlain) (line : String) :
    tokens (layout.pad ++ line) = tokens line := by
  obtain ⟨n, hpad⟩ := h.pad
  rw [hpad, tokens_spaces]

theorem Layout.IsPlain.withoutAccess_tokens (h : layout.IsPlain) (line : String)
    (hline : withoutAccess (tokens line) = tokens line) :
    withoutAccess (tokens (layout.access ++ line)) = tokens line := by
  rcases h.access with haccess | haccess <;> rw [haccess]
  · rw [String.empty_append, hline]
  · rw [tokens_append_left "public " _ (by decide)]
    rfl

/-! ### Members -/

theorem leads_slotLines (h : layout.IsPlain)
    (hnames : ∀ slot ∈ slots, Text.isIdentifier slot.name = true) (code : BuilderCode) :
    Leads { block := .members, code } (slots.map (slotLine layout))
      { block := .members, code := { code with slots := code.slots ++ slots.map (·.name) } } := by
  induction slots generalizing code with
  | nil => simpa using Leads.nil
  | cons slot slots ih =>
    obtain ⟨hname, hnames⟩ := List.forall_mem_cons.mp hnames
    have htokens := tokens_slot hname (slot.type.render ++ (" = " ++ slot.default))
    have hline : withoutAccess (tokens (slotLine layout slot)) =
        .word "var" :: .word slot.name :: .mark ':' ::
          tokens (slot.type.render ++ (" = " ++ slot.default)) := by
      simp only [slotLine, String.append_assoc]
      rw [h.tokens_pad, h.withoutAccess_tokens _ (by rw [htokens]; rfl), htokens]
    have hrest := ih hnames { code with slots := code.slots ++ [slot.name] }
    refine .cons _ ?_ (by simpa using hrest)
    rw [step_members hline, member, hline]
    rfl

def setterCode (name : String) : SetterCode where
  name
  parameter := name
  body := [.declare "copy" "self", .assign "copy" name name, .give "copy"]

theorem leads_setterLines (h : layout.IsPlain) (hname : Text.isIdentifier slot.name = true)
    (code : BuilderCode) :
    Leads { block := .members, code } (setterLines layout slot)
      { block := .members,
        code := { code with setters := code.setters ++ [setterCode slot.name] } } := by
  have htokens := tokens_setter hname (slot.type.render ++ ") -> Self \x7b")
  have hhead : withoutAccess (tokens (layout.pad ++ (layout.access ++ ("func " ++ (slot.name ++
      ("(_ " ++ (slot.name ++ (": " ++ (slot.type.render ++ ") -> Self \x7b"))))))))) =
      .word "func" :: .word slot.name :: .mark '(' :: .word "_" :: .word slot.name :: .mark ':' ::
        tokens (slot.type.render ++ ") -> Self \x7b") := by
    rw [h.tokens_pad, h.withoutAccess_tokens _ (by rw [htokens]; rfl), htokens]
  simp only [setterLines, String.append_assoc]
  let inside (body : List Statement) : Reading :=
    { block := .setter { setterCode slot.name with body }, code }
  refine .cons (inside []) ?_ <| .cons (inside [.declare "copy" "self"]) ?_ <|
    .cons (inside [.declare "copy" "self", .assign "copy" slot.name slot.name]) ?_ <|
    .cons (inside (setterCode slot.name).body) ?_ <|
    .cons { block := .members,
            code := { code with setters := code.setters ++ [setterCode slot.name] } } ?_ <|
    .cons _ ?_ .nil
  · rw [step_members hhead, member, hhead]
    rfl
  · rw [h.tokens_pad, h.tokens_pad]
    rfl
  · rw [h.tokens_pad, h.tokens_pad, tokens_assignment hname]
    rfl
  · rw [h.tokens_pad, h.tokens_pad]
    rfl
  · rw [h.tokens_pad]
    rfl
  · rfl

theorem leads_allSetterLines (h : layout.IsPlain)
    (hnames : ∀ slot ∈ slots, Text.isIdentifier slot.name = true) (code : BuilderCode) :
    Leads { block := .members, code } (slots.flatMap (setterLines layout))
      { block := .members,
        code := { code with
          setters := code.setters ++ slots.map fun slot => setterCode slot.name } } := by
  induction slots generalizing code with
  | nil => simpa using Leads.nil
  | cons slot slots ih =>
    obtain ⟨hname, hnames⟩ := List.forall_mem_cons.mp hnames
    rw [List.flatMap_cons]
    refine (leads_setterLines h hname code).append ?_
    simpa using ih hnames { code with setters := code.setters ++ [setterCode slot.name] }

/-! ### The call -/

theorem leads_argumentLines (h : layout.IsPlain)
    (hnames : ∀ slot ∈ slots, Text.isIdentifier slot.name = true) (code : BuilderCode) :
    Leads { block := .arguments, code } (argumentLines layout slots)
      { block := .arguments,
        code := { code with
          arguments := code.arguments ++ slots.map fun slot => (slot.name, slot.name) } } := by
  induction slots generalizing code with
  | nil => simpa [argumentLines] using Leads.nil
  | cons slot slots ih =>
    obtain ⟨hname, hnames⟩ := List.forall_mem_cons.mp hnames
    obtain ⟨hlast, hinner⟩ := tokens_argument hname
    cases slots with
    | nil =>
      simp only [argumentLines, String.append_assoc]
      refine .cons _ ?_ .nil
      rw [h.tokens_pad, h.tokens_pad, h.tokens_pad, hlast]
      rfl
    | cons next slots =>
      have hrest := ih hnames
        { code with arguments := code.arguments ++ [(slot.name, slot.name)] }
      simp only [argumentLines, String.append_assoc] at hrest ⊢
      refine .cons _ ?_ (by simpa using hrest)
      rw [h.tokens_pad, h.tokens_pad, h.tokens_pad, hinner]
      rfl

/-- The lines in the body of `build` are read as a call. -/
theorem leads_buildLines (h : layout.IsPlain)
    (hnames : ∀ slot ∈ slots, Text.isIdentifier slot.name = true) (recordName : String)
    (code : BuilderCode) (hcode : code.arguments = []) :
    Leads { block := .build, code } (buildLines layout recordName slots)
      { block := .built,
        code := { code with
          callee := tokens recordName
          arguments := slots.map fun slot => (slot.name, slot.name) } } := by
  obtain ⟨hopen, hempty⟩ := tokens_call recordName
  cases slots with
  | nil =>
    refine .cons _ ?_ .nil
    rw [String.append_assoc, String.append_assoc, h.tokens_pad, h.tokens_pad, hempty]
    simp [step, call, ← hcode]
  | cons slot slots =>
    have harguments :=
      leads_argumentLines h hnames { code with callee := tokens recordName, arguments := [] }
    refine .cons _ ?_ (harguments.append (.cons _ ?_ .nil))
    · rw [String.append_assoc, String.append_assoc, h.tokens_pad, h.tokens_pad, hopen]
      simp [step, call, hcode]
    · rw [String.append_assoc, h.tokens_pad, h.tokens_pad]
      rfl

/-! ### Builders -/

theorem step_head (h : layout.IsPlain) (name : String) :
    step {} (tokens (layout.access ++ ("struct " ++ (name ++ " \x7b")))) =
      some { block := .members, code := { name := tokens name } } := by
  have hhead := h.withoutAccess_tokens ("struct " ++ (name ++ " \x7b"))
    (by rw [tokens_head]; rfl)
  rw [tokens_head] at hhead
  have hsome : tokens (layout.access ++ ("struct " ++ (name ++ " \x7b"))) ≠ [] := by
    intro hnone
    simp [hnone, withoutAccess] at hhead
  simp [step, hsome, outside, hhead]

/-- The lines between the setters and the call are read as the head of `build`. -/
theorem leads_buildHead (h : layout.IsPlain) (recordName : String) (code : BuilderCode) :
    Leads { block := .members, code }
      [layout.pad ++ (layout.access ++ "init() \x7b\x7d"), "",
        layout.pad ++ (layout.access ++ ("func build() -> " ++ (recordName ++ " \x7b")))]
      { block := .build, code } := by
  have hinit := h.withoutAccess_tokens "init() \x7b\x7d" rfl
  have htokens := tokens_build (recordName ++ " \x7b")
  have hbuild := h.withoutAccess_tokens _ (by rw [htokens]; rfl)
  rw [htokens] at hbuild
  refine .cons { block := .members, code } ?_ <| .cons { block := .members, code } rfl <|
    .cons _ ?_ .nil
  · rw [h.tokens_pad, step_members hinit, member, hinit]
    rfl
  · rw [h.tokens_pad, step_members hbuild, member, hbuild]
    rfl

/-- What is read from the lines of a builder: its name, a slot and a setter for each slot, and in
`build` a call of what the record is named, with an argument for each slot. -/
def toCode (spec : BuilderSpec) (name : String) : BuilderCode where
  name := tokens name
  slots := spec.slots.map (·.name)
  setters := spec.slots.map fun slot => setterCode slot.name
  callee := tokens spec.recordName
  arguments := spec.slots.map fun slot => (slot.name, slot.name)

/-- The lines behind the head are read as the members of the builder. -/
theorem leads_members (spec : BuilderSpec) (width : Nat) (name : String)
    (hnames : ∀ slot ∈ spec.slots, Text.isIdentifier slot.name = true) :
    Leads { block := .members, code := { name := tokens name } } (spec.lines width name).tail
      { block := .closed, code := spec.toCode name } := by
  have hplain := isPlain_layout spec width name
  have hslots := leads_slotLines hplain hnames { name := tokens name }
  have hsetters := leads_allSetterLines hplain hnames
    { name := tokens name, slots := spec.slots.map (·.name) }
  have hbuild := leads_buildLines hplain hnames spec.recordName
    { name := tokens name, slots := spec.slots.map (·.name),
      setters := spec.slots.map fun slot => setterCode slot.name } rfl
  have hblank (reading : Reading) :
      Leads reading (if spec.slots.isEmpty then [] else [""]) reading := by
    split
    · exact .nil
    · exact .cons reading rfl .nil
  have hends (code : BuilderCode) :
      Leads { block := .built, code } [(spec.layout width name).pad ++ "\x7d", "\x7d"]
        { block := .closed, code } := by
    refine .cons { block := .members, code } ?_ <| .cons _ rfl .nil
    rw [hplain.tokens_pad]
    rfl
  have hhead := leads_buildHead hplain spec.recordName
    { name := tokens name, slots := spec.slots.map (·.name),
      setters := spec.slots.map fun slot => setterCode slot.name }
  simp only [lines, String.append_assoc, List.cons_append, List.nil_append, List.tail_cons]
  exact ((((hslots.append (hblank _)).append hsetters).append hhead).append hbuild).append (hends _)

theorem ofMembers?_lines (spec : BuilderSpec) (width : Nat) (name : String)
    (hnames : ∀ slot ∈ spec.slots, Text.isIdentifier slot.name = true) :
    BuilderCode.ofMembers? name (spec.lines width name).tail = some (spec.toCode name) := by
  have hread := leads_members spec width name hnames
  rw [Leads] at hread
  rw [BuilderCode.ofMembers?, hread]

theorem ofLines?_lines (spec : BuilderSpec) (width : Nat) (name : String)
    (hnames : ∀ slot ∈ spec.slots, Text.isIdentifier slot.name = true) :
    BuilderCode.ofLines? (spec.lines width name) = some (spec.toCode name) := by
  have hhead := step_head (isPlain_layout spec width name) name
  have hread : Leads {} (spec.lines width name) { block := .closed, code := spec.toCode name } := by
    refine Leads.cons { block := .members, code := { name := tokens name } } ?_
      (leads_members spec width name hnames)
    simpa only [String.append_assoc] using hhead
  rw [Leads] at hread
  rw [BuilderCode.ofLines?, hread]

theorem toList_render_lines (spec : BuilderSpec) (width : Nat) (name : String) :
    (spec.render width name).toList =
      ['\n'].intercalate ((spec.lines width name).map String.toList) := by
  rw [render, String.toList_intercalate]
  rfl

/-- Without line feeds in the lines of a builder the same is read from its text. -/
theorem ofText?_render (spec : BuilderSpec) (width : Nat) (name : String)
    (hnames : ∀ slot ∈ spec.slots, Text.isIdentifier slot.name = true)
    (hlines : ∀ line ∈ spec.lines width name, '\n' ∉ line.toList) :
    BuilderCode.ofText? (spec.render width name) = some (spec.toCode name) := by
  have hback : String.ofList ∘ String.toList = id := funext fun text => String.ofList_toList
  rw [BuilderCode.ofText?, toList_render_lines, List.splitOn_intercalate, List.map_map, hback,
    List.map_id, ofLines?_lines spec width name hnames]
  · simpa using hlines
  · simp [lines]

end BuilderSpec

end FluentBuilder
