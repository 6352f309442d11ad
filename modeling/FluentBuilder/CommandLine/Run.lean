import FluentBuilder.CommandLine.Tools
import FluentBuilder.Source.Expanded

/-!
Running a command: from its arguments and what it is given from outside to what it shows and writes.
-/

namespace FluentBuilder.CommandLine

open Text

/-! ### Invocations -/

inductive Command where
  /-- Shows or writes the source with the builders in it. -/
  | expand
  /-- Shows the builders alone. -/
  | generate
  /-- Shows the fields and their defaults. -/
  | inspect
deriving Repr, DecidableEq

structure Invocation where
  command : Command
  source : Path
  /-- Where the source with the builders in it is written, instead of being shown. -/
  output : Option Path := none
  config : Option Path := none
  /-- The width of the indentation, at least one. -/
  indent : Option Nat := none
deriving Repr, DecidableEq

/-! ### Outcomes -/

/-- Why a command stops before its end. -/
inductive Crash where
  | settings (error : Settings.Error)
  /-- The configuration is no object. -/
  | notAnObject
  | undecodableConfig (fault : Utf8.Fault)
  | isDirectory (path : Path)
  /-- A file stands where a directory is needed. -/
  | behindFile (path : Path)
  /-- The directory of a file is missing. -/
  | noDirectory (path : Path)
  /-- There is no attribute to name. -/
  | noAttribute
  /-- Something outside has failed. -/
  | failed (failure : Failure)
deriving Repr

/-- What a command shows and writes. -/
structure Report where
  exitCode : Nat
  stdout : String := ""
  stderr : String := ""
  write : Option (Path × String) := none
deriving Repr

inductive Outcome where
  /-- The command stops, after it has shown and written what the report says. -/
  | crashed (crash : Crash) (report : Report)
  | finished (report : Report)
deriving Repr

/-- A command stops before it has shown anything. -/
def Outcome.stopped (crash : Crash) : Outcome := .crashed crash { exitCode := 1 }

/-- A command ends with a report, unless something has failed on the way. -/
def Outcome.ended (failure : Option Failure) (report : Report) : Outcome :=
  match failure with
  | none => .finished report
  | some failure => .crashed (.failed failure) { report with exitCode := 1 }

/-! ### Lines -/

/-- A marked text in a style. -/
def styled (style text : String) : String := "[" ++ style ++ "]" ++ text ++ "[/" ++ style ++ "]"

/-- A text that shows as it is, in the style of errors. -/
def errorText (tools : Tools) (text : String) : String := styled "red" (tools.escape text)

/-- The line about a fault of a source. -/
def faultLine (place : Location) : String :=
  styled "yellow" "warning:" ++ " syntax error at " ++ place.render

def reportLine (tools : Tools) (report : Diagnostic) : String :=
  styled (if report.severity == .error then "red" else "yellow") (tools.escape report.render)

/-- The line that says that no declaration has the attribute. -/
def noneLine (name : String) (source : Path) : String :=
  styled "yellow" ("No @" ++ name ++ " declarations in " ++ source.toString)

/-- The texts in a row up to the first that fails. -/
def shownUntil : List (Except Failure String) → String × Option Failure
  | [] => ("", none)
  | .error failure :: _ => ("", some failure)
  | .ok text :: rest =>
    let (more, failure) := shownUntil rest
    (text ++ more, failure)

/-! ### Files -/

/-- The text with a line feed for every end of line. -/
def unifyLines : List Char → List Char
  | [] => []
  | '\r' :: '\n' :: rest => '\n' :: unifyLines rest
  | '\r' :: rest => '\n' :: unifyLines rest
  | c :: rest => c :: unifyLines rest

def textOf (content : List UInt8) : Except Utf8.Fault String :=
  (Utf8.decode content).map fun text => String.ofList (unifyLines text)

def defaultConfig : Path := .ofString "addbuilder.yaml"

/-- Whether data are as good as nothing. -/
def isVoid : Data → Bool
  | .null => true
  | .bool value => !value
  | .integer value => value == 0
  | .real value => value.toBinary == .finite 0 Decimal.Binary.minExponent
  | .text value => value == ""
  | .list items => items.isEmpty
  | .object entries => entries.isEmpty

def settingsOf (data : Data) : Except Crash Settings :=
  if isVoid data then .ok {}
  else
    match data with
    | .object entries => (Settings.ofEntries entries).mapError .settings
    | _ => .error .notAnObject

/-- The settings in a configuration file; without the file they are the standard ones. -/
def loadSettings (tools : Tools) (path : Path) : Except Crash Settings :=
  match tools.find path with
  | .missing | .behindFile => .ok {}
  | .directory => .error (.isDirectory path)
  | .file content => do
    let text ← (textOf content).mapError .undecodableConfig
    let data ← (tools.readData text).mapError .failed
    settingsOf data

def Invocation.settings (self : Invocation) (tools : Tools) : Except Crash Settings := do
  let settings ← loadSettings tools (self.config.getD defaultConfig)
  match self.indent with
  | some width => return { settings with indentWidth := width }
  | none => return settings

inductive FileError where
  | unreadable (path : Path)
  | undecodable (fault : Utf8.Fault)
  | expansion (error : ExpansionError)
deriving Repr

def FileError.message : FileError → String
  | .unreadable path => "Unable to read " ++ path.toString
  | .undecodable fault => fault.message
  | .expansion error => error.message

def expandFile (tools : Tools) (settings : Settings) (path : Path) :
    Except FileError ExpandedSource :=
  match tools.find path with
  | .file content => do
    let text ← (textOf content).mapError .undecodable
    (ExpandedSource.ofSource settings path text (tools.parse text)).mapError .expansion
  | _ => .error (.unreadable path)

/-- Why a text cannot be written to a path. -/
def writeCrash? (tools : Tools) (path : Path) : Option Crash :=
  match tools.find path with
  | .file _ => none
  | .directory => some (.isDirectory path)
  | .behindFile => some (.behindFile path)
  | .missing =>
    match tools.find path.parent with
    | .directory => none
    | _ => some (.noDirectory path)

/-! ### Commands -/

/-- The lines about an expansion: the faults of its source and the reports on its declarations. -/
def linesAbout (tools : Tools) (expanded : ExpandedSource) : List String :=
  expanded.syntaxErrors.map faultLine ++ expanded.diagnostics.map (reportLine tools)

/-- Ends a command whose output has been shown with what there is to say about the expansion. -/
def reportOn (tools : Tools) (expanded : ExpandedSource) (stdout : String)
    (write : Option (Path × String)) : Outcome :=
  let (stderr, failure) := shownUntil ((linesAbout tools expanded).map tools.errors.print)
  .ended failure { exitCode := if expanded.hasErrors then 1 else 0, stdout, stderr, write }

/-- Shows a text as it is, and ends the command. -/
def echoAndReport (tools : Tools) (expanded : ExpandedSource) (text : String) : Outcome :=
  match tools.echo text with
  | .ok stdout => reportOn tools expanded stdout none
  | .error failure => .stopped (.failed failure)

def runExpand (tools : Tools) (expanded : ExpandedSource) : Option Path → Outcome
  | none => echoAndReport tools expanded expanded.source
  | some path =>
    match writeCrash? tools path with
    | some crash => .stopped crash
    | none =>
      let write := some (path, expanded.source)
      match tools.output.print (styled "green" "Wrote" ++ " " ++ path.toString) with
      | .ok line => reportOn tools expanded line write
      | .error failure => .crashed (.failed failure) { exitCode := 1, write }

def runGenerate (tools : Tools) (settings : Settings) (expanded : ExpandedSource) : Outcome :=
  echoAndReport tools expanded (expanded.extensions settings)

/-- The cells of a field: its name, its type and its default, or why it has none. -/
def fieldRow (tools : Tools) (resolution : Resolution) : List String :=
  [resolution.field.name,
    tools.escape resolution.field.type.render,
    match resolution.value with
    | .ok expression => tools.escape expression
    | .error error => errorText tools error.message]

/-- The table of a declaration: its stored fields and their defaults, found anew. -/
def fieldTable (tools : Tools) (settings : Settings) (record : RecordExpansion) : Table :=
  let declaration := record.site.declaration
  let rules := DefaultRules.ofSettings settings declaration.genericParameters
  { title := record.name ++ " (" ++ declaration.kind ++ ")"
    columns := [{ title := "Field", style := "cyan" }, { title := "Type" }, { title := "Default" }]
    rows := (BuilderSpec.resolve rules declaration.fields).1.map (fieldRow tools) }

/-- Shows a table for each declaration that asks for something. -/
def runInspect (tools : Tools) (settings : Settings) (source : Path) (expanded : ExpandedSource) :
    Outcome :=
  match expanded.expansions with
  | [] =>
    match settings.builderAttributes with
    | [] => .stopped .noAttribute
    | first :: _ =>
      match tools.output.print (noneLine first source) with
      | .ok line => .finished { exitCode := 0, stdout := line }
      | .error failure => .stopped (.failed failure)
  | records =>
    let (stdout, failure) := shownUntil <| records.map fun record =>
      tools.output.printTable (fieldTable tools settings record)
    match failure with
    | none => reportOn tools expanded stdout none
    | some failure => .crashed (.failed failure) { exitCode := 1, stdout }

def Invocation.run (self : Invocation) (tools : Tools) : Outcome :=
  match self.settings tools with
  | .error crash => .stopped crash
  | .ok settings =>
    match expandFile tools settings self.source with
    | .error error =>
      let (stderr, failure) := shownUntil [tools.errors.print (errorText tools error.message)]
      .ended failure { exitCode := 1, stderr }
    | .ok expanded =>
      match self.command with
      | .expand => runExpand tools expanded self.output
      | .generate => runGenerate tools settings expanded
      | .inspect => runInspect tools settings self.source expanded

end FluentBuilder.CommandLine
