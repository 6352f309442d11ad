import FluentBuilder.CommandLine.Run
import FluentBuilder.Data.Reader
import FluentBuilder.Proofs.Source.Answers

/-!
# The exit codes of the commands

For a source that can be read and settings that are valid, every command ends with 0 or 1, whatever
the terminal does with what it is given to show. `exitCodes_exact` says when it is 1: if an error is
reported for a record, or if the command is obstructed. It follows that the three commands agree, on
the code that the reports call for, exactly if there is such a report or if none of them is
obstructed.

What obstructs a command (`Obstructed`) is for the most part that something is not shown to the end.
On a terminal that shows everything (`Tools.ShowsAll`) one thing is left. Where nothing is marked,
`inspect` names the first of the attributes that ask for a builder, and there need not be one.
-/

namespace FluentBuilder

open Syntax Text

namespace CommandLine

/-! ### What obstructs a command -/

/-- A marked line is not shown to its end. -/
def Unshown (console : Console) (line : String) : Prop :=
  ∃ failure, console.print line = .error failure

/-- Where nothing is marked, this cannot be said: there is no attribute to name, or the line that
names it is not shown. -/
def Unsayable (tools : Tools) (settings : Settings) (source : Path) : Prop :=
  match settings.builderAttributes with
  | [] => True
  | first :: _ => Unshown tools.output (noneLine first source)

section

variable (tools : Tools) (settings : Settings) (source : Path) (text : String)

abbrev outlined : Outline :=
  Outline.ofTree settings (SourceText.ofString text) source (tools.parse text)

/-- The answers to what is asked for in the source that a command works on. -/
abbrev answered : List RecordExpansion :=
  ExpandedSource.answers settings (outlined tools settings source text)

/-- What makes a command end with 1, other than a report on a record. -/
inductive Obstructed : Command → Prop
  /-- With the builders in it the source is no text. -/
  | splicing {command : Command} {fault : Utf8.Fault}
      (hspliced : spliced settings (.ofString text) (answered tools settings source text) =
        .error fault) : Obstructed command
  | source {expanded : ExpandedSource} {failure : Failure}
      (hexpanded : ExpandedSource.ofSource settings source text (tools.parse text) = .ok expanded)
      (hecho : tools.echo expanded.source = .error failure) : Obstructed .expand
  | extensions {expanded : ExpandedSource} {failure : Failure}
      (hexpanded : ExpandedSource.ofSource settings source text (tools.parse text) = .ok expanded)
      (hecho : tools.echo (expanded.extensions settings) = .error failure) : Obstructed .generate
  /-- A fault of the source is not shown. To inspect a source in which nothing is marked there is no
  need to. -/
  | fault {command : Command} {place : Location}
      (hplace : place ∈ (outlined tools settings source text).syntaxErrors)
      (hline : Unshown tools.errors (faultLine place))
      (hshown : command = .inspect → answered tools settings source text ≠ []) :
      Obstructed command
  /-- Nothing is marked, which cannot be said. -/
  | absence (hnone : answered tools settings source text = [])
      (hunsayable : Unsayable tools settings source) : Obstructed .inspect
  | table {record : RecordExpansion} {failure : Failure}
      (hrecord : record ∈ answered tools settings source text)
      (htable : tools.output.printTable (fieldTable tools settings record) = .error failure) :
      Obstructed .inspect

end

/-- Everything is shown that there is to show. -/
structure Tools.ShowsAll (tools : Tools) : Prop where
  echo (text : String) : ∃ shown, tools.echo text = .ok shown
  error (line : String) : ∃ shown, tools.errors.print line = .ok shown
  line (line : String) : ∃ shown, tools.output.print line = .ok shown
  table (table : Table) : ∃ shown, tools.output.printTable table = .ok shown

/-! ### Exit codes -/

def Outcome.exitCode : Outcome → Nat
  | .crashed _ report => report.exitCode
  | .finished report => report.exitCode

/-- The exit code is 1 if the condition holds, and otherwise 0. -/
def Outcome.FailsIff (outcome : Outcome) (condition : Prop) : Prop :=
  outcome.exitCode = 1 ∧ condition ∨ outcome.exitCode = 0 ∧ ¬condition

namespace Outcome

variable {outcome : Outcome} {condition other : Prop}

theorem FailsIff.congr (h : outcome.FailsIff condition) (hiff : condition ↔ other) :
    outcome.FailsIff other := by
  rwa [FailsIff, ← hiff]

theorem failsIff_stopped (crash : Crash) (h : condition) : (stopped crash).FailsIff condition :=
  .inl ⟨rfl, h⟩

theorem failsIff_ended (failure : Option Failure) {report : Report}
    (h : (finished report).FailsIff condition) :
    (ended failure report).FailsIff (condition ∨ failure.isSome) := by
  cases failure with
  | some failure => exact .inl ⟨rfl, .inr rfl⟩
  | none => exact h.congr (by simp)

theorem failsIff_ended_one (failure : Option Failure) {report : Report}
    (hcode : report.exitCode = 1) (h : condition) : (ended failure report).FailsIff condition :=
  (failsIff_ended failure (.inl ⟨hcode, h⟩)).congr (or_iff_left_of_imp fun _ => h)

theorem FailsIff.exitCode_le_one (h : outcome.FailsIff condition) : outcome.exitCode ≤ 1 := by
  rcases h with ⟨hcode, -⟩ | ⟨hcode, -⟩ <;> omega

theorem FailsIff.exitCode_eq_one_iff (h : outcome.FailsIff condition) :
    outcome.exitCode = 1 ↔ condition := by
  rcases h with ⟨hcode, h⟩ | ⟨hcode, h⟩ <;> simp [hcode, h]

theorem FailsIff.exitCode_eq_zero_iff (h : outcome.FailsIff condition) :
    outcome.exitCode = 0 ↔ ¬condition := by
  rcases h with ⟨hcode, h⟩ | ⟨hcode, h⟩ <;> simp [hcode, h]

end Outcome

/-! ### Lines and tables -/

/-- Texts in a row are all shown unless one of them fails. -/
theorem isSome_shownUntil (texts : List (Except Failure String)) :
    (shownUntil texts).2.isSome ↔ ∃ text ∈ texts, ∃ failure, text = .error failure := by
  induction texts with
  | nil => simp [shownUntil]
  | cons text rest ih => cases text <;> simp [shownUntil, ih]

/-- The line about some fault of the source is not shown. -/
def FaultHidden (tools : Tools) (settings : Settings) (source : Path) (text : String) : Prop :=
  ∃ place ∈ (outlined tools settings source text).syntaxErrors,
    Unshown tools.errors (faultLine place)

/-- The table of some record is not shown. -/
def TableHidden (tools : Tools) (settings : Settings) (source : Path) (text : String) : Prop :=
  ∃ record ∈ answered tools settings source text, ∃ failure,
    tools.output.printTable (fieldTable tools settings record) = .error failure

section Expanded

variable {tools : Tools} {settings : Settings} {source : Path} {text : String}
  {expanded : ExpandedSource}

/-- Reports fail if an error was reported, or if a line about the expansion is not shown. -/
theorem failsIff_reportOn (tools : Tools) (expanded : ExpandedSource) (stdout : String)
    (write : Option (Path × String)) :
    (reportOn tools expanded stdout write).FailsIff
      (expanded.hasErrors = true ∨
        ∃ line ∈ linesAbout tools expanded, Unshown tools.errors line) := by
  have hlines : (shownUntil ((linesAbout tools expanded).map tools.errors.print)).2.isSome ↔
      ∃ line ∈ linesAbout tools expanded, Unshown tools.errors line := by
    simp only [isSome_shownUntil, List.mem_map, exists_exists_and_eq_and, Unshown]
  rw [← hlines]
  refine Outcome.failsIff_ended _ ?_
  cases expanded.hasErrors <;> simp [Outcome.FailsIff, Outcome.exitCode]

/-- The errors in answers are the reports in them. -/
theorem hasErrors_of_mem_diagnostics
    (hanswers : expanded.expansions = answered tools settings source text) {report : Diagnostic}
    (h : report ∈ expanded.diagnostics) : expanded.hasErrors = true := by
  refine List.any_eq_true.mpr ⟨report, h, beq_iff_eq.mpr ?_⟩
  obtain ⟨record, hrecord, hreport⟩ := List.mem_flatMap.mp h
  exact severe_of_mem_answers (hanswers ▸ hrecord) report hreport

theorem hasErrors_iff (expanded : ExpandedSource) :
    expanded.hasErrors = true ↔
      ∃ record ∈ expanded.expansions, record.expansion.hasErrors = true := by
  simp only [ExpandedSource.hasErrors, ExpandedSource.diagnostics, Expansion.hasErrors,
    List.any_flatMap, List.any_eq_true]

/-- The source of a command, expanded: it holds the answers, and the places of its faults. -/
structure Expands (tools : Tools) (settings : Settings) (source : Path) (text : String)
    (expanded : ExpandedSource) : Prop where
  eq : ExpandedSource.ofSource settings source text (tools.parse text) = .ok expanded
  answers : expanded.expansions = answered tools settings source text
  places : expanded.syntaxErrors = (outlined tools settings source text).syntaxErrors

/-- Of the lines about answers only those about the faults of the source count for the exit code:
where there are others, there is an error. -/
theorem Expands.failsIff_reportOn (h : Expands tools settings source text expanded)
    (stdout : String) (write : Option (Path × String)) :
    (reportOn tools expanded stdout write).FailsIff
      (expanded.hasErrors = true ∨ FaultHidden tools settings source text) := by
  refine (CommandLine.failsIff_reportOn tools expanded stdout write).congr ?_
  rw [FaultHidden, ← h.places]
  constructor
  · rintro (herrors | ⟨line, hline, hunshown⟩)
    · exact .inl herrors
    · rcases List.mem_append.mp hline with hfault | hreport
      · obtain ⟨place, hplace, rfl⟩ := List.mem_map.mp hfault
        exact .inr ⟨place, hplace, hunshown⟩
      · obtain ⟨report, hreport, -⟩ := List.mem_map.mp hreport
        exact .inl (hasErrors_of_mem_diagnostics h.answers hreport)
  · rintro (herrors | ⟨place, hplace, hunshown⟩)
    · exact .inl herrors
    · exact .inr ⟨_, List.mem_append_left _ (List.mem_map_of_mem hplace), hunshown⟩

/-- A command that shows a text as it is fails if this does not succeed, or for the reasons of all
commands. -/
theorem Expands.failsIff_echo (h : Expands tools settings source text expanded) (shown : String) :
    (echoAndReport tools expanded shown).FailsIff
      ((∃ failure, tools.echo shown = .error failure) ∨ expanded.hasErrors = true ∨
        FaultHidden tools settings source text) := by
  unfold echoAndReport
  cases hecho : tools.echo shown with
  | error failure => exact Outcome.failsIff_stopped _ (.inl ⟨failure, rfl⟩)
  | ok stdout => exact (h.failsIff_reportOn stdout none).congr (by simp)

/-! ### Inspection -/

/-- To inspect a source in which nothing is marked fails only if this cannot be said. -/
theorem failsIff_runInspect_nil (hnone : expanded.expansions = []) :
    (runInspect tools settings source expanded).FailsIff (Unsayable tools settings source) := by
  rw [runInspect, hnone]
  dsimp only
  cases hattributes : settings.builderAttributes with
  | nil => exact Outcome.failsIff_stopped _ (by simp [Unsayable, hattributes])
  | cons first rest =>
    have hunsayable : Unsayable tools settings source ↔
        Unshown tools.output (noneLine first source) := by
      rw [Unsayable, hattributes]
    refine Outcome.FailsIff.congr ?_ hunsayable.symm
    dsimp only
    split
    · next line hline => exact .inr ⟨rfl, by simp [Unshown, hline]⟩
    · next failure hline => exact Outcome.failsIff_stopped _ ⟨failure, hline⟩

/-- Otherwise it fails if a table is not shown, or for the reasons of all commands. -/
theorem Expands.failsIff_runInspect (h : Expands tools settings source text expanded)
    (hsome : expanded.expansions ≠ []) :
    (runInspect tools settings source expanded).FailsIff
      ((expanded.hasErrors = true ∨ FaultHidden tools settings source text) ∨
        TableHidden tools settings source text) := by
  have htables : (shownUntil (expanded.expansions.map fun record =>
        tools.output.printTable (fieldTable tools settings record))).2.isSome ↔
      TableHidden tools settings source text := by
    simp only [isSome_shownUntil, List.mem_map, exists_exists_and_eq_and, h.answers, TableHidden]
  rw [← htables, runInspect]
  split
  · next hnone => exact absurd hnone hsome
  · next =>
    dsimp only
    split
    · next hshown => exact (h.failsIff_reportOn _ none).congr (by simp [hshown])
    · next failure hfailed =>
      rw [hfailed]
      exact .inl ⟨rfl, .inr rfl⟩

end Expanded

/-! ### Runs -/

theorem spliced_nil (settings : Settings) (text : String) :
    spliced settings (.ofString text) [] = .ok text := by
  have hbytes : Edit.applyAll (editsOf settings (.ofString text) []) (SourceText.ofString text).bytes =
      Utf8.encode text.toList := by
    simp [editsOf, faultless, Edit.applyAll, SourceText.ofString]
  rw [spliced, hbytes, Utf8.decode_encode]
  simp [Except.map]

section Run

variable {tools : Tools} {command : Command} {source : Path} {config : Option Path}
  {content : List UInt8} {text : String} {settings : Settings} {language : SourceLanguage}

theorem exists_expands (hlanguage : standardFrontends.forPath source = .ok language)
    {result : String}
    (hspliced : spliced settings (.ofString text) (answered tools settings source text) =
      .ok result) :
    ∃ expanded, Expands tools settings source text expanded := by
  cases language
  refine ⟨{ path := source, source := result, expansions := answered tools settings source text,
            syntaxErrors := (outlined tools settings source text).syntaxErrors,
            warnings := (outlined tools settings source text).warnings ++
              missingBodies (answered tools settings source text) }, ?_, rfl, rfl⟩
  simp only [ExpandedSource.ofSource, hlanguage, Except.mapError, bind, Except.bind, hspliced]
  rfl

theorem ofSource_of_spliced_error (hlanguage : standardFrontends.forPath source = .ok language)
    {fault : Utf8.Fault}
    (hspliced : spliced settings (.ofString text) (answered tools settings source text) =
      .error fault) :
    ExpandedSource.ofSource settings source text (tools.parse text) =
      .error (.undecodable fault) := by
  cases language
  simp only [ExpandedSource.ofSource, hlanguage, Except.mapError, bind, Except.bind, hspliced]

/-- What is left to obstruct a command once the source is expanded. -/
theorem Expands.obstructed_iff {expanded : ExpandedSource} {result : String}
    (h : Expands tools settings source text expanded)
    (hspliced : spliced settings (.ofString text) (answered tools settings source text) =
      .ok result) (command : Command) :
    Obstructed tools settings source text command ↔
      FaultHidden tools settings source text ∧
        (command = .inspect → expanded.expansions ≠ []) ∨
      match command with
      | .expand => ∃ failure, tools.echo expanded.source = .error failure
      | .generate => ∃ failure, tools.echo (expanded.extensions settings) = .error failure
      | .inspect =>
        expanded.expansions = [] ∧ Unsayable tools settings source ∨
          TableHidden tools settings source text := by
  rw [h.answers]
  constructor
  · intro hobstructed
    cases hobstructed with
    | splicing hfailed => simp [hspliced] at hfailed
    | source hexpanded hecho =>
      obtain rfl := Except.ok.inj (h.eq.symm.trans hexpanded)
      exact .inr ⟨_, hecho⟩
    | extensions hexpanded hecho =>
      obtain rfl := Except.ok.inj (h.eq.symm.trans hexpanded)
      exact .inr ⟨_, hecho⟩
    | fault hplace hline hshown => exact .inl ⟨⟨_, hplace, hline⟩, hshown⟩
    | absence hnone hunsayable => exact .inr (.inl ⟨hnone, hunsayable⟩)
    | table hrecord htable => exact .inr (.inr ⟨_, hrecord, _, htable⟩)
  · rintro (⟨⟨place, hplace, hline⟩, hshown⟩ | hother)
    · exact .fault hplace hline hshown
    cases command with
    | expand => exact hother.elim fun _ => .source h.eq
    | generate => exact hother.elim fun _ => .extensions h.eq
    | inspect =>
      rcases hother with ⟨hnone, hunsayable⟩ | ⟨record, hrecord, failure, htable⟩
      · exact .absence hnone hunsayable
      · exact .table hrecord htable

/-- A command fails if an error is reported for a record, or if it is obstructed. -/
theorem failsIff_run (hsettings : loadSettings tools (config.getD defaultConfig) = .ok settings)
    (hsource : tools.find source = .file content) (htext : textOf content = .ok text)
    (hlanguage : standardFrontends.forPath source = .ok language) (command : Command) :
    (({ command, source, config } : Invocation).run tools).FailsIff
      ((∃ record ∈ answered tools settings source text, record.expansion.hasErrors = true) ∨
        Obstructed tools settings source text command) := by
  have hloaded : ({ command, source, config } : Invocation).settings tools = .ok settings := by
    rw [Invocation.settings, hsettings]
    rfl
  rw [Invocation.run, hloaded]
  simp only [expandFile, hsource, htext, Except.mapError, bind, Except.bind]
  cases hspliced : spliced settings (.ofString text) (answered tools settings source text) with
  | error fault =>
    rw [ofSource_of_spliced_error hlanguage hspliced]
    exact Outcome.failsIff_ended_one _ rfl (.inr (.splicing hspliced))
  | ok result =>
  obtain ⟨expanded, h⟩ := exists_expands hlanguage hspliced
  rw [h.eq, h.obstructed_iff hspliced, ← h.answers, ← hasErrors_iff]
  dsimp only
  cases command with
  | expand =>
    refine (h.failsIff_echo expanded.source).congr ?_
    simp only [reduceCtorEq, false_imp_iff, and_true]
    exact or_comm.trans or_assoc
  | generate =>
    refine (h.failsIff_echo (expanded.extensions settings)).congr ?_
    simp only [reduceCtorEq, false_imp_iff, and_true]
    exact or_comm.trans or_assoc
  | inspect =>
    by_cases hnone : expanded.expansions = []
    · refine (failsIff_runInspect_nil hnone).congr ?_
      have herrors : ¬expanded.hasErrors = true := by simp [hasErrors_iff, hnone]
      have htable : ¬TableHidden tools settings source text := by
        simp [TableHidden, ← h.answers, hnone]
      simp [hnone, herrors, htable]
    · refine (h.failsIff_runInspect hnone).congr ?_
      rw [h.answers] at hnone
      simp [hnone, h.answers, or_assoc]

/-- Where everything is shown and the source can be put together again, the only thing that
obstructs a command is that `inspect` has no attribute to name. -/
theorem Tools.ShowsAll.obstructed_iff (hshows : tools.ShowsAll)
    (hlanguage : standardFrontends.forPath source = .ok language) {result : String}
    (hspliced : spliced settings (.ofString text) (answered tools settings source text) =
      .ok result) (command : Command) :
    Obstructed tools settings source text command ↔
      command = .inspect ∧ answered tools settings source text = [] ∧
        settings.builderAttributes = [] := by
  obtain ⟨expanded, h⟩ := exists_expands hlanguage hspliced
  have hfault : ¬FaultHidden tools settings source text := by
    rintro ⟨place, -, hline⟩
    obtain ⟨_, hshown⟩ := hshows.error (faultLine place)
    simp [Unshown, hshown] at hline
  have hecho (shown : String) : ¬∃ failure, tools.echo shown = .error failure := by
    obtain ⟨_, hshown⟩ := hshows.echo shown
    simp [hshown]
  have htable : ¬TableHidden tools settings source text := by
    rintro ⟨record, -, failure, hfailed⟩
    obtain ⟨_, hshown⟩ := hshows.table (fieldTable tools settings record)
    simp [hshown] at hfailed
  have hunsayable : Unsayable tools settings source ↔ settings.builderAttributes = [] := by
    unfold Unsayable
    cases settings.builderAttributes with
    | nil => simp
    | cons first rest =>
      obtain ⟨_, hshown⟩ := hshows.line (noneLine first source)
      simp [Unshown, hshown]
  rw [h.obstructed_iff hspliced, h.answers]
  cases command <;> simp [hfault, hecho, htable, hunsayable]

/-- **The exit codes of the commands.** For a source that can be read, in a language that is known,
and settings that are valid, a command ends with 1 if an error is reported for a record or if the
command is obstructed, and otherwise with 0. All commands end with the code that the reports call
for exactly if it is 1 or nothing obstructs any of them. Where everything is shown and the source
can be put together again, this is so unless nothing is marked and no attribute asks for a
builder. -/
theorem exitCodes_exact (tools : Tools) (source : Path) (config : Option Path)
    (content : List UInt8) (text : String) (settings : Settings) (language : SourceLanguage)
    (hsettings : loadSettings tools (config.getD defaultConfig) = .ok settings)
    (hsource : tools.find source = .file content) (htext : textOf content = .ok text)
    (hlanguage : standardFrontends.forPath source = .ok language) :
    let answers := answered tools settings source text
    let failed := answers.any (·.expansion.hasErrors)
    let code (command : Command) :=
      (({ command, source, config } : Invocation).run tools).exitCode
    (∀ command, code command ≤ 1 ∧ (code command = 1 ↔
      failed = true ∨ Obstructed tools settings source text command)) ∧
    ((∀ command, code command = if failed then 1 else 0) ↔
      failed = true ∨ ∀ command, ¬Obstructed tools settings source text command) ∧
    (tools.ShowsAll → (∃ result, spliced settings (.ofString text) answers = .ok result) →
      ((∀ command, code command = if failed then 1 else 0) ↔
        answers ≠ [] ∨ settings.builderAttributes ≠ [])) := by
  intro answers failed code
  have hfailed : failed = true ↔ ∃ record ∈ answers, record.expansion.hasErrors = true :=
    List.any_eq_true
  have hcode (command : Command) :
      (({ command, source, config } : Invocation).run tools).FailsIff
        (failed = true ∨ Obstructed tools settings source text command) := by
    rw [hfailed]
    exact failsIff_run hsettings hsource htext hlanguage command
  have hagree : (∀ command, code command = if failed then 1 else 0) ↔
      failed = true ∨ ∀ command, ¬Obstructed tools settings source text command := by
    cases hreported : failed with
    | true => simpa [hreported] using fun command => (hcode command).exitCode_eq_one_iff
    | false =>
      simpa [hreported] using forall_congr' fun command => (hcode command).exitCode_eq_zero_iff
  refine ⟨fun command => ⟨(hcode command).exitCode_le_one, (hcode command).exitCode_eq_one_iff⟩,
    hagree, fun hshows ⟨result, hspliced⟩ => hagree.trans ?_⟩
  simp only [hshows.obstructed_iff hlanguage hspliced]
  have hanswered : failed = true → answers ≠ [] := by
    rintro hreported hnone
    simp [failed, hnone] at hreported
  constructor
  · rintro (hreported | hunobstructed)
    · exact .inl (hanswered hreported)
    · exact not_and_or.mp fun h => hunobstructed .inspect ⟨rfl, h⟩
  · rintro hsome
    exact .inr fun command h => not_and_or.mpr hsome h.2

end Run

/-! ### A source without marks -/

/-- A struct without a mark. -/
def unmarkedText : String := "struct A \x7b\x7d"

def unmarkedTree : Node where
  kind := "source_file"
  start := 0
  stop := 11
  children :=
    [{ kind := "class_declaration", start := 0, stop := 11,
        children :=
          [{ kind := "struct", start := 0, stop := 6, role := some "declaration_kind",
              isNamed := false },
            { kind := "type_identifier", start := 7, stop := 8, role := some "name" },
            { kind := "class_body", start := 9, stop := 11, role := some "body",
              children :=
                [{ kind := "\x7b", start := 9, stop := 10, isNamed := false },
                  { kind := "\x7d", start := 10, stop := 11, isNamed := false }] }] }]

/-- A console that shows nothing. -/
def quietConsole : Console where
  print _ := .ok ""
  printTable _ := .ok ""

/-- That source, and a configuration in which no attribute asks for a builder. -/
def unmarkedTools : Tools where
  find := Workspace.find
    { files :=
        [(["Source.swift"], Utf8.encode unmarkedText.toList),
          (["addbuilder.yaml"], Utf8.encode "\x7b\"builder_attributes\": []\x7d".toList)] }
  parse _ := unmarkedTree
  readData text :=
    match Data.ofString? text with
    | some data => .ok data
    | none => .error "ParserError"
  escape := id
  echo := .ok
  output := quietConsole
  errors := quietConsole

def unmarkedOutcome (command : Command) : Outcome :=
  ({ command, source := ExpandedSource.defaultPath } : Invocation).run unmarkedTools

def unmarkedAnswers : List RecordExpansion :=
  answered unmarkedTools { builderAttributes := [] } ExpandedSource.defaultPath unmarkedText

theorem showsAll_unmarkedTools : unmarkedTools.ShowsAll :=
  ⟨fun text => ⟨text, rfl⟩, fun _ => ⟨"", rfl⟩, fun _ => ⟨"", rfl⟩, fun _ => ⟨"", rfl⟩⟩

theorem loadSettings_unmarkedTools :
    loadSettings unmarkedTools defaultConfig = .ok { builderAttributes := [] } := by
  have hloaded : (loadSettings unmarkedTools defaultConfig).toOption =
      some { builderAttributes := [] } := by
    decide +kernel
  cases hresult : loadSettings unmarkedTools defaultConfig <;> simp_all [Except.toOption]

theorem exitCodes_exact_unmarked :
    loadSettings unmarkedTools defaultConfig = .ok { builderAttributes := [] } ∧
    unmarkedTools.find ExpandedSource.defaultPath = .file (Utf8.encode unmarkedText.toList) ∧
    textOf (Utf8.encode unmarkedText.toList) = .ok unmarkedText ∧
    standardFrontends.forPath ExpandedSource.defaultPath = .ok .swift ∧
    unmarkedAnswers.any (·.expansion.hasErrors) = false ∧
    ¬∀ command, (unmarkedOutcome command).exitCode = 0 := by
  have hsource : unmarkedTools.find ExpandedSource.defaultPath =
      .file (Utf8.encode unmarkedText.toList) := by
    decide +kernel
  have htext : textOf (Utf8.encode unmarkedText.toList) = .ok unmarkedText := by decide +kernel
  have hlanguage : standardFrontends.forPath ExpandedSource.defaultPath = .ok .swift := by
    decide +kernel
  have hnone : unmarkedAnswers = [] := List.isEmpty_iff.mp (by decide +kernel)
  have hfailed : unmarkedAnswers.any (·.expansion.hasErrors) = false := by simp [hnone]
  have hspliced : ∃ result, spliced { builderAttributes := [] } (.ofString unmarkedText)
      unmarkedAnswers = .ok result := by
    rw [hnone]
    exact ⟨unmarkedText, spliced_nil _ _⟩
  refine ⟨loadSettings_unmarkedTools, hsource, htext, hlanguage, hfailed, fun hagree => ?_⟩
  have hexact : (∀ command, (unmarkedOutcome command).exitCode =
        if unmarkedAnswers.any (·.expansion.hasErrors) then 1 else 0) ↔
      unmarkedAnswers ≠ [] ∨ ([] : List String) ≠ [] :=
    (exitCodes_exact unmarkedTools ExpandedSource.defaultPath none _ unmarkedText
      { builderAttributes := [] } .swift loadSettings_unmarkedTools hsource htext hlanguage).2.2
      showsAll_unmarkedTools hspliced
  rw [hfailed, hnone] at hexact
  rcases hexact.mp hagree with hsome | hsome <;> exact hsome rfl

/-- Where no attribute asks for a builder, nothing is marked and no error is reported, and yet the
commands do not agree. -/
theorem exitCodes_differ :
    (loadSettings unmarkedTools defaultConfig).toOption = some { builderAttributes := [] } ∧
    unmarkedTools.ShowsAll ∧ unmarkedAnswers.any (·.expansion.hasErrors) = false ∧
    (unmarkedOutcome .expand).exitCode = 0 ∧ (unmarkedOutcome .generate).exitCode = 0 ∧
    (unmarkedOutcome .inspect).exitCode = 1 := by
  refine ⟨by decide +kernel, showsAll_unmarkedTools, ?_⟩
  decide +kernel

end CommandLine

end FluentBuilder
