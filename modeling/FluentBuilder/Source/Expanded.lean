import FluentBuilder.Delegation
import FluentBuilder.Frontends
import FluentBuilder.Source.Edit
import FluentBuilder.Source.Outline
import FluentBuilder.Text.Lines

/-!
A source with the requests in it answered: every marked struct gets its builder before its closing
brace and loses its marks, unless an error is reported for it.
-/

namespace FluentBuilder

open Text

/-- A declaration in a source, and the answer to its request. -/
structure RecordExpansion where
  site : RecordSite
  expansion : Expansion

/-- The name of the declaration, with those of the types around it. -/
def RecordExpansion.name (self : RecordExpansion) : String :=
  if self.site.qualifiedName == "" then self.site.declaration.name else self.site.qualifiedName

/-! ### Answers -/

def RecordSite.toRequest (site : RecordSite) : Request where
  declaration := site.declaration
  kind := (site.request.map (·.1)).getD .addBuilder
  location := site.request.map (·.2)

/-- The answer to the request of a declaration; a field without a default is reported. -/
def RecordSite.expand (settings : Settings) (site : RecordSite) : RecordExpansion :=
  match site.toRequest.expand settings with
  | .ok expansion => { site, expansion }
  | .error error =>
    { site, expansion :=
        .diagnosed (.unsupportedType site.declaration.name error (site.request.map (·.2))) }

/-! ### Cycles -/

/-- Which of the generated builders call each other. -/
def delegationGraph (expansions : List RecordExpansion) : DelegationGraph :=
  expansions.foldl (fun graph record =>
    match record.expansion.spec? with
    | some spec => graph.add record.site.declaration.name spec.delegates
    | none => graph) {}

/-- The answer with its builder rejected, if the record lies on a cycle. -/
def RecordExpansion.rejectIn (cycles : List (String × List String)) (record : RecordExpansion) :
    RecordExpansion :=
  let name := record.site.declaration.name
  match record.expansion.spec?, cycles.lookup name with
  | some _, some (first :: rest) =>
    { record with expansion :=
        .diagnosed (.cyclicDefault name first rest (record.site.request.map (·.2))) }
  | _, _ => record

/-- The answers without the builders that would make each other forever. -/
def rejectCycles (expansions : List RecordExpansion) : List RecordExpansion :=
  let cycles := (delegationGraph expansions).recordsInCycles
  expansions.map (·.rejectIn cycles)

/-! ### Edits -/

/-- Whether a byte is one of the blanks in front of a closing brace. -/
def isLayoutByte (b : UInt8) : Bool := b == 32 || b == 9 || b == 13 || b == 10

/-- The spaces of one level of indentation. -/
def Settings.pad (settings : Settings) : String :=
  String.ofList (List.replicate settings.indentWidth ' ')

/-- A declaration as it stands before the closing brace of another. -/
def nested (settings : Settings) (site : RecordSite) (declaration : String) : String :=
  "\n" ++ indent (site.indent ++ settings.pad) declaration ++ "\n" ++ site.indent

def insertion (settings : Settings) (source : SourceText) (site : RecordSite) (stop : Nat)
    (declaration : String) : Edit :=
  let before := source.bytes.take stop
  let blanks := (before.reverse.takeWhile isLayoutByte).length
  { span := ⟨stop - blanks, stop⟩
    replacement := Utf8.encode (nested settings site declaration).toList }

/-- The edits that put the builder of a declaration in its place. -/
def insertionsOf (settings : Settings) (source : SourceText) (record : RecordExpansion) :
    List Edit :=
  match record.site.bodyStop with
  | some stop => record.expansion.declarations.map (insertion settings source record.site stop)
  | none => []

/-- The answers without an error. -/
def faultless (expansions : List RecordExpansion) : List RecordExpansion :=
  expansions.filter fun record => !record.expansion.hasErrors

/-- The edits that put all answers without an error in place. -/
def editsOf (settings : Settings) (source : SourceText) (expansions : List RecordExpansion) :
    List Edit :=
  let records := faultless expansions
  records.flatMap (insertionsOf settings source) ++
    (records.flatMap (·.site.strips)).eraseDups.map fun span => { span := span }

/-- The warnings about builders that have no place to go. -/
def missingBodies (expansions : List RecordExpansion) : List Warning :=
  (faultless expansions).flatMap fun record =>
    match record.site.bodyStop with
    | some _ => []
    | none => record.expansion.declarations.map fun _ => .noBody record.site.declaration.name

/-- The source with all answers without an error put in place. -/
def spliced (settings : Settings) (source : SourceText) (expansions : List RecordExpansion) :
    Except Utf8.Fault String :=
  (Utf8.decode (Edit.applyAll (editsOf settings source expansions) source.bytes)).map String.ofList

/-! ### Sources -/

inductive SourceLanguage where
  | swift
deriving Repr, DecidableEq

def SourceLanguage.name : SourceLanguage → String
  | .swift => "swift"

def SourceLanguage.suffixes : SourceLanguage → List String
  | .swift => [".swift", ".swiftinterface"]

/-- The languages by file suffix. -/
def standardFrontends : Frontends SourceLanguage :=
  let language := SourceLanguage.swift
  ({} : Frontends SourceLanguage).register language.name language.suffixes language

/-- A source with the requests in it answered. -/
structure ExpandedSource where
  path : Path
  source : String
  expansions : List RecordExpansion
  syntaxErrors : List Location
  warnings : List Warning

/-- Why a source cannot be expanded. -/
inductive ExpansionError where
  /-- Its language is not known. -/
  | noFrontend (error : NoFrontend)
  /-- After the edits its bytes are no text. -/
  | undecodable (fault : Utf8.Fault)
deriving Repr

def ExpansionError.message : ExpansionError → String
  | .noFrontend error => error.message
  | .undecodable fault => fault.message

namespace ExpandedSource

def diagnostics (self : ExpandedSource) : List Diagnostic :=
  self.expansions.flatMap (·.expansion.diagnostics)

def declarations (self : ExpandedSource) : List String :=
  self.expansions.flatMap (·.expansion.declarations)

def hasErrors (self : ExpandedSource) : Bool := self.diagnostics.any (·.severity == .error)

/-- The answers to the requests in an outline. -/
def answers (settings : Settings) (outline : Outline) : List RecordExpansion :=
  let expansions := outline.requested.map (·.expand settings)
  if settings.detectCycles then rejectCycles expansions else expansions

/-- The name of a source that was given none. -/
def defaultPath : Path := .ofString "Source.swift"

/-- A source with the given syntax tree, expanded. -/
def ofSource (settings : Settings) (path : Path) (source : String) (root : Syntax.Node) :
    Except ExpansionError ExpandedSource := do
  let .swift ← (standardFrontends.forPath path).mapError .noFrontend
  let text := SourceText.ofString source
  let outline := Outline.ofTree settings text path root
  let expansions := answers settings outline
  let result ← (spliced settings text expansions).mapError .undecodable
  return {
    path
    source := result
    expansions
    syntaxErrors := outline.syntaxErrors
    warnings := outline.warnings ++ missingBodies expansions }

def extensions (self : ExpandedSource) (settings : Settings) : String :=
  let blocks := self.expansions.flatMap fun record =>
    record.expansion.declarations.map fun declaration =>
      "extension " ++ record.name ++ " \x7b\n" ++ indent settings.pad declaration ++ "\n\x7d"
  "\n\n".intercalate blocks ++ (if blocks.isEmpty then "" else "\n")

end ExpandedSource

end FluentBuilder
