import FluentBuilder.Expansion
import FluentBuilder.Source.Text
import FluentBuilder.Source.Warning
import FluentBuilder.Syntax.Annotation
import FluentBuilder.Syntax.Tree
import FluentBuilder.TypeExpr.Reader

/-!
The outline of a source: the types that it declares, with their members, with the requests for
builders that their attributes make, and with the byte ranges needed to answer these in place. It
is read from the nodes of a syntax tree; what the tree leaves open is read from their text.
-/

namespace FluentBuilder

open Syntax Text

/-! ### Nodes -/

def typeNodes : List String :=
  ["class_declaration", "struct_declaration", "enum_declaration", "protocol_declaration",
    "actor_declaration"]

def propertyNodes : List String :=
  ["property_declaration", "variable_declaration", "constant_declaration"]

/-- The nodes that hold a name. -/
def nameNodes : List String := ["identifier", "type_identifier", "simple_identifier"]

namespace SourceText

def textOf (source : SourceText) (node : Node) : Except Unreadable (List Char) :=
  (Utf8.decode (source.slice node.start node.stop)).mapError .undecodable

/-- The name in a declaration: the child that is its name, or else the first that holds one. -/
def nameOf (source : SourceText) (node : Node) : Except Unreadable (Option (List Char)) :=
  let child := (node.childByRole? "name").or (node.children.find? (nameNodes.contains ·.kind))
  match child with
  | some child => (source.textOf child).map some
  | none => .ok none

/-- The names of the types around a node, the outermost last. Types without a name do not
count. -/
def namesOf (source : SourceText) : List Node → Except Unreadable (List String)
  | [] => .ok []
  | node :: rest =>
    if typeNodes.contains node.kind then do
      let name ← source.nameOf node
      let names ← source.namesOf rest
      match name with
      | some (c :: chars) => return String.ofList (unticked (c :: chars)) :: names
      | _ => return names
    else source.namesOf rest

end SourceText

def Syntax.Node.body? (node : Node) : Option Node :=
  (node.childByRole? "body").or
    (node.children.find? fun child => "_body".toList.isSuffixOf child.kind.toList)

/-! ### Members -/

/-- The modifiers of members that belong to the type itself. -/
def staticModifiers : List String := ["static", "class"]

/-- The observers that a stored property can have in braces. -/
def observers : List String := ["willSet", "didSet"]

/-- A member of a declaration, with the spans of the attributes that give its default. -/
structure MemberSite where
  member : Member
  strips : List Span := []

/-- A type by its annotation, verbatim if it cannot be read; no text, no type. -/
def annotatedType (text : String) : Option TypeExpr :=
  if text == "" then none
  else
    match TypeExpr.ofString text with
    | .ok type => some type
    | .error _ => some (.verbatim text)

/-- Whether the braces after an annotation compute the value: those of a stored property start with
an observer. -/
def computes (text : List Char) : Bool :=
  match skipTrivia text with
  | '\x7b' :: rest =>
    match word? (skipTrivia rest) with
    | some (word, _) => !observers.contains (String.ofList word)
    | none => true
  | _ => false

/-- The member with the name and the annotation that follow its keyword. -/
def readBinding (member : Member) (text : List Char) : Member :=
  match word? (skipTrivia text) with
  | none => member
  | some (word, rest) =>
    let member := { member with name := some (String.ofList (unticked word)) }
    match skipTrivia rest with
    | ':' :: rest =>
      let (typeText, rest) := annotation rest
      { member with type := annotatedType typeText, isComputed := computes rest }
    | _ => member

/-- The attributes of a head that give a default, with it. -/
def givenDefaults (settings : Settings) (head : Head) : List (Attribute × String) :=
  head.attributes.filterMap fun mark =>
    if settings.defaultAttributes.contains mark.name then
      mark.defaultArgument.map fun expression => (mark, expression)
    else none

/-- The member that a property declaration declares, and a warning if its head cannot be read:
the member then has no name. -/
def memberSite (settings : Settings) (source : SourceText) (path : Path) (node : Node) :
    Except Unreadable (MemberSite × Option Warning) := do
  let text ← source.textOf node
  let location := source.locate path node.start text 0
  match head bindingKeywords text with
  | .error error =>
    return ({ member := { location := some location } },
      some (.unreadableMember location (.unbalanced error)))
  | .ok head =>
    let defaults := givenDefaults settings head
    let member : Member := {
      givenDefault := (defaults.head?).map (·.2)
      isMutable := head.keyword == some "var"
      isStatic := head.modifiers.any staticModifiers.contains
      location := some location }
    let strips := defaults.map fun (mark, _) =>
      source.spanIn node.start text mark.start mark.stop
    let member := if head.keyword.isSome then readBinding member (text.drop head.stop) else member
    return ({ member, strips }, none)

/-- The members that some nodes declare, or why one of them cannot be read, with the warnings up
to there. -/
def memberSites (settings : Settings) (source : SourceText) (path : Path) :
    List Node → Except Unreadable (List MemberSite) × List Warning
  | [] => (.ok [], [])
  | node :: rest =>
    match memberSite settings source path node with
    | .error reason => (.error reason, [])
    | .ok (site, warning) =>
      let (sites, warnings) := memberSites settings source path rest
      (sites.map (site :: ·), warning.toList ++ warnings)

/-! ### Declarations -/

/-- A declaration in a source, with what is needed to answer its request in place. -/
structure RecordSite where
  declaration : Declaration
  /-- Where the declaration starts. -/
  location : Location
  /-- What its first marking attribute asks for, and where. -/
  request : Option (RequestKind × Location) := none
  /-- The attributes that go once the request is answered. -/
  strips : List Span := []
  /-- The offset of the closing brace. -/
  bodyStop : Option Nat := none
  indent : String := ""
  qualifiedName : String := ""

/-- The name and the generic parameters after a keyword. -/
def readName (text : List Char) : Except Unreadable (Option (List Char × List String)) :=
  match word? (skipTrivia text) with
  | none => .ok none
  | some (word, rest) =>
    ((genericParameters rest).mapError .unbalanced).map fun names => some (word, names)

/-- The declaration of a node without its members, or `none` if it has no name. -/
def recordHead (settings : Settings) (source : SourceText) (path : Path) (place : Node.InTree) :
    Except Unreadable (Option RecordSite) := do
  let node := place.node
  let text ← source.textOf node
  let head ← (head declarationKeywords text).mapError .unbalanced
  let nodeName ← source.nameOf node
  let named ← if head.keyword.isSome then readName (text.drop head.stop) else .ok none
  let (name, generics) := match named with
    | some (word, generics) => (some word, generics)
    | none => (nodeName, [])
  match name with
  | none => return none
  | some [] => return none
  | some name => do
    let name := String.ofList (unticked name)
    let keyword ← match head.keyword, node.childByRole? "declaration_kind" with
      | some keyword, _ => .ok (some keyword)
      | none, some child => (source.textOf child).map fun word => some (String.ofList word)
      | none, none => .ok none
    let location := source.locate path node.start text 0
    let indent ← (source.indentBefore node.start).mapError .undecodable
    let owners ← source.namesOf place.ancestors
    let marks := head.attributes.filter fun mark =>
      settings.builderAttributes.contains mark.name
    return some {
      declaration := {
        name
        kind := declarationKind keyword node.kind
        genericParameters := generics
        visibility := head.visibility
        location := some location
        attributes := head.attributes.map (·.name) }
      location
      request := marks.head?.map fun mark =>
        (if mark.hasDefault then .builderDefault else .addBuilder,
          source.locate path node.start text mark.start)
      strips := marks.map fun mark => source.spanIn node.start text mark.start mark.stop
      indent
      qualifiedName := ".".intercalate (owners.reverse ++ [name]) }

/-- The offset of the brace that closes a body. -/
def closingBrace (source : SourceText) (body : Node) : Option Nat :=
  let offset := body.stop - 1
  if source.slice offset body.stop == [125] then some offset else none

/-- The declaration with the members in its body. -/
def withMembers (settings : Settings) (source : SourceText) (path : Path) (node : Node)
    (site : RecordSite) : Except Unreadable RecordSite × List Warning :=
  match node.body? with
  | none => (.ok site, [])
  | some body =>
    let properties := body.namedChildren.filter fun child => propertyNodes.contains child.kind
    let (members, warnings) := memberSites settings source path properties
    (members.map fun members =>
      { site with
        declaration := { site.declaration with members := members.map (·.member) }
        strips := site.strips ++ members.flatMap (·.strips)
        bodyStop := closingBrace source body }, warnings)

/-- The declaration of a node, or `none` if it has no name, or why it cannot be read. -/
def recordSite (settings : Settings) (source : SourceText) (path : Path) (place : Node.InTree) :
    Except Unreadable (Option RecordSite) × List Warning :=
  match recordHead settings source path place with
  | .error reason => (.error reason, [])
  | .ok none => (.ok none, [])
  | .ok (some site) =>
    let (site, warnings) := withMembers settings source path place.node site
    (site.map some, warnings)

/-! ### Outlines -/

structure Outline where
  /-- The declarations, in the order in which they start. -/
  records : List RecordSite
  /-- Where the text is no correct source. -/
  syntaxErrors : List Location
  warnings : List Warning

namespace Outline

def nodeLocation (source : SourceText) (path : Path) (node : Node) : Location where
  path := some path
  line := source.row node.start + 1
  column := (source.lineBefore node.start).length + 1

/-- The declarations of some nodes, and the warnings about them. -/
def recordsOf (settings : Settings) (source : SourceText) (path : Path) :
    List Node.InTree → List RecordSite × List Warning
  | [] => ([], [])
  | place :: rest =>
    let (site, warnings) := recordSite settings source path place
    let (sites, more) := recordsOf settings source path rest
    match site with
    | .ok none => (sites, warnings ++ more)
    | .ok (some site) => (site :: sites, warnings ++ more)
    | .error reason =>
      (sites, warnings ++ .skipped path (source.row place.node.start + 1) reason :: more)

/-- The warning about the faults of a text. -/
def faultWarning (path : Path) : List Location → List Warning
  | [] => []
  | first :: rest => [.syntaxErrors path (rest.length + 1) first]

/-- The outline of a source with the given syntax tree. -/
def ofTree (settings : Settings) (source : SourceText) (path : Path) (root : Node) : Outline :=
  let places := root.walk
  let syntaxErrors := (places.filter (·.node.isFault)).map fun place =>
    nodeLocation source path place.node
  let (records, warnings) := recordsOf settings source path
    (places.filter fun place => typeNodes.contains place.node.kind)
  { records := records.mergeSort fun a b => a.location.le b.location
    syntaxErrors
    warnings := faultWarning path syntaxErrors ++ warnings }

def requested (outline : Outline) : List RecordSite := outline.records.filter (·.request.isSome)

end Outline

end FluentBuilder
