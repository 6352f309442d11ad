import FluentBuilder.Path
import FluentBuilder.Text.Utf8

/-!
The files that a command can see.
-/

namespace FluentBuilder

def Path.parent (path : Path) : Path := { path with components := path.components.dropLast }

namespace CommandLine

/-- What stands at a path. -/
inductive Entry where
  | file (content : List UInt8)
  | directory
  | missing
  /-- Nothing: on the way to it there is a file. -/
  | behindFile
deriving Repr, DecidableEq

/-- The files below the current directory, by their names from there. -/
structure Workspace where
  files : List (List String × List UInt8)
deriving Repr

namespace Workspace

def entryAt (workspace : Workspace) (components : List String) : Entry :=
  match workspace.files.lookup components with
  | some content => .file content
  | none =>
    if components.isEmpty || workspace.files.any fun file => components.isPrefixOf file.1 then
      .directory
    else .missing

/-- The components that a row of them leads to from a directory. What is not below the current
directory cannot be seen. -/
def resolve (workspace : Workspace) (here : List String) : List String → Except Entry (List String)
  | [] => .ok here
  | component :: rest =>
    match workspace.entryAt here with
    | .directory =>
      if component == ".." then
        if here.isEmpty then .error .missing else resolve workspace here.dropLast rest
      else resolve workspace (here ++ [component]) rest
    | .file _ => .error .behindFile
    | other => .error other

def find (workspace : Workspace) (path : Path) : Entry :=
  if path.root != "" then .missing
  else
    match workspace.resolve [] path.components with
    | .ok components => workspace.entryAt components
    | .error entry => entry

/-- The name of the file that is changed if a text is written to a path. -/
def changed? (workspace : Workspace) (path : Path) (text : String) : Option String :=
  match workspace.resolve [] path.components with
  | .ok components =>
    if workspace.entryAt components == .file (Text.Utf8.encode text.toList) then none
    else some ("/".intercalate components)
  | .error _ => none

end Workspace

end CommandLine

end FluentBuilder
