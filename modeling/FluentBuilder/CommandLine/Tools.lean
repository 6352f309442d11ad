import FluentBuilder.CommandLine.Files
import FluentBuilder.Data.Value
import FluentBuilder.Syntax.Tree

/-!
What a command is given from outside: the files that it can see, a parser for source texts, a reader
for configurations, and the terminal. A command runs with any of these. Nothing is laid down here
about what they do, so what is proved about commands holds for every terminal and every reader.

A line for the terminal is marked: tags in square brackets say in which style a part of it is shown.
The tags are written by the commands, and read outside.
-/

namespace FluentBuilder.CommandLine

/-- The name of the error that something outside ends with. -/
abbrev Failure := String

structure Column where
  title : String
  style : String := ""
deriving Repr, DecidableEq

/-- A table of marked texts, as it is handed to a console. A row has a cell for each column. -/
structure Table where
  title : String
  columns : List Column
  rows : List (List String)
deriving Repr, DecidableEq

/-- A place where marked texts are shown, and what is seen of them there. -/
structure Console where
  print : String → Except Failure String
  printTable : Table → Except Failure String

structure Tools where
  find : Path → Entry
  parse : String → Syntax.Node
  /-- The data that the text of a configuration stands for. -/
  readData : String → Except Failure Data
  /-- The marked text that shows a text as it is. -/
  escape : String → String
  /-- Shows a text that is not marked. -/
  echo : String → Except Failure String
  output : Console
  errors : Console

end FluentBuilder.CommandLine
