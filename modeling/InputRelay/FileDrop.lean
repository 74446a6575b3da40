import InputRelay.Text.Blank

namespace InputRelay

inductive FileAction
  | installApk | pushFile
deriving DecidableEq, Repr

namespace FileAction

/-- The last part of a path that is neither empty nor a dot, if it names a file. -/
def fileName? (path : String) : Option (List Char) :=
  let parts := (Text.cut '/' path.toList).filter fun part ↦ part ≠ [] && part ≠ ['.']
  parts.getLast?.filter (· ≠ ['.', '.'])

/-- What follows the last dot of a name. A dot at its start does not count. -/
def suffix? (name : List Char) : Option (List Char) :=
  let suffix := (name.reverse.takeWhile (· ≠ '.')).reverse
  if suffix.length + 1 < name.length then some suffix else none

def ofPath (path : String) : FileAction :=
  if (fileName? path).bind suffix? = some ['a', 'p', 'k'] then installApk else pushFile

end FileAction

end InputRelay
