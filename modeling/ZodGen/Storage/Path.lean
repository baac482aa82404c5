/-!
# Paths of files

A path is a text of names between slashes. Empty names do not count, `.` stays where it is, and `..`
goes up.
-/

namespace ZodGen.Storage

/-- The pieces of a text between slashes. -/
def pieces : List Char → List (List Char)
  | [] => [[]]
  | c :: cs =>
    if c = '/' then [] :: pieces cs
    else match pieces cs with
      | [] => [[c]]
      | first :: rest => (c :: first) :: rest

/-- The names of a path, `.` among them. -/
def names (path : String) : List String :=
  ((pieces path.toList).filter (!·.isEmpty)).map String.ofList

/-- Whether a path starts at the root of the disk. -/
def isAbsolute (path : String) : Bool := path.toList.head? == some '/'

/-- Whether a path can only mean a directory. -/
def endsInSlash (path : String) : Bool := path.toList.getLast? == some '/'

/-- The names of the directory that a path is in, without those that stay where they are. Only in
front does `.` count. -/
def parentNames (path : String) : List String :=
  let kept := match names path with
    | [] => []
    | first :: rest => first :: rest.filter (· != ".")
  kept.dropLast

/-- The path of a file in a directory. -/
def join (directory file : String) : String :=
  if endsInSlash directory then directory ++ file else directory ++ "/" ++ file

end ZodGen.Storage
