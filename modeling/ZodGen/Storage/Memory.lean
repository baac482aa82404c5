import ZodGen.Json.Basic
import ZodGen.Storage.Basic
import ZodGen.Storage.Path
import ZodGen.Text.Utf8

/-!
# Files in memory

A `Memory` is a tree of files and directories below one root, with the directory that a program runs
in. A path is followed name by name, as a disk does, from the root or from that directory: a name on
the way must be a directory, and `..` goes up, at the root to the root itself. There are no links.
-/

namespace ZodGen.Storage

/-- The bytes of a file. -/
abbrev Bytes := List Nat

def bytesOf (text : String) : Bytes := text.toUTF8.toList.map UInt8.toNat

/-- The text of a file, if it is one. -/
def textOf? (bytes : Bytes) : Option String := (Text.Utf8.decode? bytes).map String.ofList

/-- Files and directories by their names from the root on. Of directories the root is not listed. -/
structure Memory where
  files : List (List String × Bytes) := []
  directories : List (List String) := []
  /-- Where a path starts that does not start at the root. -/
  current : List String := []

/-- What a path leads to. -/
inductive Spot where
  | directory (at_ : List String)
  | file (at_ : List String) (bytes : Bytes)
  /-- Nothing, in a directory that is there. -/
  | nothing (at_ : List String)

namespace Memory

def isDirectory (d : Memory) (at_ : List String) : Bool :=
  at_.isEmpty || d.directories.contains at_

def addDirectory (d : Memory) (at_ : List String) : Memory :=
  if d.isDirectory at_ then d else { d with directories := at_ :: d.directories }

def putFile (d : Memory) (at_ : List String) (bytes : Bytes) : Memory :=
  { d with files := Assoc.set at_ bytes d.files }

/-- Names longer than this many bytes are refused. -/
def longestName : Nat := 255

/-- Follows names from a directory. `slash` says whether a slash stands behind the last. -/
def follow (d : Memory) (slash : Bool) : List String → List String → Except Refusal Spot
  | here, [] => .ok (.directory here)
  | here, name :: rest =>
    if name = "." then follow d slash here rest
    else if name = ".." then follow d slash here.dropLast rest
    else if longestName < name.utf8ByteSize then .error .nameTooLong
    else
      let there := here ++ [name]
      match Assoc.get? there d.files with
      | some bytes =>
        if rest.isEmpty && !slash then .ok (.file there bytes) else .error .notDirectory
      | none =>
        if d.isDirectory there then follow d slash there rest
        else if rest.isEmpty then .ok (.nothing there)
        else .error .notFound

/-- The directory that a path starts in. -/
def start (d : Memory) (path : String) : List String := if isAbsolute path then [] else d.current

def find (d : Memory) (path : String) : Except Refusal Spot :=
  if path.toList.contains '\x00' then .error .zeroInName
  else d.follow (endsInSlash path) (d.start path) (names path)

def read (d : Memory) (path : String) : Except Refusal String := do
  match ← d.find path with
  | .file _ bytes =>
    match textOf? bytes with
    | some text => .ok text
    | none => .error .notText
  | .directory _ => .error .isDirectory
  | .nothing _ => .error .notFound

/-- Makes a directory where names lead from `start`. -/
def makeDirectory (d : Memory) (start names : List String) : Except Refusal Memory := do
  match ← d.follow false start names with
  | .nothing there => .ok (d.addDirectory there)
  | _ => .error .exists_

/-- Makes a directory that may be there already. -/
def ensureDirectory (d : Memory) (start names : List String) : Except Refusal Memory :=
  match d.makeDirectory start names with
  | .ok d => .ok d
  | .error e =>
    match d.follow false start names with
    | .ok (.directory _) => .ok d
    | _ => .error e

/-- Makes a directory and those around it that are missing; the names are given from the last on.
Those made before one is refused stay. -/
def ensureDirectories (d : Memory) (start : List String) :
    List String → Except Refusal Unit × Memory
  | [] => (.ok (), d)
  | name :: around =>
    match d.ensureDirectory start (name :: around).reverse with
    | .ok d => (.ok (), d)
    | .error .notFound =>
      match d.ensureDirectories start around with
      | (.error e, d) => (.error e, d)
      | (.ok _, d) =>
        match d.ensureDirectory start (name :: around).reverse with
        | .ok d => (.ok (), d)
        | .error e => (.error e, d)
    | .error e => (.error e, d)

/-- Puts a text where a path leads. -/
def put (d : Memory) (path text : String) : Except Refusal Memory := do
  match ← d.find path with
  | .file there _ => .ok (d.putFile there (bytesOf text))
  | .nothing there =>
    if endsInSlash path then .error .isDirectory else .ok (d.putFile there (bytesOf text))
  | .directory _ => .error .isDirectory

/-- Writes a file. Directories that were made stay, even if the file is refused. -/
def write (d : Memory) (path text : String) : Except Refusal Unit × Memory :=
  if path.toList.contains '\x00' then (.error .zeroInName, d)
  else match d.ensureDirectories (d.start path) (parentNames path).reverse with
    | (.error e, d) => (.error e, d)
    | (.ok _, d) =>
      match d.put path text with
      | .ok d => (.ok (), d)
      | .error e => (.error e, d)

/-- The directories on the way to a place. -/
def addDirectoriesAround (d : Memory) (at_ : List String) : Memory :=
  (List.range (at_.length - 1)).foldl (fun d n => d.addDirectory (at_.take (n + 1))) d

/-- A program's own directory with these files, which are given by their paths from there. -/
def ofFiles (files : List (String × Bytes)) : Memory :=
  let home := ["tmp", "work"]
  files.foldl (fun d (path, bytes) =>
    let at_ := home ++ names path
    (d.addDirectoriesAround at_).putFile at_ bytes)
    { directories := [home, home.dropLast], current := home }

/-- The files below the current directory by their paths from there, in the order of their names. -/
def listing (d : Memory) : List (String × Bytes) :=
  let below := d.files.filter fun (at_, _) => d.current.isPrefixOf at_
  (below.map fun (at_, bytes) => ("/".intercalate (at_.drop d.current.length), bytes)).mergeSort
    fun a b => a.1 ≤ b.1

def storage : Storage (StateM Memory) where
  read path := do return (← get).read path
  write path text := modifyGet (·.write path text)

end Memory

end ZodGen.Storage
