import Telemetry.Store.Database

/-!
# Files

The files that the service can see are those below its working directory. A file holds bytes or a
database. A path is a list of names between slashes; every name but the last must lead to a
directory, and a slash at the end asks for a directory too. Nothing is known of the files outside
the working directory, and none is found there.
-/

namespace Telemetry

inductive Entry where
  | file (content : Bytes)
  | database (db : Database)
  | directory
deriving DecidableEq

/-- The names on the way from the working directory to an entry. -/
abbrev Place := List String

/-- The entries below the working directory, each at its place. -/
abbrev Disk := List (Place × Entry)

inductive FileFault where
  | notFound
  | notDirectory
  | isDirectory
  | nameTooLong
  | nullInName
  | notText
  | closed
deriving DecidableEq, Repr

def FileFault.message : FileFault → String
  | .notFound => "No such file or directory (os error 2)"
  | .notDirectory => "Not a directory (os error 20)"
  | .isDirectory => "Is a directory (os error 21)"
  | .nameTooLong => "File name too long (os error 36)"
  | .nullInName => "file name contained an unexpected NUL byte"
  | .notText => "stream did not contain valid UTF-8"
  | .closed => "snapshot file is closed"

namespace Disk

def entry? (disk : Disk) (place : Place) : Option Entry :=
  match place with
  | [] => some .directory
  | _ => (disk.find? fun (p, _) => p == place).map Prod.snd

def put (disk : Disk) (place : Place) (entry : Entry) : Disk :=
  if disk.any fun (p, _) => p == place then
    disk.map fun (p, e) => if p == place then (p, entry) else (p, e)
  else disk ++ [(place, entry)]

/-- The longest name, in bytes. -/
def nameMax : Nat := 255

def pathMax : Nat := 4095

/-- The place that names lead to from a place above which nothing is known. The last name need not
exist. -/
def walk (disk : Disk) (here : Place) : List String → Except FileFault Place
  | [] => .ok here
  | name :: names =>
    if disk.entry? here ≠ some .directory then
      .error (if (disk.entry? here).isSome then .notDirectory else .notFound)
    else if name = "." || name = "" then walk disk here names
    else if name = ".." then
      if here.isEmpty then .error .notFound else walk disk here.dropLast names
    else if nameMax < name.utf8ByteSize then .error .nameTooLong
    else walk disk (here ++ [name]) names

/-- The place that a path names. -/
def resolve (disk : Disk) (path : String) : Except FileFault Place :=
  if path.toList.contains '\x00' then .error .nullInName
  else if path = "" then .error .notFound
  else if pathMax < path.utf8ByteSize then .error .nameTooLong
  else if path.toList.head? = some '/' then .error .notFound
  else disk.walk [] ((path.toList.splitOn '/').map String.ofList)

/-- A path without the slashes at its end, if there are any. -/
def withoutSlash? (path : String) : Option String :=
  if path.toList.getLast? = some '/' then
    some (String.ofList (path.toList.reverse.dropWhile (· = '/')).reverse)
  else none

def read (disk : Disk) (path : String) : Except FileFault Bytes :=
  match disk.resolve path with
  | .error fault => .error fault
  | .ok place => match disk.entry? place with
    | some (.file content) => .ok content
    | some (.database _) => .ok []
    | some .directory => .error .isDirectory
    | none => .error .notFound

def readText (disk : Disk) (path : String) : Except FileFault String :=
  match disk.read path with
  | .error fault => .error fault
  | .ok content => match Bytes.toString? content with
    | some text => .ok text
    | none => .error .notText

/-- The place of the file that a path names and the disk, where the file is made if it was not
there. No file can be made under a path that asks for a directory. -/
def create (disk : Disk) (path : String) : Except FileFault (Place × Disk) :=
  match withoutSlash? path with
  | some shorter => (disk.resolve shorter).bind fun _ => .error .isDirectory
  | none => match disk.resolve path with
    | .error fault => .error fault
    | .ok place => match disk.entry? place with
      | some .directory => .error .isDirectory
      | some _ => .ok (place, disk)
      | none => .ok (place, disk.put place (.file []))

def bytesAt (disk : Disk) (place : Place) : Bytes :=
  match disk.entry? place with
  | some (.file content) => content
  | _ => []

end Disk

end Telemetry
