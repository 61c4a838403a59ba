/-! Reading files. The command takes any reader; files in memory are one. -/
namespace LS8

inductive ReadError where
  /-- The system refused, with its own words and number. -/
  | system (details : String) (code : Nat)
  | notText
  /-- No path holds this character. -/
  | nulInPath
  deriving DecidableEq

namespace ReadError

def notFound : ReadError := system "No such file or directory" 2

def notDirectory : ReadError := system "Not a directory" 20

def isDirectory : ReadError := system "Is a directory" 21

def nameTooLong : ReadError := system "File name too long" 36

def message : ReadError → String
  | system details code => details ++ " (os error " ++ toString code ++ ")"
  | notText => "stream did not contain valid UTF-8"
  | nulInPath => "file name contained an unexpected NUL byte"

end ReadError

/-- What reading the file at a path gives. -/
abbrev Reader := String → Except ReadError ByteArray

inductive Node where
  | file (bytes : ByteArray)
  | unreadable (cause : ReadError)
  | directory

/-- Where a path has led so far. -/
inductive Place where
  /-- These names down from the working directory. -/
  | within (names : List String)
  /-- These names down from the root, on a way that does not pass through the working directory. -/
  | beyond (names : List String)
  deriving DecidableEq

/-- What there is beyond a working directory. -/
structure Surroundings where
  /-- The directory that holds the working directory. -/
  parent : List String
  directories : List (List String)
  files : List (List String × Node)
  /-- The names that stand for another place. None of these places is such a name itself. -/
  links : List (List String × Place)

/-- Files in memory: those under a working directory, and those beyond it. Of two entries with one
name the first counts. -/
structure Files where
  entries : List (List String × Node)
  surroundings : Surroundings

namespace Files

def empty : Files := ⟨[], ⟨[], [], [], []⟩⟩

def components (path : String) : List String := (path.toList.splitOn '/').map String.ofList

/-- Follows one name down or, for `..`, up. At the top there is no way up. -/
def descend (names : List String) (name : String) : List String :=
  if name = "" ∨ name = "." then names
  else if name = ".." then names.dropLast
  else names ++ [name]

/-- Puts a file or a directory where a path from the working directory leads. -/
def put (files : Files) (path : String) (node : Node) : Files :=
  { files with entries := ((components path).foldl descend [], node) :: files.entries }

/-- What is at a place. The directories above a file exist with it. -/
def node? (files : Files) : Place → Option Node
  | .within [] | .beyond [] => some .directory
  | .within names =>
    match files.entries.find? (·.1 = names) with
    | some (_, node) => some node
    | none => if files.entries.any (names.isPrefixOf ·.1) then some .directory else none
  | .beyond names =>
    if names ∈ files.surroundings.directories then some .directory
    else files.surroundings.files.lookup names

/-- Where one more name leads from a directory. -/
def place (files : Files) : Place → String → Place
  | .within [], ".." => .beyond files.surroundings.parent
  | .within names, name => .within (descend names name)
  | .beyond names, name =>
    let names := descend names name
    (files.surroundings.links.lookup names).getD (.beyond names)

/-- Follows one more name, which only a directory allows. -/
def follow (files : Files) (place : Place) (name : String) : Except ReadError Place :=
  match files.node? place with
  | none => .error .notFound
  | some (.file _) | some (.unreadable _) => .error .notDirectory
  | some .directory =>
    if name.utf8ByteSize > 255 then .error .nameTooLong else .ok (files.place place name)

def read (files : Files) (path : String) : Except ReadError ByteArray := do
  if '\x00' ∈ path.toList then throw .nulInPath
  if path = "" then throw .notFound
  if path.utf8ByteSize ≥ 4096 then throw .nameTooLong
  let start := if path.toList.head? = some '/' then .beyond [] else Place.within []
  let place ← (components path).foldlM files.follow start
  match files.node? place with
  | none => throw .notFound
  | some .directory => throw .isDirectory
  | some (.unreadable cause) => throw cause
  | some (.file bytes) => return bytes

instance : Coe Files Reader := ⟨read⟩

end Files

end LS8
