/-! Files as they are seen from a working directory. Directories exist as far as the ways to files
lead through them, and so do those above the working directory; nothing else is known of them. -/

namespace Capuchin.Command

/-- What stands at a path. -/
inductive Lookup where
  | missing
  | directory
  | file (content : String)

/-- A place in the tree of directories: down by names from the root, or so many directories up
from the working directory and then down by names. -/
inductive Location where
  | absolute (names : List String)
  | relative (up : Nat) (names : List String)
  deriving DecidableEq

namespace Location

/-- The working directory. -/
def here : Location :=
  .relative 0 []

/-- The directory that holds a place; the root holds itself. -/
def parent : Location → Location
  | absolute names => absolute names.dropLast
  | relative up [] => relative (up + 1) []
  | relative up names => relative up names.dropLast

def child (name : String) : Location → Location
  | absolute names => absolute (names ++ [name])
  | relative up names => relative up (names ++ [name])

/-- Go on by one part of a path. -/
def move (location : Location) (name : String) : Location :=
  if name = "" || name = "." then location
  else if name = ".." then location.parent
  else location.child name

/-- The places on a way, the first and the last included. -/
def way (location : Location) : List String → List Location
  | [] => [location]
  | name :: names => location :: (location.move name).way names

/-- The root, the working directory, and what lies above it. -/
def isTop : Location → Bool
  | absolute names => names.isEmpty
  | relative _ names => names.isEmpty

end Location

structure Files where
  contents : List (Location × String) := []
  directories : List Location := []

/-- Bytes that a path may have. -/
def pathLimit : Nat := 4095

namespace Files

/-- Add a file with the directories on the way to it; it takes the place of an older one. -/
def add (files : Files) (path content : String) : Files :=
  let way := Location.here.way (path.splitOn "/")
  { contents := (way.getLastD .here, content) :: files.contents
    directories := way.dropLast ++ files.directories }

def ofPaths (files : List (String × String)) : Files :=
  files.foldl (fun files (path, content) => files.add path content) {}

def lookup (files : Files) (location : Location) : Lookup :=
  match files.contents.lookup location with
  | some content => .file content
  | none => if location.isTop || location ∈ files.directories then .directory else .missing

/-- Follow the parts of a path; only directories lead on. -/
def follow (files : Files) (location : Location) : List String → Lookup
  | [] => files.lookup location
  | name :: names =>
    match files.lookup location with
    | .directory => files.follow (location.move name) names
    | _ => .missing

/-- What stands at a path as a user writes it; an empty or overlong path leads nowhere. -/
def find (files : Files) (path : String) : Lookup :=
  if path = "" || pathLimit < path.utf8ByteSize then .missing
  else if path.startsWith "/" then files.follow (.absolute []) (path.splitOn "/")
  else files.follow .here (path.splitOn "/")

end Files

end Capuchin.Command
