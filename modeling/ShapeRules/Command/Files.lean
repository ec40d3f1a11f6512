import ShapeRules.FiniteMap

/-!
# Files

The files are contents at places in a tree of directories. A place is given by the names that lead
to it from the root. A path starts at the root or in the working directory and is walked one step at
a time. Each step needs a directory to start from, so that a path that goes on behind a file leads
nowhere. There are no links, so that every file and every directory has one place.

## Main definitions

* `components`, `extension?`: the parts of a path
* `Files`, `Files.find`: the files, and where a path leads
* `Files.target`, `Files.draftPlace`: where a file can go under a path, and next to it
* `Files.put`, `Files.remove`, `Files.move`: changing the files
-/

namespace ShapeRules.Command

/-! ## Paths -/

/-- The steps of a path, in the order in which they are taken. -/
def steps (path : String) : List String :=
  (path.toList.splitOn '/').map String.ofList

/-- Whether a path starts at the root. -/
def startsAtRoot (path : String) : Bool :=
  path.toList.head? == some '/'

/-- The components of a path: its steps without those that stay where they are. -/
def components (path : String) : List String :=
  (steps path).filter fun s => s ≠ "" ∧ s ≠ "."

/-- The extension of a path: what follows the last dot of its last component, unless that dot comes
first. -/
def extension? (path : String) : Option String := do
  let name ← (components path).getLast?
  let reversed := name.toList.reverse
  match reversed.dropWhile (· != '.') with
  | _ :: _ :: _ =>
    if name = ".." then none
    else some (String.ofList (reversed.takeWhile (· != '.')).reverse)
  | _ => none

/-- **Why the system refuses something.** -/
inductive Fault where
  | notFound
  | exists
  | notDirectory
  | isDirectory
  | nameTooLong
  | other (message : String)
  deriving DecidableEq, Repr

/-- The wording of a fault, with the number that the system gives it. -/
def Fault.message : Fault → String
  | .notFound => "No such file or directory (os error 2)"
  | .exists => "File exists (os error 17)"
  | .notDirectory => "Not a directory (os error 20)"
  | .isDirectory => "Is a directory (os error 21)"
  | .nameTooLong => "File name too long (os error 36)"
  | .other message => message

/-- The most bytes that a name can have. -/
def maxNameBytes : Nat := 255

/-- The most bytes that a path can have. -/
def maxPathBytes : Nat := 4095

/-- Whether a file can have a name in its directory. -/
def isName (s : String) : Bool :=
  s ∉ ["", ".", ".."] && !s.toList.contains '/' && s.utf8ByteSize ≤ maxNameBytes

/-! ## Walking -/

/-- **What can be at a place.** -/
inductive Node where
  | file (contents : ByteArray)
  | directory

/-- **The files of the system.** -/
structure Files where
  /-- What is at the places other than the root. -/
  nodes : FiniteMap (List String) Node
  /-- The working directory. -/
  home : List String

/-- **Where a path leads.** -/
inductive Place where
  | directory (place : List String)
  | file (place : List String) (contents : ByteArray)

namespace Files

/-- What is at a place. The root is a directory. -/
def node? (fs : Files) (place : List String) : Option Node :=
  if place = [] then some .directory else fs.nodes.get? place

/-- Whether a directory is at a place. -/
def isDirectory (fs : Files) (place : List String) : Bool :=
  match fs.node? place with
  | some .directory => true
  | _ => false

/-- The entry of a directory with a name. -/
def entry (fs : Files) (parent : List String) (name : String) : Except Fault Place :=
  if maxNameBytes < name.utf8ByteSize then .error .nameTooLong
  else
    match fs.node? (parent ++ [name]) with
    | some (.file contents) => .ok (.file (parent ++ [name]) contents)
    | some .directory => .ok (.directory (parent ++ [name]))
    | none => .error .notFound

/-- One step of a path. The root is above itself. -/
def step (fs : Files) (place : Place) (s : String) : Except Fault Place :=
  match place with
  | .file .. => .error .notDirectory
  | .directory parent =>
    if s ∈ ["", "."] then .ok (.directory parent)
    else if s = ".." then .ok (.directory parent.dropLast)
    else fs.entry parent s

/-- The place that some steps from a directory lead to. -/
def walk (fs : Files) (start : List String) (path : List String) : Except Fault Place :=
  path.foldlM fs.step (.directory start)

/-- The directory that a path starts in. -/
def start (fs : Files) (path : String) : List String :=
  if startsAtRoot path then [] else fs.home

/-- **The place that a path leads to.** -/
def find (fs : Files) (path : String) : Except Fault Place :=
  if maxPathBytes < path.utf8ByteSize then .error .nameTooLong
  else fs.walk (fs.start path) (steps path)

/-! ## Finding a place for a file -/

/-- The place in a directory with a name, if a file can have it: no directory is there. -/
def child (fs : Files) (name : String) : Place → Except Fault (List String)
  | .file .. => .error .notDirectory
  | .directory parent =>
    if !isName name || fs.isDirectory (parent ++ [name]) then .error .isDirectory
    else .ok (parent ++ [name])

/-- **The place where a file can go under a path:** what comes before the last step leads to its
directory. -/
def target (fs : Files) (path : String) : Except Fault (List String) :=
  if maxPathBytes < path.utf8ByteSize then .error .nameTooLong
  else
    match (steps path).getLast? with
    | some name => fs.walk (fs.start path) (steps path).dropLast >>= fs.child name
    | none => .error .notFound

/-- The directory that the last component of a path is in. A path without components has none, and
then it is the working directory. -/
def directoryOf (fs : Files) (path : String) : Except Fault Place :=
  if components path = [] then .ok (.directory fs.home)
  else fs.walk (fs.start path) (components path).dropLast

/-- The first of some names that nothing has in a directory. -/
def fresh (fs : Files) (names : List String) : Place → Except Fault (List String)
  | .file .. => .error .notDirectory
  | .directory parent =>
    match names.find? fun name => isName name && (fs.node? (parent ++ [name])).isNone with
    | some name => .ok (parent ++ [name])
    | none => .error .exists

/-- **The place for a new file next to a path,** with the first of some names that is free. -/
def draftPlace (fs : Files) (names : List String) (path : String) : Except Fault (List String) :=
  fs.directoryOf path >>= fs.fresh names

/-! ## Changing the files -/

/-- Puts contents at a place, instead of those there. -/
def put (fs : Files) (place : List String) (contents : ByteArray) : Files :=
  { fs with nodes := fs.nodes.insert place (.file contents) }

/-- Removes what is at a place. -/
def remove (fs : Files) (place : List String) : Files :=
  { fs with nodes := fs.nodes.erase place }

/-- **Moves a file under a path,** instead of the one there. -/
def move (fs : Files) (source : List String) (path : String) : Except Fault Files :=
  match fs.node? source with
  | some (.file contents) => (fs.target path).map ((fs.remove source).put · contents)
  | _ => .error .notFound

end Files

end ShapeRules.Command
