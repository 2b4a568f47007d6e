import LayoutLexer.Bytes

/-!
# A tree of files

Directories, regular files and a device that is always full, reached by paths.
A path is followed from the root or from the working directory, name by name,
and every name but the last has to lead to a directory.  Reading and creating
fail with the faults of a Unix system, the first one met on the way.  The
contents of files share the room on one disk.
-/

namespace LayoutLexer

/-- Why a file cannot be read or written. -/
inductive FileFault where
  | notFound
  | notADirectory
  | isADirectory
  | noSpaceLeft
  | nameTooLong
  /-- More was to be read than there is memory for. -/
  | outOfMemory
  /-- Any other fault with its wording.  Those of the system have a number. -/
  | other (number? : Option Nat) (wording : String)
  deriving DecidableEq, Repr

namespace FileFault

def number? : FileFault → Option Nat
  | notFound => some 2
  | notADirectory => some 20
  | isADirectory => some 21
  | noSpaceLeft => some 28
  | nameTooLong => some 36
  | outOfMemory => none
  | other number? _ => number?

def wording : FileFault → String
  | notFound => "No such file or directory"
  | notADirectory => "Not a directory"
  | isADirectory => "Is a directory"
  | noSpaceLeft => "No space left on device"
  | nameTooLong => "File name too long"
  | outOfMemory => "out of memory"
  | other _ wording => wording

def message (fault : FileFault) : Bytes :=
  utf8 fault.wording ++
    match fault.number? with
    | some number => utf8 " (os error " ++ decimal number ++ utf8 ")"
    | none => []

/-- The answer of a stream that is not open for writing. -/
def isClosed (fault : FileFault) : Bool :=
  fault.number? = some 9

end FileFault

/-- What stands at a place in the tree. -/
inductive Node where
  | directory
  | file (content : Bytes)
  /-- A device without room for a single byte. -/
  | fullDevice
  deriving DecidableEq, Repr

/-- The names on the way from the root to a place. -/
abbrev Location := List Bytes

/-- The places of a tree that hold something, and the directory where relative
paths begin.  The root is always a directory. -/
structure FileTree where
  nodes : List (Location × Node)
  workingDirectory : Location
  /-- The room that is left for contents. -/
  room : Room := .unlimited
  deriving DecidableEq, Repr

namespace FileTree

def slash : UInt8 := 47

/-- The name of a directory in itself. -/
def selfName : Bytes := utf8 "."

/-- The name of the directory above. -/
def parentName : Bytes := utf8 ".."

def maxNameLength : Nat := 255

def maxPathLength : Nat := 4095

def node? (tree : FileTree) (location : Location) : Option Node :=
  if location = [] then some .directory else tree.nodes.lookup location

def put (tree : FileTree) (location : Location) (node : Node) : FileTree :=
  { tree with
    nodes := (location, node) :: tree.nodes.filter fun entry => entry.1 != location }

def withRoom (tree : FileTree) (room : Room) : FileTree :=
  { tree with room }

@[simp]
theorem node?_withRoom (tree : FileTree) (room : Room) (location : Location) :
    (tree.withRoom room).node? location = tree.node? location :=
  rfl

/-- What is put at a location stands there, and all else stays. -/
theorem node?_put (tree : FileTree) {location : Location} (node : Node) (other : Location)
    (notRoot : location ≠ []) :
    (tree.put location node).node? other =
      if other = location then some node else tree.node? other := by
  unfold node? put
  by_cases atRoot : other = []
  · subst atRoot
    simp [Ne.symm notRoot]
  · by_cases same : other = location
    · subst same
      simp [atRoot]
    · have absent : (other == location) = false := by simpa using same
      simp only [atRoot, same, if_false, List.lookup_cons, absent]
      induction tree.nodes with
      | nil => rfl
      | cons entry entries ih =>
          obtain ⟨place, placed⟩ := entry
          by_cases removed : place = location
          · have differs : (other == place) = false := by simpa [removed] using same
            simp [removed, List.lookup_cons, ih, absent]
          · simp [removed, List.lookup_cons, ih]

/-- A location where a directory stands. -/
def directoryAt (tree : FileTree) (location : Location) : Except FileFault Location :=
  match tree.node? location with
  | some .directory => .ok location
  | some (.file _) | some .fullDevice => .error .notADirectory
  | none => .error .notFound

/-- The location that a name leads to from a directory.  Nothing needs to stand
there. -/
def enter (tree : FileTree) (location : Location) (name : Bytes) :
    Except FileFault Location := do
  let directory ← tree.directoryAt location
  if name = [] ∨ name = selfName then .ok directory
  else if name = parentName then .ok directory.dropLast
  else if maxNameLength < name.length then .error .nameTooLong
  else .ok (directory ++ [name])

/-- The location that names lead to one after the other. -/
def follow (tree : FileTree) (location : Location) : List Bytes → Except FileFault Location
  | [] => .ok location
  | name :: names => do
    let next ← tree.enter location name
    tree.follow next names

/-- The names of a path, of which a slash too many makes empty ones, and the
location where it begins. -/
def begin (tree : FileTree) (path : Bytes) : Except FileFault (Location × List Bytes) :=
  if path = [] then .error .notFound
  else if maxPathLength < path.length then .error .nameTooLong
  else
    let origin := if path.head? = some slash then [] else tree.workingDirectory
    .ok (origin, path.splitOn slash)

/-- The content of the file at a path.  A full device reads as zeros without
end, which no memory holds. -/
def read (tree : FileTree) (path : Bytes) : Except FileFault Bytes := do
  let (origin, names) ← tree.begin path
  let location ← tree.follow origin names
  match tree.node? location with
  | some (.file content) => .ok content
  | some .directory => .error .isADirectory
  | some .fullDevice => .error .outOfMemory
  | none => .error .notFound

/-- The location of the file to be created at a path.  A path that ends in a
slash, or in a name of a directory that is there, can only mean a directory. -/
def creationLocation (tree : FileTree) (path : Bytes) : Except FileFault Location := do
  let (origin, names) ← tree.begin path
  match (names.reverse.dropWhile (· = [])) with
  | [] => .error .isADirectory
  | last :: parents =>
    let parent ← tree.follow origin parents.reverse
    let directory ← tree.directoryAt parent
    if names.getLast? = some [] ∨ last = selfName ∨ last = parentName then
      .error .isADirectory
    else
      tree.enter directory last

/-- The location of an empty file at a path and the tree with that file.  A
regular file that was there is emptied, a device is left as it is. -/
def create (tree : FileTree) (path : Bytes) : Except FileFault (Location × FileTree) := do
  let location ← tree.creationLocation path
  match tree.node? location with
  | some .directory => .error .isADirectory
  | some .fullDevice => .ok (location, tree)
  | some (.file content) =>
    .ok (location, (tree.put location (.file [])).withRoom (tree.room.more content))
  | none => .ok (location, tree.put location (.file []))

/-- Write at the end of a file.  What the disk has no room for is not written. -/
def append (tree : FileTree) (location : Location) (bytes : Bytes) :
    Except FileFault Unit × FileTree :=
  match tree.node? location with
  | some (.file content) =>
    let taken := tree.room.part bytes
    (if tree.room.fits bytes then .ok () else .error .noSpaceLeft,
      (tree.put location (.file (content ++ taken))).withRoom (tree.room.less taken))
  | some .fullDevice => (if bytes = [] then .ok () else .error .noSpaceLeft, tree)
  | some .directory => (.error .isADirectory, tree)
  | none => (.error .notFound, tree)

/-- Make directories where names lead one after the other and nothing stands. -/
def makeAlong (tree : FileTree) (location : Location) : List Bytes → Except FileFault FileTree
  | [] => .ok tree
  | name :: names => do
    let next ← tree.enter location name
    let made := if tree.node? next = none then tree.put next .directory else tree
    made.makeAlong next names

/-- Make the directory at a path and those on the way to it. -/
def makeDirectories (tree : FileTree) (path : Bytes) : Except FileFault FileTree := do
  let (origin, names) ← tree.begin path
  tree.makeAlong origin names

/-- Make a file with the given content at a path. -/
def store (tree : FileTree) (path content : Bytes) : Except FileFault FileTree := do
  let (location, created) ← tree.create path
  let (written, filled) := created.append location content
  written.map fun () => filled

end FileTree

end LayoutLexer
