import LocaleWatch.FileTree

/-!
# Access by paths

A path is followed name by name from a directory; every name but the last must lead to a
directory, `..` leads back up, and a path that ends in a separator or in `.` can lead to
directories only. A name has at most 255 bytes and a path at most 4095.

Each access says what it gives or why it fails, and what the tree is afterwards. An
access that fails leaves the tree as it is; only the creation of a directory with those
above it keeps the directories made so far.
-/

namespace LocaleWatch

namespace FileTree

/-- How many bytes a name may have. -/
def nameLimit : Nat := 255

/-- How many bytes a path may have. -/
def pathLimit : Nat := 4095

/-- Only a directory can be entered. -/
def enter (tree : FileTree) (location : Location) : Except Fault Unit :=
  match tree.get? location with
  | some .directory => .ok ()
  | some (.file _) => .error .notADirectory
  | none => .error .notFound

/-- Follow components from a location. At the last location there may be nothing. -/
def follow (tree : FileTree) : Location → List Path.Component → Except Fault Location
  | here, [] => .ok here
  | here, component :: rest => do
    tree.enter here
    match component with
    | .root => follow tree [] rest
    | .up => follow tree here.dropLast rest
    | .name name =>
      if nameLimit < name.length then .error .nameTooLong
      else follow tree (here ++ [name]) rest

/-- Whether a path can lead to directories only. -/
def namesDirectory (path : Path) : Bool :=
  let last := (Path.pieces path.bytes).getLastD []
  last.isEmpty || last = [fullStop]

/-- Paths that the system does not look at. -/
def checkPath (path : Path) : Except Fault Unit :=
  if path.bytes.contains 0 then .error .nulInPath
  else if path.bytes.isEmpty then .error .notFound
  else if pathLimit < path.bytes.length then .error .nameTooLong
  else .ok ()

/-- The location that a path leads to from a directory. -/
def locate (tree : FileTree) (directory : Location) (path : Path) : Except Fault Location := do
  checkPath path
  let location ← tree.follow directory path.components
  if namesDirectory path then
    if let some (.file _) := tree.get? location then throw .notADirectory
  return location

/-- What stands at a path, if anything does. -/
def entry? (tree : FileTree) (directory : Location) (path : Path) :
    Except Fault (Option FileEntry) := do
  return tree.get? (← tree.locate directory path)

/-- The location of something that exists. -/
def existing (tree : FileTree) (directory : Location) (path : Path) : Except Fault Location := do
  let location ← tree.locate directory path
  match tree.get? location with
  | some _ => return location
  | none => throw .notFound

/-- The bytes of a file. -/
def read (tree : FileTree) (directory : Location) (path : Path) :
    Except Fault (List UInt8) := do
  match ← tree.entry? directory path with
  | some (.file bytes) => return bytes
  | some .directory => throw .isADirectory
  | none => throw .notFound

/-- The listing of a directory. -/
def walk (tree : FileTree) (directory : Location) (path : Path) : Listing :=
  match tree.existing directory path with
  | .error fault => .unreadable fault
  | .ok location =>
    match tree.enter location with
    | .error fault => .unreadable fault
    | .ok () => tree.listing location

/-- Follow components from a location and make the directories that are missing. -/
def makeAlong (tree : FileTree) : Location → List Path.Component → Except Fault Unit × FileTree
  | _, [] => (.ok (), tree)
  | _, .root :: rest => makeAlong tree [] rest
  | here, .up :: rest => makeAlong tree here.dropLast rest
  | here, .name name :: rest =>
    if nameLimit < name.length then (.error .nameTooLong, tree)
    else
      let next := here ++ [name]
      match tree.get? next with
      | some .directory => makeAlong tree next rest
      | some (.file _) => (.error (if rest.isEmpty then .alreadyExists else .notADirectory), tree)
      | none => makeAlong (tree.put next .directory) next rest

/-- Make a directory and those above it that are missing. -/
def makeDirectories (tree : FileTree) (directory : Location) (path : Path) :
    Except Fault Unit × FileTree :=
  if path.bytes.isEmpty then (.ok (), tree)
  else
    match checkPath path with
    | .error fault => (.error fault, tree)
    | .ok () => tree.makeAlong directory path.components

/-- Put a file or a directory at a path, and make the directories that lead there. -/
def plant (tree : FileTree) (directory : Location) (path : Path) (entry : FileEntry) :
    Except Fault FileTree := do
  let above := path.components.dropLast
  let (made, tree) := tree.makeAlong directory above
  made
  return tree.put (← tree.locate directory path) entry

/-- The location of a file that is to be opened for writing, and what stands there. -/
def writable (tree : FileTree) (directory : Location) (path : Path) :
    Except Fault (Location × Option FileEntry) := do
  let location ← tree.locate directory path
  if namesDirectory path then throw .isADirectory
  return (location, tree.get? location)

/-- Make an empty file where nothing stands. -/
def createNew (tree : FileTree) (directory : Location) (path : Path) : Except Fault FileTree := do
  match ← tree.writable directory path with
  | (location, none) => return tree.put location (.file [])
  | (_, some _) => throw .alreadyExists

/-- Make an empty file unless there is a file already, and give its location. -/
def openFile (tree : FileTree) (directory : Location) (path : Path) :
    Except Fault (Location × FileTree) := do
  match ← tree.writable directory path with
  | (location, none) => return (location, tree.put location (.file []))
  | (location, some (.file _)) => return (location, tree)
  | (_, some .directory) => throw .isADirectory

/-- Write the bytes of a file that exists. -/
def write (tree : FileTree) (directory : Location) (path : Path) (bytes : List UInt8) :
    Except Fault FileTree := do
  match ← tree.writable directory path with
  | (location, some (.file _)) => return tree.put location (.file bytes)
  | (_, some .directory) => throw .isADirectory
  | (_, none) => throw .notFound

/-- Give a file another name; a file that has that name goes. -/
def rename (tree : FileTree) (directory : Location) (source target : Path) :
    Except Fault FileTree := do
  let start ← tree.existing directory source
  let goal ← tree.locate directory target
  match tree.get? start with
  | some (.file bytes) =>
    if namesDirectory target then throw .notADirectory
    if tree.get? goal = some .directory then throw .isADirectory
    return (tree.erase start).put goal (.file bytes)
  | _ => throw .isADirectory

/-- Remove a file. -/
def remove (tree : FileTree) (directory : Location) (path : Path) : Except Fault FileTree := do
  let location ← tree.existing directory path
  match tree.get? location with
  | some (.file _) => return tree.erase location
  | _ => throw .isADirectory

end FileTree

end LocaleWatch
