import LocaleWatch.FileTree.Access

/-!
# A working copy to rehearse on

The files that make a directory a working copy, with a repository that knows its references
by name only: each holds the same identifier, and the history is told elsewhere.
-/

namespace LocaleWatch

/-- What makes a directory a working copy. -/
structure WorkingCopy where
  head : List UInt8 := Text.bytes "ref: refs/heads/main\n"
  settings : List UInt8
  references : List Path := [Path.ofText "refs/heads/main"]
  deriving DecidableEq, Repr

namespace WorkingCopy

/-- The settings of a usual repository. -/
def usualSettings (isBare : Bool) : List UInt8 :=
  Text.bytes ("[core]\n\trepositoryformatversion = 0\n\tfilemode = true\n\tbare = " ++
    (if isBare then "true" else "false") ++ "\n")

/-- What each reference holds. -/
def identifier : List UInt8 := List.replicate 40 0x31

/-- Put entries below a directory; what cannot be put there is left out. -/
def putAll (directory : Location) (entries : List (Path × FileEntry)) (tree : FileTree) :
    FileTree :=
  entries.foldl (fun tree (path, entry) =>
    (tree.plant directory path entry).toOption.getD tree) tree

/-- Make a directory a working copy. -/
def install (copy : WorkingCopy) (directory : Location) (tree : FileTree) : FileTree :=
  let own : List (Path × FileEntry) := [
    (Path.ofText ".git/HEAD", .file copy.head),
    (Path.ofText ".git/config", .file copy.settings),
    (Path.ofText ".git/objects", .directory),
    (Path.ofText ".git/refs", .directory)]
  let references := copy.references.map fun name =>
    ((Path.ofText ".git").join name, FileEntry.file identifier)
  putAll directory (own ++ references) tree

/-- Put files into a directory, empty ones, and directories, whose paths end in a
separator. -/
def putFiles (paths : List Path) (directory : Location) (tree : FileTree) : FileTree :=
  putAll directory (paths.map fun path =>
    (path, if path.bytes.getLast? = some slash then .directory else .file [])) tree

end WorkingCopy

end LocaleWatch
