import LocaleWatch.Git.Reference
import LocaleWatch.Git.Settings
import LocaleWatch.Host

/-!
# A stand-in for the version-control library

Where the library itself cannot be called, its answers about a place are found out from the
files there, as far as this is simple: the repository is a directory and every reference is a
file of its own.

The repository of a place is the directory `.git` in it, or the place itself. A repository
is a directory with a file `HEAD` and the directories `objects` and `refs`. Its working
copy is the directory around it, unless its settings name another.
-/

namespace LocaleWatch

/-- How files are looked at. -/
structure FileView (m : Type → Type) where
  kind : Path → m (Except Fault FileKind)
  resolve : Path → m (Except Fault Path)
  read : Path → m (Except Fault (List UInt8))

namespace FileView

variable {m : Type → Type} [Monad m] (files : FileView m)

/-- What the library tells, or why it does not. -/
abbrev Telling (m : Type → Type) (α : Type) : Type := ExceptT LibraryFault m α

/-- A path below a directory. -/
private def inside (directory : Path) (name : String) : Path :=
  directory.join (Path.ofText name)

/-- Whether something of a kind stands at a path. -/
def hasKind (path : Path) (kind : FileKind) : Telling m Bool := do
  match ← files.kind path with
  | .ok found => return found = kind
  | .error _ => return false

/-- Whether a directory is a repository. -/
def isRepository (directory : Path) : Telling m Bool := do
  if !(← files.hasKind (inside directory "HEAD") .file) then return false
  if !(← files.hasKind (inside directory "objects") .directory) then return false
  files.hasKind (inside directory "refs") .directory

/-- The repository of a place. -/
def repository (place : Path) : Telling m Path := do
  match ← files.resolve place with
  | .error .notFound | .error .notADirectory => throw .notFound
  | .error _ => throw .other
  | .ok directory =>
    if ← files.isRepository (inside directory ".git") then return inside directory ".git"
    if ← files.isRepository directory then return directory
    throw .notFound

/-- The settings of a repository; they may be missing. -/
def settings (directory : Path) : Telling m GitSettings := do
  match ← files.read (inside directory "config") with
  | .error .notFound => return ⟨[]⟩
  | .error _ => throw .other
  | .ok bytes =>
    match GitSettings.parse? (Text.lossyText bytes) with
    | some settings => return settings
    | none => throw .other

/-- The directory around a repository, with a separator at its end. -/
def around (directory : Path) : Path :=
  (directory.parent?.getD directory).join ⟨[]⟩

/-- The root of the working copy of the repository at a place: the directory that the settings
name, from the repository's own directory, or else the directory around it. -/
def workingCopy (place : Path) : Telling m (Option Path) := do
  let directory ← files.repository place
  let settings ← files.settings directory
  if !settings.isSupported then throw .other
  match settings.isBare? with
  | none => throw .other
  | some true => return none
  | some false =>
    match settings.value? "core.worktree" with
    | some (some "") => throw .other
    | some (some named) =>
      match ← files.resolve (directory.join (Path.ofText named)) with
      | .ok found => return some (found.join ⟨[]⟩)
      | .error .notFound | .error .notADirectory => throw .notFound
      | .error _ => throw .other
    | _ => return some (around directory)

/-- The name at the end of a chain of references that starts with `name` and has at most
`length` further ones. -/
def followReference (directory : Path) : (length : Nat) → List UInt8 → Telling m (List UInt8)
  | length, name => do
    match ← files.read (directory.join ⟨name⟩) with
    | .error _ => throw .other
    | .ok bytes =>
      match GitReference.ofBytes? bytes, length with
      | some .commit, _ => return name
      | some (.symbolic next), length + 1 =>
        match GitReference.name? next with
        | some next => followReference directory length next
        | none => throw .other
      | _, _ => throw .other

/-- How many references a chain may have. -/
def chainLimit : Nat := 5

/-- The full name of the reference to which `HEAD` leads. -/
def head (place : Path) : Telling m (Option String) := do
  let directory ← files.repository place
  return Text.text? (← files.followReference directory chainLimit (Text.bytes "HEAD"))

end FileView

end LocaleWatch
