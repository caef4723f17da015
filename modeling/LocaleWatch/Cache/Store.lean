import LocaleWatch.Cache.Error
import LocaleWatch.Cache.Folder
import LocaleWatch.Replacement

/-!
# Entries as files

Each entry of the cache is one file below the cache directory. A category that could lead
out of that directory is refused before any file is touched.
-/

namespace LocaleWatch

namespace CacheFolder

/-- The file of an entry whose category is a category. -/
def entryFile (folder : CacheFolder) (category key : String) : Except CacheError Path :=
  match Category.check category with
  | .ok () => .ok (folder.entry category key)
  | .error error => .error (.invalidCategory error)

/-- The bytes of an entry; none if it is absent. -/
def readEntry (folder : CacheFolder) (category key : String) :
    Attempt Host CacheError (Option (List UInt8)) := do
  let file ← folder.entryFile category key
  match ← Attempt.result (Host.read file) with
  | .ok bytes => return some bytes
  | .error .notFound => return none
  | .error fault => throw (.read file fault)

/-- Write an entry, in place of what it held. -/
def writeEntry (folder : CacheFolder) (category key : String) (bytes : List UInt8) :
    Attempt Host CacheError Unit := do
  let file ← folder.entryFile category key
  Attempt.mapError (.write file) (Replacement.run file bytes)

/-- Remove an entry; it may be absent. -/
def removeEntry (folder : CacheFolder) (category key : String) :
    Attempt Host CacheError Unit := do
  let file ← folder.entryFile category key
  match ← Attempt.result (Host.remove file) with
  | .ok () | .error .notFound => return ()
  | .error fault => throw (.delete file fault)

/-- Whether there is an entry. -/
def hasEntry (folder : CacheFolder) (category key : String) :
    Attempt Host CacheError Bool := do
  let file ← folder.entryFile category key
  Attempt.mapError (.read file) (Host.isThere file)

end CacheFolder

end LocaleWatch
