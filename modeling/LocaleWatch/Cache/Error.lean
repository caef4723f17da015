import LocaleWatch.Cache.Category
import LocaleWatch.Fault
import LocaleWatch.Path

/-!
# Errors of the cache
-/

namespace LocaleWatch

open Text

/-- The two ways to use an entry that a cancelled run is refused. -/
inductive CacheAccess where
  | read
  | write
  deriving DecidableEq, Repr

/-- The word for an access. -/
def CacheAccess.word : CacheAccess → String
  | .read => "read"
  | .write => "write"

/-- Why the cache refused a request. -/
inductive CacheError where
  | read (file : Path) (fault : Fault)
  | write (file : Path) (fault : Fault)
  | delete (file : Path) (fault : Fault)
  | undecodable (category key : String)
  | invalidCategory (error : InvalidCategory)
  | cancelled (access : CacheAccess)
  deriving DecidableEq, Repr

/-- The wording of an error. -/
def CacheError.message : CacheError → String
  | .read file fault => "failed to read cache entry " ++ file.display ++ ": " ++ fault.message
  | .write file fault => "failed to write cache entry " ++ file.display ++ ": " ++ fault.message
  | .delete file fault => "failed to delete cache entry " ++ file.display ++ ": " ++ fault.message
  | .undecodable category key => "failed to deserialize " ++ category ++ "/" ++ quote key
  | .invalidCategory error => error.message
  | .cancelled access => "cache " ++ access.word ++ " cancelled"

end LocaleWatch
