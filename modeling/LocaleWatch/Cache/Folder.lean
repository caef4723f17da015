import LocaleWatch.Digest
import LocaleWatch.Path

/-!
# The cache directory

```text
<root>/<category>/<digest of the key>.json    one entry
<root>/reports/<language>.json                the latest report of a language
<root>/locks/<name>.lock                      a lock that several processes share
```

An entry's key may be any text: only its digest appears in the file's name.
-/

namespace LocaleWatch

/-- A cache directory. -/
structure CacheFolder where
  root : Path
  deriving DecidableEq, Repr

namespace CacheFolder

/-- The directory of a category. -/
def category (folder : CacheFolder) (category : String) : Path :=
  folder.root.join (Path.ofText category)

/-- The file of an entry. -/
def entry (folder : CacheFolder) (category key : String) : Path :=
  (folder.category category).join (Path.ofText (Sha256.hexDigest key ++ ".json"))

/-- The directory of the reports. -/
def reports (folder : CacheFolder) : Path :=
  folder.root.join (Path.ofText "reports")

/-- The report of a language. -/
def report (folder : CacheFolder) (language : String) : Path :=
  folder.reports.join (Path.ofText (language ++ ".json"))

/-- The directory of the locks. -/
def locks (folder : CacheFolder) : Path :=
  folder.root.join (Path.ofText "locks")

/-- The file of a lock. -/
def lock (folder : CacheFolder) (name : String) : Path :=
  folder.locks.join (Path.ofText (name ++ ".lock"))

/-- The cache directory of a user: below the absolute directory that the environment
names for caches, else below `.cache` in the home directory. -/
def ofUser (home : Path) (caches? : Option Path) : CacheFolder :=
  let base :=
    match caches? with
    | some caches => if caches.isAbsolute then caches else home.join (Path.ofText ".cache")
    | none => home.join (Path.ofText ".cache")
  ⟨base.join (Path.ofText "l10n-tracker")⟩

end CacheFolder

end LocaleWatch
