import LocaleWatch.Repository.Query

/-!
# A repository in tables

A repository that is given by its answers: for each query a table from what is asked to
what is answered. What no table knows is empty. Only the two orders change it, and only a
pull does: it puts the fresh commits on top of the main branch.
-/

namespace LocaleWatch

/-- A table: the first row of a key counts. -/
abbrev Table (κ α : Type) : Type := List (κ × α)

/-- Put a row into a table, in place of the one with its key. -/
def Table.put {κ α : Type} [DecidableEq κ] (table : Table κ α) (key : κ) (value : α) :
    Table κ α :=
  (key, value) :: table.filter (·.1 ≠ key)

/-- The answers of a repository. Paths are known by the texts that show them. -/
structure Tables where
  main : List Commit := []
  fresh : List Commit := []
  files : List String := []
  directories : Table String (List String) := []
  last : Table String Commit := []
  after : Table (String × CommitId) (List Commit) := []
  ancestors : Table CommitId (List Commit) := []
  mergePoints : Table CommitId (List Commit) := []
  changed : Table CommitId (List String) := []
  parents : Table CommitId (List CommitId) := []
  between : Table (CommitId × CommitId) (List String) := []
  deriving DecidableEq, Repr

namespace Tables

/-- The answer to a query, and the tables afterwards. -/
def answer (tables : Tables) : (query : Query) → Except RepositoryError query.Result × Tables
  | .fileExists path => (.ok (tables.files.contains path.display), tables)
  | .files directory => (.ok ((tables.directories.lookup directory.display).getD []), tables)
  | .lastCommit path => (.ok (tables.last.lookup path.display), tables)
  | .commitsAfter path start =>
    (.ok ((tables.after.lookup (path.display, start)).getD []), tables)
  | .mainBranch => (.ok tables.main, tables)
  | .ancestors commit => (.ok ((tables.ancestors.lookup commit).getD []), tables)
  | .mergePoints commit => (.ok ((tables.mergePoints.lookup commit).getD []), tables)
  | .filesIn commit => (.ok ((tables.changed.lookup commit).getD []), tables)
  | .parents commit =>
    match tables.parents.lookup commit with
    | some parents => (.ok parents, tables)
    | none => (.error (.commandFailed (Query.parents commit).operation
        ("rev-list --parents -n 1 " ++ commit.text) "fatal: bad revision"), tables)
  | .filesBetween first last => (.ok ((tables.between.lookup (first, last)).getD []), tables)
  | .fetch => (.ok (), tables)
  | .pull => (.ok (), { tables with main := tables.fresh ++ tables.main, fresh := [] })
  | .freshCommits => (.ok tables.fresh, tables)
  | .mainHead => (.ok (tables.main.head?.map (·.id)), tables)

end Tables

end LocaleWatch
