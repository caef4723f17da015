import LocaleWatch.Cache.Keyed

/-!
# The main branch

The commits of the main branch along first parents. The list is kept in the cache until
a refresh brings new commits.
-/

namespace LocaleWatch

/-- The main branch along first parents. -/
structure MainBranch where
  commits : List Commit
  deriving DecidableEq, Repr, Inhabited

namespace MainBranch

/-- The newest commit. -/
def head? (main : MainBranch) : Option Commit := main.commits.head?

/-- Whether a commit is on the branch. -/
def contains (main : MainBranch) (id : CommitId) : Bool :=
  main.commits.any (·.id = id)

/-- The branch as it is going to be once `fresh`, newest first, has been put on top. -/
def extendedWith (main : MainBranch) (fresh : List Commit) : MainBranch :=
  ⟨fresh ++ main.commits⟩

/-- The first of some commits that is on the branch. -/
def firstOn? (main : MainBranch) (commits : List Commit) : Option Commit :=
  commits.find? fun commit => main.contains commit.id

@[simp] theorem contains_extendedWith (main : MainBranch) (fresh : List Commit) (id : CommitId) :
    (main.extendedWith fresh).contains id = (fresh.any (·.id = id) || main.contains id) :=
  List.any_append

theorem contains_iff {main : MainBranch} {id : CommitId} :
    main.contains id = true ↔ ∃ commit ∈ main.commits, commit.id = id := by
  simp [contains]

end MainBranch

namespace History

/-- The category of the entry for the main branch. -/
def mainBranchCategory : String := "main_branch_commits"

/-- The main branch. -/
def mainBranch : History MainBranch := do
  return ⟨← Cache.get mainBranchCategory "" (Tracking.query .mainBranch)⟩

/-- Drop the kept main branch. -/
def forgetMainBranch : History Unit :=
  Attempt.mapError .cache (Cache.drop mainBranchCategory "")

/-- Whether a commit is on the main branch. -/
def isOnMain (commit : CommitId) : History Bool := do
  return (← mainBranch).contains commit

end History

end LocaleWatch
