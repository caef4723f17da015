import LocaleWatch.Cache.Store
import LocaleWatch.Git.Repository
import LocaleWatch.Tracking

/-!
# Tracking on the system

What the tracker asks is answered by the version-control program and by the files of the
cache directory.
-/

namespace LocaleWatch

namespace GitRepository

/-- How a request of the tracker is answered on the system. -/
def meaning (repository : GitRepository) (folder : CacheFolder) :
    (r : Tracking.Request) → Program Host (Tracking.Answer r)
  | .isCancelled => .ask (I := Host) .isCancelled .done
  | .cancel => .ask (I := Host) .cancel .done
  | .query query => (repository.answer query).run
  | .read category key => (folder.readEntry category key).run
  | .write category key bytes => (folder.writeEntry category key bytes).run
  | .delete category key => (folder.removeEntry category key).run
  | .holds category key => (folder.hasEntry category key).run

/-- Ask a question about the history of a working copy. -/
def askHistory {α : Type} (repository : GitRepository) (folder : CacheFolder)
    (question : History α) : Attempt Host HistoryError α :=
  ExceptT.mk (question.run.interpret (repository.meaning folder))

end GitRepository

end LocaleWatch
