import LocaleWatch.Proofs.Cache.StoreCalls
import LocaleWatch.Proofs.Files.Granting
import LocaleWatch.Watch.Run

/-!
# Entries on a disk

The files below a cache directory are a map from categories and keys to bytes. The relation
between the two is `Disk.Stores`: the place of each entry has a file with the entry's bytes, or
nothing. In a run in which nothing is refused that could be granted every call keeps it, and is
answered as the map answers.

Three facts about places carry this. Different entries lie in different places, as a category and
a digest are each one name. No temporary file lies in the place of an entry. And what is missing on
the way to an entry lies above all entries, so that directories which are made on the way, and
those that are found missing, are no entry and no temporary file.

The last needs that the way to the cache directory leaves by `..` only directories that are there.
While `missing` is not there, `missing/../cache` leads nowhere, whatever is in `cache`; once a
replacement has made it, the same path leads to `cache`, and entries appear that were denied
before. Runs see to it: they take their lock before they look anything up, and its directory lies
below the cache directory.

## Main results

* `Disk.straight_of_prepared` — who has prepared the lock has made the way to the cache directory.
* `Disk.Stores.interpreted` — calls in a calm run are answered as by a map.
* `Disk.Stores.stopped` — a write that is stopped leaves the map with the old entry or the new one.
* `Disk.files_beside` — a call leaves every file as it was but that of its entry.
* `Disk.store_refines_map` — what holds of the files of a cache directory, all together.
* `Disk.store_strays_from_map` — where no map is found.
-/

namespace LocaleWatch

open Replacement Text

namespace Disk

variable {σ : Type}

/-! ## Places of entries -/

section

variable (disk : Disk σ) (folder : CacheFolder) {category : String}

/-- A file in a directory of a cache directory lies there. -/
theorem leads_inside {folder : CacheFolder} {file : Path} {directory name : List UInt8}
    (place : file.components = folder.root.components ++ [.name directory, .name name]) :
    disk.leads file = disk.leads folder.root ++ [directory, name] := by
  rw [FileSystem.leads, place, Location.along_append]
  simp [Location.along, Location.step, FileSystem.leads]

/-- So does a temporary file for it. -/
theorem leads_temporary_inside {folder : CacheFolder} {file : Path}
    {directory name : List UInt8}
    (place : file.components = folder.root.components ++ [.name directory, .name name])
    (ticket : Nat × UInt64) :
    disk.leads (temporary file ticket) =
      disk.leads folder.root ++ [directory, temporaryName name ticket] := by
  rw [disk.leads_temporary ticket (CacheFolder.fileName?_inside place), place]
  simp [Location.along, Location.step, FileSystem.leads, List.dropLast_append_of_ne_nil]

theorem leads_category (valid : Category.check category = .ok ()) :
    disk.leads (folder.category category) = disk.leads folder.root ++ [bytes category] := by
  rw [FileSystem.leads, folder.components_category valid, Location.along_name, FileSystem.leads]

/-- An entry lies in the directory of its category, below the cache directory. -/
theorem leads_entry (valid : Category.check category = .ok ()) (key : String) :
    disk.leads (folder.entry category key) =
      disk.leads folder.root ++ [bytes category, CacheFolder.entryName key] :=
  disk.leads_inside (folder.components_entry valid key)

/-- A temporary file of an entry lies in the directory of its category. -/
theorem leads_temporary_entry (valid : Category.check category = .ok ()) (key : String)
    (ticket : Nat × UInt64) :
    disk.leads (temporary (folder.entry category key) ticket) =
      disk.leads folder.root ++
        [bytes category, temporaryName (CacheFolder.entryName key) ticket] :=
  disk.leads_temporary_inside (folder.components_entry valid key) ticket

/-- Different entries lie in different places, unless their keys have the same digest. -/
theorem leads_entry_inj {key other name : String} (valid : Category.check category = .ok ())
    (valid' : Category.check other = .ok ()) :
    disk.leads (folder.entry category key) = disk.leads (folder.entry other name) ↔
      category = other ∧ Sha256.hexDigest key = Sha256.hexDigest name := by
  rw [disk.leads_entry folder valid, disk.leads_entry folder valid', List.append_cancel_left_eq]
  constructor
  · intro same
    simp only [List.cons.injEq, and_true] at same
    exact ⟨bytes_injective same.1, CacheFolder.entryName_inj.1 same.2⟩
  · rintro ⟨rfl, same⟩
    rw [CacheFolder.entryName_inj.2 same]

/-- No temporary file of an entry lies in the place of an entry. -/
theorem leads_temporary_ne_entry (valid : Category.check category = .ok ()) (key : String)
    (ticket : Nat × UInt64) (other name : String) :
    disk.leads (temporary (folder.entry category key) ticket) ≠
      disk.leads (folder.entry other name) :=
  (disk.apart_of_temporary ticket (folder.getLast?_entry other name) (by decide)).2
    (folder.fileName?_entry_ne_none valid key)

end

/-- Who has prepared the lock that runs share has made the way to the cache directory. -/
theorem straight_of_prepared (disk : Disk σ) (folder : CacheFolder) {state : σ}
    (prepared :
      ((Lock.prepare (Run.lockFile folder)).run.run disk.handle state).1 = .ok ()) :
    disk.Straight ((Lock.prepare (Run.lockFile folder)).run.run disk.handle state).2
      folder.root.components := by
  have isName : Path.IsName (bytes ("refresh" ++ ".lock")) := ⟨by decide, rfl⟩
  have shape := folder.components_lock isName
  have ends : (Run.lockFile folder).components.getLast? =
      some (.name (bytes ("refresh" ++ ".lock"))) := by
    rw [Run.lockFile, shape, List.getLast?_append_of_ne_nil _ (List.cons_ne_nil _ _)]
    rfl
  obtain ⟨directory, inner, cut⟩ := Path.components_parent ends nofun
  have under : folder.root.components <+: directory.components := by
    have same : (folder.root.components ++ [.name (bytes "locks")]) ++
        [.name (bytes ("refresh" ++ ".lock"))] =
          directory.components ++ [.name (bytes ("refresh" ++ ".lock"))] := by
      rw [← cut, Run.lockFile, shape, List.append_assoc]
      rfl
    exact ⟨[.name (bytes "locks")], List.append_cancel_right same⟩
  have asks : (Lock.prepare (Run.lockFile folder)).run =
      .ask (I := Host) (.makeDirectories directory) .done := by
    unfold Lock.prepare
    rw [inner]
    rfl
  rw [asks] at prepared ⊢
  exact disk.straight_of_made prepared under

/-! ## The files of a map -/

/-- Whether the files of entries are those of a map, as far as keys of a set are concerned, and
nothing else is among their temporary files than what was left over; the directories of some
categories are there or can be made. -/
structure Stores (disk : Disk σ) (folder : CacheFolder) (categories keys : Set String)
    (leftover : Finset Location) (entries : Entries) (state : σ) : Prop where
  straight : disk.Straight state folder.root.components
  clear {category : String} (valid : Category.check category = .ok ())
    (used : category ∈ categories) {place : Location}
    (passes : disk.Passes (folder.category category) place) :
    FileEntry.content (disk.stands state place) = none
  stands {category key : String} (valid : Category.check category = .ok ()) (used : key ∈ keys) :
    disk.stands state (disk.leads (folder.entry category key)) =
      (entries category key).map .file
  listed {category key : String} (valid : Category.check category = .ok ()) (used : key ∈ keys)
    (ticket : Nat × UInt64)
    (there : disk.stands state (disk.leads (temporary (folder.entry category key) ticket)) ≠ none) :
    disk.leads (temporary (folder.entry category key) ticket) ∈ leftover

variable {disk : Disk σ} {folder : CacheFolder} {categories keys : Set String}
  {leftover more : Finset Location} {entries entries' : Entries} {state later : σ}
  {category key : String} {base : Location → Option FileEntry} {bytes : List UInt8}

namespace Stores

/-- Where entries are regular files or absent, the files are those of a map. -/
theorem of_regular (straight : disk.Straight state folder.root.components)
    (clear : ∀ category, Category.check category = .ok () → category ∈ categories →
      ∀ place, disk.Passes (folder.category category) place →
        FileEntry.content (disk.stands state place) = none)
    (regular : ∀ category key, Category.check category = .ok () → key ∈ keys →
      disk.stands state (disk.leads (folder.entry category key)) ≠ some .directory ∧
        ∀ ticket,
          disk.stands state (disk.leads (temporary (folder.entry category key) ticket)) ≠ none →
            disk.leads (temporary (folder.entry category key) ticket) ∈ leftover) :
    disk.Stores folder categories keys leftover
      (fun category key => disk.files state (disk.leads (folder.entry category key))) state where
  straight := straight
  clear {category} valid used {place} passes := clear category valid used place passes
  stands {category key} valid used := by
    have noDirectory := (regular category key valid used).1
    unfold FileSystem.files
    cases there : disk.stands state (disk.leads (folder.entry category key)) with
    | none => rfl
    | some entry =>
      cases entry with
      | directory => exact absurd there noDirectory
      | file bytes => rfl
  listed {category key} valid used := (regular category key valid used).2

theorem of_same (stores : disk.Stores folder categories keys leftover entries state)
    (same : disk.stands later = disk.stands state) :
    disk.Stores folder categories keys leftover entries later where
  straight := stores.straight.mono fun location there => by rw [same, there]
  clear {_} valid used {_} passes := same ▸ stores.clear valid used passes
  stands valid used := by rw [same, stores.stands valid used]
  listed valid used ticket there := stores.listed valid used ticket (same ▸ there)

/-- On the way to the directory of a category there are directories, and what is missing there lies
above all entries. -/
theorem passed_cases (stores : disk.Stores folder categories keys leftover entries state)
    (valid : Category.check category = .ok ()) (inUse : category ∈ categories) {place : Location}
    (passes : disk.Passes (folder.category category) place) :
    disk.stands state place = some .directory ∨
      disk.stands state place = none ∧ place.length ≤ (disk.leads folder.root).length + 1 := by
  have clear := stores.clear valid inUse passes
  cases there : disk.stands state place with
  | none =>
    have straight : disk.Straight state (folder.category category).components := by
      rw [folder.components_category valid]
      exact stores.straight.append (by simp)
    have short := (disk.above_of_missing straight passes there).length_le
    rw [disk.leads_category folder valid, List.length_append] at short
    exact .inr ⟨rfl, short⟩
  | some entry =>
    cases entry with
    | directory => exact .inl rfl
    | file bytes =>
      rw [there] at clear
      cases clear

section

variable (stores : disk.Stores folder categories keys leftover entries state)
  (valid : Category.check category = .ok ())

include stores valid

theorem straight_entry (key : String) :
    disk.Straight state (folder.entry category key).components := by
  rw [folder.components_entry valid key]
  exact stores.straight.append (by simp)

variable (used : key ∈ keys)

include used

/-- One entry changes, and a temporary file of it may be left over. -/
theorem changed (distinct : Set.InjOn Sha256.hexDigest keys) (within : leftover ⊆ more)
    (directories : ∀ location, disk.stands state location = some .directory →
      disk.stands later location = some .directory)
    (files : ∀ location, FileEntry.content (disk.stands later location) ≠ none →
      FileEntry.content (disk.stands state location) ≠ none ∨
        (disk.leads (folder.entry category key)).length ≤ location.length)
    (here : disk.stands later (disk.leads (folder.entry category key)) =
      (entries' category key).map .file)
    (beside : ∀ location, (disk.leads (folder.entry category key)).length ≤ location.length →
      location ≠ disk.leads (folder.entry category key) →
      disk.stands later location = disk.stands state location ∨ location ∈ more ∧
        ∃ ticket, location = disk.leads (temporary (folder.entry category key) ticket))
    (others : ∀ other name, ¬(other = category ∧ name = key) →
      entries' other name = entries other name) :
    disk.Stores folder categories keys more entries' later where
  straight := stores.straight.mono directories
  clear {other} isCategory isUsed {place} passes := by
    rcases stores.passed_cases isCategory isUsed passes with there | ⟨-, short⟩
    · rw [directories place there]
      rfl
    · by_contra content
      rcases files place content with old | deep
      · exact old (stores.clear isCategory isUsed passes)
      · rw [disk.leads_entry folder valid, List.length_append] at deep
        simp only [List.length_cons, List.length_nil] at deep
        omega
  stands {other name} isCategory isUsed := by
    by_cases same : other = category ∧ name = key
    · rw [same.1, same.2, here]
    · have elsewhere : disk.leads (folder.entry other name) ≠
          disk.leads (folder.entry category key) := by
        intro equal
        obtain ⟨isSame, digests⟩ := (disk.leads_entry_inj folder isCategory valid).1 equal
        exact same ⟨isSame, distinct isUsed used digests⟩
      have deep : (disk.leads (folder.entry category key)).length ≤
          (disk.leads (folder.entry other name)).length := by
        rw [disk.leads_entry folder valid, disk.leads_entry folder isCategory]
        simp
      rw [others other name same, ← stores.stands isCategory isUsed]
      rcases beside _ deep elsewhere with kept | ⟨-, ticket, taken⟩
      · exact kept
      · exact absurd taken.symm (disk.leads_temporary_ne_entry folder valid key ticket other name)
  listed {other name} isCategory isUsed ticket there := by
    have deep : (disk.leads (folder.entry category key)).length ≤
        (disk.leads (temporary (folder.entry other name) ticket)).length := by
      rw [disk.leads_entry folder valid, disk.leads_temporary_entry folder isCategory]
      simp
    have elsewhere := disk.leads_temporary_ne_entry folder isCategory name ticket category key
    rcases beside _ deep elsewhere with kept | ⟨listed, -⟩
    · exact within (stores.listed isCategory isUsed ticket (kept ▸ there))
    · exact listed

/-! ## Entries that are looked at -/

section

variable (inUse : category ∈ categories)

include inUse

/-- At the path of an entry its file is found, or nothing. -/
theorem find_entry :
    disk.find state (folder.entry category key) = some ((entries category key).map .file) := by
  rw [← stores.stands valid used]
  refine disk.find_eq (stores.straight_entry valid key) fun front component rest shape => ?_
  refine stores.clear valid inUse ⟨front, ?_, rfl⟩
  have cut : (folder.category category).components ++
      [.name (CacheFolder.entryName key)] = front ++ component :: rest := by
    rw [← shape, folder.components_category valid, folder.components_entry valid key,
      List.append_assoc]
    rfl
  have under : front <+: (front ++ component :: rest).dropLast :=
    Location.under_dropLast (List.prefix_append _ _) (by simp)
  rwa [← cut, List.dropLast_concat] at under

theorem told_read (grants : disk.Grants state (.read (folder.entry category key))) :
    disk.told (.read (folder.entry category key)) state =
      CacheFolder.answered id (entries category key) := by
  refine grants _ ?_
  rw [FileSystem.due, stores.find_entry valid used inUse]
  cases entries category key <;> rfl

theorem told_kind (grants : disk.Grants state (.kind (folder.entry category key))) :
    disk.told (.kind (folder.entry category key)) state =
      CacheFolder.answered (fun _ => FileKind.file) (entries category key) := by
  refine grants _ ?_
  rw [FileSystem.due, stores.find_entry valid used inUse]
  cases entries category key <;> rfl

theorem told_remove (grants : disk.Grants state (.remove (folder.entry category key))) :
    disk.told (.remove (folder.entry category key)) state =
      CacheFolder.answered (fun _ => ()) (entries category key) := by
  refine grants _ ?_
  rw [FileSystem.due, stores.find_entry valid used inUse]
  cases entries category key <;> rfl

end

/-! ## Entries that are removed -/

theorem removed (distinct : Set.InjOn Sha256.hexDigest keys)
    (told : disk.told (.remove (folder.entry category key)) state =
      CacheFolder.answered (fun _ => ()) (entries category key)) :
    disk.Stores folder categories keys leftover (entries.remove category key)
      (disk.after (.remove (folder.entry category key)) state) := by
  have now : disk.stands (disk.after (.remove (folder.entry category key)) state) =
      Function.update (disk.stands state) (disk.leads (folder.entry category key)) none := by
    cases held : entries category key with
    | some bytes => exact (disk.remove_ok (told.trans (by rw [held]; rfl))).2
    | none =>
      have nothing := stores.stands valid used
      rw [held, Option.map_none] at nothing
      rw [disk.remove_error (told.trans (by rw [held]; rfl)), ← nothing, Function.update_eq_self]
  refine stores.changed valid used distinct subset_rfl (fun location there => ?_)
    (fun location content => .inl ?_) ?_ (fun location _ elsewhere => .inl ?_)
    fun other name => Entries.remove_of_ne
  · have elsewhere : location ≠ disk.leads (folder.entry category key) := by
      intro same
      rw [same, stores.stands valid used] at there
      simp at there
    rw [now, Function.update_of_ne elsewhere, there]
  · by_cases here : location = disk.leads (folder.entry category key)
    · rw [now, here, Function.update_self] at content
      exact absurd rfl content
    · rwa [now, Function.update_of_ne here] at content
  · rw [now, Function.update_self, Entries.remove_self, Option.map_none]
  · rw [now, Function.update_of_ne elsewhere]

/-! ## Entries that are written -/

/-- What new directories on the way to an entry leave as it was. -/
theorem grown_entry (grown : disk.Grown (folder.entry category key) state base) :
    (∀ location, disk.stands state location = some .directory →
      base location = some .directory) ∧
    (∀ location, FileEntry.content (base location) ≠ none →
      FileEntry.content (disk.stands state location) ≠ none) ∧
    base (disk.leads (folder.entry category key)) = (entries category key).map .file ∧
    ∀ location, (disk.leads (folder.entry category key)).length ≤ location.length →
      base location = disk.stands state location := by
  have beside (location : Location)
      (deep : (disk.leads (folder.entry category key)).length ≤ location.length) :
      base location = disk.stands state location :=
    disk.grown_beside (folder.fileName?_entry_ne_none valid key)
      (stores.straight_entry valid key) grown deep
  refine ⟨fun location => grown.directory, fun location content => ?_, ?_, beside⟩
  · rwa [show FileEntry.content (base location) = disk.files state location from
      congrFun grown.content location] at content
  · rw [beside _ le_rfl, stores.stands valid used]

variable (distinct : Set.InjOn Sha256.hexDigest keys)

include distinct

theorem before (grown : disk.Grown (folder.entry category key) state base)
    (same : disk.stands later = base) :
    disk.Stores folder categories keys leftover entries later := by
  obtain ⟨directories, files, here, beside⟩ := stores.grown_entry valid used grown
  subst same
  exact stores.changed valid used distinct subset_rfl directories
    (fun location content => .inl (files location content)) here
    (fun location deep _ => .inl (beside location deep)) fun _ _ _ => rfl

theorem pending {draft : Path} (grown : disk.Grown (folder.entry category key) state base)
    (pending : disk.Pending (folder.entry category key) draft base later) :
    disk.Stores folder categories keys (insert (disk.leads draft) leftover) entries later := by
  obtain ⟨directories, files, here, beside⟩ := stores.grown_entry valid used grown
  obtain ⟨ticket, rfl⟩ := pending.ours
  refine stores.changed valid used distinct (Finset.subset_insert _ _) (fun location there => ?_)
    (fun location content => ?_) ?_ (fun location deep _ => ?_) fun _ _ _ => rfl
  · have isDirectory := directories location there
    have elsewhere : location ≠ disk.leads (temporary (folder.entry category key) ticket) := by
      intro same
      rw [same, pending.free] at isDirectory
      contradiction
    rw [pending.others location elsewhere, isDirectory]
  · by_cases same : location = disk.leads (temporary (folder.entry category key) ticket)
    · right
      rw [same, disk.leads_entry folder valid, disk.leads_temporary_entry folder valid]
      simp
    · exact .inl (files location (pending.others location same ▸ content))
  · rw [pending.others _ pending.beside.symm, here]
  · by_cases same : location = disk.leads (temporary (folder.entry category key) ticket)
    · exact .inr ⟨Finset.mem_insert.2 (.inl same), ticket, same⟩
    · exact .inl ((pending.others location same).trans (beside location deep))

theorem replaced (grown : disk.Grown (folder.entry category key) state base)
    (replaced : disk.Replaced (folder.entry category key) bytes base later) :
    disk.Stores folder categories keys leftover (entries.put category key bytes) later := by
  obtain ⟨directories, files, here, beside⟩ := stores.grown_entry valid used grown
  refine stores.changed valid used distinct subset_rfl (fun location there => ?_)
    (fun location content => ?_) ?_ (fun location deep elsewhere => .inl ?_)
    fun other name => Entries.put_of_ne
  · have isDirectory := directories location there
    have elsewhere : location ≠ disk.leads (folder.entry category key) := fun same =>
      replaced.noDirectory (same ▸ isDirectory)
    rw [replaced.stands, Function.update_of_ne elsewhere, isDirectory]
  · by_cases same : location = disk.leads (folder.entry category key)
    · exact .inr (same ▸ le_rfl)
    · rw [replaced.stands, Function.update_of_ne same] at content
      exact .inl (files location content)
  · rw [replaced.stands, Function.update_self, Entries.put_self]
    rfl
  · rw [replaced.stands, Function.update_of_ne elsewhere, beside location deep]

/-- Wherever a write is stopped, whatever was refused, the files are those of the map with the old
entry or the new one, and at most one more file is left over. -/
theorem stopped (bytes : List UInt8) (count : Nat) :
    ∃ more : Finset Location, more.card ≤ leftover.card + 1 ∧
      (disk.Stores folder categories keys more entries
          ((folder.carryOut (.write category key bytes)).runFor disk.handle count state).2 ∨
        disk.Stores folder categories keys more (entries.put category key bytes)
          ((folder.carryOut (.write category key bytes)).runFor disk.handle count state).2) := by
  rw [folder.runFor_carryOut_write key valid, runFor_run]
  obtain ⟨base, grown, stage⟩ :=
    disk.stage_runFor numbers (folder.entry category key) bytes state count
  cases stage with
  | before same =>
    exact ⟨leftover, Nat.le_succ _, .inl (stores.before valid used distinct grown same)⟩
  | pending pending =>
    exact ⟨_, Finset.card_insert_le _ _, .inl (stores.pending valid used distinct grown pending)⟩
  | replaced replaced =>
    exact ⟨leftover, Nat.le_succ _, .inr (stores.replaced valid used distinct grown replaced)⟩

/-- A write in a calm run succeeds. -/
theorem written (inUse : category ∈ categories) (room : leftover.card < numbers)
    (calm : disk.Calm (run (folder.entry category key) bytes).run state) :
    ((run (folder.entry category key) bytes).run.run disk.handle state).1 = .ok () ∧
      disk.Stores folder categories keys leftover (entries.put category key bytes)
        ((run (folder.entry category key) bytes).run.run disk.handle state).2 := by
  have clear : ∀ directory place, (folder.entry category key).parent? = some directory →
      disk.Passes directory place → FileEntry.content (disk.stands state place) = none := by
    intro directory place inner passes
    refine stores.clear valid inUse ?_
    rw [FileSystem.Passes, ← folder.components_of_parent_entry valid inner]
    exact passes
  have noDirectory :
      disk.stands state (disk.leads (folder.entry category key)) ≠ some .directory := by
    rw [stores.stands valid used]
    cases entries category key <;> exact nofun
  have ends := disk.ok_of_calm (folder.fileName?_entry_ne_none valid key)
    (stores.straight_entry valid key) clear noDirectory leftover room
    (fun number => stores.listed valid used (disk.process, number)) calm
  obtain ⟨base, grown, replaced⟩ := disk.replaced_of_ok ends
  exact ⟨ends, stores.replaced valid used distinct grown replaced⟩

end

/-! ## Sequences of calls -/

variable (stores : disk.Stores folder categories keys leftover entries state)
  (distinct : Set.InjOn Sha256.hexDigest keys) (room : leftover.card < numbers)

include stores distinct room

omit stores distinct room in
/-- A write is calm if its replacement is. -/
theorem calm_run_of_carryOut (valid : Category.check category = .ok ())
    (calm : disk.Calm (folder.carryOut (.write category key bytes)) state) :
    disk.Calm (run (folder.entry category key) bytes).run state := by
  rw [folder.carryOut_write key valid] at calm
  generalize folder.entry category key = file at calm ⊢
  exact (disk.calm_bind.1 calm).1

/-- A call to which everything is granted that can be granted is answered as by the map, and leaves
the files of the map that the map becomes. -/
theorem carriedOut {call : StoreCall}
    (inUse : Category.check call.category = .ok () → call.category ∈ categories)
    (used : call.key ∈ keys) (calm : disk.Calm (folder.carryOut call) state) :
    ((folder.carryOut call).run disk.handle state).1 = (Entries.answer call entries).1 ∧
      disk.Stores folder categories keys leftover (Entries.answer call entries).2
        ((folder.carryOut call).run disk.handle state).2 := by
  cases checked : Category.check call.category with
  | error error =>
    rw [folder.carryOut_invalid checked, Entries.answer_invalid checked]
    exact ⟨rfl, stores⟩
  | ok value =>
    have inUse := inUse checked
    rw [Entries.answer_valid checked]
    cases call with
    | read category key =>
      dsimp only [StoreCall.category, StoreCall.key] at checked inUse used
      rw [folder.carryOut_read key checked] at calm ⊢
      have told := stores.told_read checked used inUse (disk.calm_ask.1 calm).1
      refine ⟨?_, stores.of_same (disk.looks (.read _) trivial state)⟩
      exact (congrArg (CacheFolder.found _) told).trans (CacheFolder.found_answered ..)
    | write category key bytes =>
      dsimp only [StoreCall.category, StoreCall.key] at checked inUse used
      have written := stores.written checked used distinct inUse room
        (calm_run_of_carryOut checked calm)
      rw [folder.run_carryOut_write key checked]
      generalize (run (folder.entry category key) bytes).run.run disk.handle state = ended at *
      exact ⟨congrArg (Except.mapError _) written.1, written.2⟩
    | delete category key =>
      dsimp only [StoreCall.category, StoreCall.key] at checked inUse used
      rw [folder.carryOut_delete key checked] at calm ⊢
      have told := stores.told_remove checked used inUse (disk.calm_ask.1 calm).1
      refine ⟨?_, stores.removed checked used distinct told⟩
      exact (congrArg (CacheFolder.gone _) told).trans (CacheFolder.gone_answered ..)
    | holds category key =>
      dsimp only [StoreCall.category, StoreCall.key] at checked inUse used
      rw [folder.carryOut_holds key checked] at calm ⊢
      have told := stores.told_kind checked used inUse (disk.calm_ask.1 calm).1
      refine ⟨?_, stores.of_same (disk.looks (.kind _) trivial state)⟩
      exact (congrArg (CacheFolder.present _) told).trans (CacheFolder.present_answered ..)

/-- Calls in a calm run are answered as by the map. -/
theorem interpreted {α : Type} {program : Program Storing α}
    (asks : program.Asks fun call : StoreCall =>
      (Category.check call.category = .ok () → call.category ∈ categories) ∧ call.key ∈ keys)
    (calm : disk.Calm (program.interpret folder.carryOut) state) :
    ((program.interpret folder.carryOut).run disk.handle state).1 =
        (program.run Entries.answer entries).1 ∧
      disk.Stores folder categories keys leftover (program.run Entries.answer entries).2
        ((program.interpret folder.carryOut).run disk.handle state).2 := by
  induction program generalizing state entries with
  | done value => exact ⟨rfl, stores⟩
  | ask call next ih =>
    obtain ⟨calmCall, calmRest⟩ : disk.Calm (folder.carryOut call) state ∧ _ :=
      disk.calm_bind.1 calm
    obtain ⟨told, after⟩ := stores.carriedOut distinct room asks.1.1 asks.1.2 calmCall
    rw [told] at calmRest
    have split : ((Program.ask call next).interpret folder.carryOut).run disk.handle state =
        ((next (Entries.answer call entries).1).interpret folder.carryOut).run disk.handle
          ((folder.carryOut call).run disk.handle state).2 := by
      refine (Program.run_bind disk.handle (folder.carryOut call) _ state).trans ?_
      rw [told]
    rw [split]
    exact ih _ after (asks.2 _) calmRest

end Stores

/-! ## All together -/

/-- Wherever a call is stopped, it has left every file as it was but that of its entry. -/
theorem files_beside {call : StoreCall} (valid : Category.check call.category = .ok ())
    (count : Nat) {location : Location}
    (elsewhere : location ≠ disk.leads (folder.entry call.category call.key))
    (there : disk.files state location ≠ none) :
    disk.files ((folder.carryOut call).runFor disk.handle count state).2 location =
      disk.files state location := by
  have single {request : Host.Request} {α : Type} (result : Host.Answer request → α)
      (after : disk.files (disk.after request state) location = disk.files state location) :
      disk.files ((Program.ask (I := Host) request fun told => .done (result told)).runFor
        disk.handle count state).2 location = disk.files state location := by
    cases count with
    | zero => rfl
    | succ count => cases count <;> exact after
  have look {request : Host.Request} (looks : request.Looks) :
      disk.files (disk.after request state) location = disk.files state location :=
    congrArg FileEntry.content (congrFun (disk.looks request looks state) location)
  cases call with
  | read category key =>
    dsimp only [StoreCall.category] at valid
    rw [folder.carryOut_read key valid]
    exact single _ (@look (.read _) trivial)
  | holds category key =>
    dsimp only [StoreCall.category] at valid
    rw [folder.carryOut_holds key valid]
    exact single _ (@look (.kind _) trivial)
  | delete category key =>
    dsimp only [StoreCall.category, StoreCall.key] at valid elsewhere
    rw [folder.carryOut_delete key valid]
    refine single _ (congrArg FileEntry.content ?_)
    cases told : (disk.told (.remove (folder.entry category key)) state : Except Fault Unit) with
    | ok value => rw [(disk.remove_ok told).2, Function.update_of_ne elsewhere]
    | error fault => rw [disk.remove_error told]
  | write category key bytes =>
    dsimp only [StoreCall.category, StoreCall.key] at valid elsewhere
    rw [folder.runFor_carryOut_write key valid, runFor_run]
    have untorn := disk.untorn_runFor numbers (folder.entry category key) bytes state count
    rcases untorn.others location elsewhere with same | ⟨new, -⟩
    · exact same
    · exact absurd new there

/-- The files below a cache directory refine a map from categories and keys to bytes.

Who has prepared the lock that runs share has made the way to the cache directory. Where that is
straight, each entry is a regular file or absent, and no file is in the place of a directory, the
files are those of a map; any number of temporary files may have been left over, as long as a
process has more numbers. Where the digests of the keys in use are different, every program of
calls is answered as by the map, if everything is granted that can be granted when it is asked for,
and it leaves the files of the map that the map becomes. A write that is stopped anywhere,
whatever it was refused, leaves the files of the map with the old entry or the new one, so that a
program that comes after it is answered by one of these.

A call that names no category is refused and asks nothing of the system. Every other call leaves
every file as it was but one, directly in the directory of its category and named by the digest of
its key. No temporary file lies in the place of an entry. -/
theorem store_refines_map (disk : Disk σ) (folder : CacheFolder) :
    (∀ state : σ,
      ((Lock.prepare (Run.lockFile folder)).run.run disk.handle state).1 = .ok () →
      disk.Straight ((Lock.prepare (Run.lockFile folder)).run.run disk.handle state).2
        folder.root.components) ∧
    (∀ (categories keys : Set String) (leftover : Finset Location) (state : σ),
      disk.Straight state folder.root.components →
      (∀ category, Category.check category = .ok () → category ∈ categories →
        ∀ place, disk.Passes (folder.category category) place →
          FileEntry.content (disk.stands state place) = none) →
      (∀ category key, Category.check category = .ok () → key ∈ keys →
        disk.stands state (disk.leads (folder.entry category key)) ≠ some .directory ∧
          ∀ ticket,
            disk.stands state (disk.leads (temporary (folder.entry category key) ticket)) ≠ none →
              disk.leads (temporary (folder.entry category key) ticket) ∈ leftover) →
      disk.Stores folder categories keys leftover
        (fun category key => disk.files state (disk.leads (folder.entry category key))) state) ∧
    (∀ (categories keys : Set String) (leftover : Finset Location) (entries : Entries) (state : σ),
      Set.InjOn Sha256.hexDigest keys →
      disk.Stores folder categories keys leftover entries state →
      (leftover.card < numbers → ∀ (α : Type) (program : Program Storing α),
        (program.Asks fun call : StoreCall =>
          (Category.check call.category = .ok () → call.category ∈ categories) ∧
            call.key ∈ keys) →
        disk.Calm (program.interpret folder.carryOut) state →
        ((program.interpret folder.carryOut).run disk.handle state).1 =
            (program.run Entries.answer entries).1 ∧
          disk.Stores folder categories keys leftover (program.run Entries.answer entries).2
            ((program.interpret folder.carryOut).run disk.handle state).2) ∧
      ∀ category key, Category.check category = .ok () → key ∈ keys → ∀ bytes count,
        ∃ more : Finset Location, more.card ≤ leftover.card + 1 ∧
          (disk.Stores folder categories keys more entries
              ((folder.carryOut (.write category key bytes)).runFor disk.handle count state).2 ∨
            disk.Stores folder categories keys more (entries.put category key bytes)
              ((folder.carryOut (.write category key bytes)).runFor disk.handle count state).2)) ∧
    (∀ (call : StoreCall) (error : InvalidCategory),
      Category.check call.category = .error error →
        folder.carryOut call = .done (call.refuse error)) ∧
    (∀ call : StoreCall, Category.check call.category = .ok () →
      let digest := Sha256.hexDigest call.key
      digest.toList.length = 64 ∧ (∀ c ∈ digest.toList, c ∈ "0123456789abcdef".toList) ∧
        ∀ state count location,
          location ≠
              disk.leads folder.root ++ [Text.bytes call.category, Text.bytes (digest ++ ".json")] →
            disk.files state location ≠ none →
            disk.files ((folder.carryOut call).runFor disk.handle count state).2 location =
              disk.files state location) ∧
    ∀ category key ticket other name, Category.check category = .ok () →
      disk.leads (temporary (folder.entry category key) ticket) ≠
        disk.leads (folder.entry other name) := by
  refine ⟨fun state prepared => disk.straight_of_prepared folder prepared,
    fun categories keys leftover state straight clear regular =>
      .of_regular straight clear regular,
    fun categories keys leftover entries state distinct stores => ⟨?_, ?_⟩,
    fun call error invalid => folder.carryOut_invalid invalid, fun call valid => ?_,
    fun category key ticket other name valid =>
      disk.leads_temporary_ne_entry folder valid key ticket other name⟩
  · intro room α program asks calm
    exact stores.interpreted distinct room asks calm
  · intro category key valid used bytes count
    exact stores.stopped valid used distinct bytes count
  · intro digest
    refine ⟨Sha256.hexDigest_length _, fun c => Sha256.mem_digits_of_mem_hexDigest, ?_⟩
    intro state count location elsewhere there
    refine files_beside valid count ?_ there
    rwa [disk.leads_entry folder valid]

end Disk

/-- The place of a temporary file that a process of the same number has left. -/
def Machine.scrap : Location :=
  [bytes "c", bytes "d", temporaryName (CacheFolder.entryName "k") (4242, 0)]

/-- A small machine: the directory of a category, in which a temporary file was left. -/
def Machine.shelf : {machine : Machine // machine.Orderly [] 4242} :=
  ⟨{ files := ⟨[([bytes "c"], .directory), ([bytes "c", bytes "d"], .directory),
       (Machine.scrap, .file [9])]⟩
     directory := [] },
    rfl, rfl, FileTree.connected_of_entries (by decide +kernel), rfl⟩

/-- Nothing else stands on the shelf. -/
theorem Machine.shelf_missing {location : Location} (deep : location.length = 3)
    (other : location ≠ Machine.scrap) :
    (Machine.disk [] 4242).stands Machine.shelf location = none := by
  have filled : location ≠ [] := by
    rintro rfl
    contradiction
  have inner : location ≠ [bytes "c"] ∧ location ≠ [bytes "c", bytes "d"] := by
    constructor <;>
    · rintro rfl
      contradiction
  show Machine.shelf.1.files.get? location = none
  rw [FileTree.get?, if_neg filled, List.lookup_eq_none_iff]
  simp [Machine.shelf, inner, other]

/-- The shelf has no entries, and one file that was left over. -/
theorem Machine.shelf_stores :
    (Machine.disk [] 4242).Stores ⟨Path.ofText "c"⟩ {"d"} {"k"} {Machine.scrap} Entries.empty
      Machine.shelf := by
  have root : (Machine.disk [] 4242).leads (Path.ofText "c") = [bytes "c"] := by decide +kernel
  constructor
  · exact Disk.straight_of_not_mem _ (by decide +kernel)
  · rintro _ valid rfl place ⟨front, under, rfl⟩
    have clear : ∀ front ∈ ((⟨Path.ofText "c"⟩ : CacheFolder).category "d").components.inits,
        FileEntry.content ((Machine.disk [] 4242).stands Machine.shelf
          (Location.along [] front)) = none := by decide +kernel
    exact clear front ((List.mem_inits _ _).2 under)
  · intro category key valid used
    have place := (Machine.disk [] 4242).leads_entry ⟨Path.ofText "c"⟩ valid key
    rw [place, root]
    refine Machine.shelf_missing rfl fun same => ?_
    have equal : CacheFolder.entryName key =
        temporaryName (CacheFolder.entryName "k") (4242, 0) := by
      simpa [Machine.scrap] using congrArg List.getLast? same
    rw [used] at equal
    exact temporaryName_ne _ equal.symm
  · intro category key valid used ticket there
    rw [Finset.mem_singleton]
    by_contra other
    refine there (Machine.shelf_missing ?_ other)
    rw [(Machine.disk [] 4242).leads_temporary_entry ⟨Path.ofText "c"⟩ valid key, root]
    rfl

/-- Write, read and remove an entry, look for it, and try to write elsewhere. -/
def errand : Program Storing (Except CacheError (Option (List UInt8)) × Except CacheError Bool ×
    Except CacheError Unit) :=
  .ask (I := Storing) (.write "d" "k" [1]) fun _ =>
    .ask (I := Storing) (.read "d" "k") fun found =>
      .ask (I := Storing) (.delete "d" "k") fun _ =>
        .ask (I := Storing) (.holds "d" "k") fun there =>
          .ask (I := Storing) (.write "../d" "k" [2]) fun refused => .done (found, there, refused)

namespace Disk

set_option maxRecDepth 100000 in
/-- On the shelf an entry is written, read and removed, and nothing is written elsewhere. -/
theorem store_refines_map_shelf :
    let disk := Machine.disk [] 4242
    let ran := (errand.interpret (CacheFolder.carryOut ⟨Path.ofText "c"⟩)).run disk.handle
      Machine.shelf
    ran.1 = (.ok (some [1]), .ok false, .error (.invalidCategory ⟨"../d", .doubleDot⟩)) ∧
      disk.Stores ⟨Path.ofText "c"⟩ {"d"} {"k"} {Machine.scrap}
        ((Entries.empty.put "d" "k" [1]).remove "d" "k") ran.2 := by
  intro disk ran
  have calm : disk.Calm (errand.interpret (CacheFolder.carryOut ⟨Path.ofText "c"⟩))
      Machine.shelf := by decide +kernel
  have refines := (store_refines_map disk ⟨Path.ofText "c"⟩).2.2.1 {"d"} {"k"} {Machine.scrap}
    Entries.empty Machine.shelf (Set.injOn_singleton _ _) Machine.shelf_stores
  have invalid : ¬ Category.check "../d" = .ok () := by decide
  refine refines.1 ?_ _ errand ?_ calm
  · rw [Finset.card_singleton]
    decide
  · exact ⟨⟨fun _ => rfl, rfl⟩, fun _ => ⟨⟨fun _ => rfl, rfl⟩, fun _ => ⟨⟨fun _ => rfl, rfl⟩,
      fun _ => ⟨⟨fun _ => rfl, rfl⟩, fun _ => ⟨⟨fun valid => absurd valid invalid, rfl⟩,
        fun _ => trivial⟩⟩⟩⟩⟩

end Disk

/-! ## Where no map is found -/

/-- A small machine: an entry in a cache directory, and no directory that is called `missing`. -/
def Machine.cellar : {machine : Machine // machine.Orderly [] 4242} :=
  ⟨{ files := ⟨[([bytes "c"], .directory), ([bytes "c", bytes "d"], .directory),
       ([bytes "c", bytes "d", CacheFolder.entryName "k"], .file [1])]⟩
     directory := [] },
    rfl, rfl, FileTree.connected_of_entries (by decide +kernel), rfl⟩

/-- A small machine: a file in the place of the directory of a category. -/
def Machine.stump : {machine : Machine // machine.Orderly [] 4242} :=
  ⟨{ files := ⟨[([bytes "c"], .directory), ([bytes "c", bytes "d"], .file [1])]⟩
     directory := [] },
    rfl, rfl, FileTree.connected_of_entries (by decide +kernel), rfl⟩

/-- Nothing is refused in the attic but names that are taken. -/
theorem Machine.calm_attic :
    (Machine.disk [] 4242).Calm
      (CacheFolder.carryOut ⟨Path.ofText "c"⟩ (.write "d" "k" [2])) (attic allNumbers) := by
  let disk := Machine.disk [] 4242
  have made : disk.Grants (attic allNumbers) (.makeDirectories ⟨bytes "c/d"⟩) := by
    intro answer isDue
    rw [FileSystem.due] at isDue
    split at isDue
    · cases isDue
    · exact (make_attic _).1.trans (Option.some.inj isDue)
  have search : disk.Calm (within numbers record [2]).run (attic allNumbers) := by
    rw [run_within_of_parent parent?_record]
    refine disk.calm_ask.2 ⟨made, disk.calm_of_taken numbers fun later still number => ?_⟩
    exact told_createNew_record (still.trans (make_attic _).2) (mem_allNumbers number)
  rw [CacheFolder.carryOut_write _ "k" (by decide)]
  refine disk.calm_bind.2 ⟨?_, disk.calm_done _⟩
  rw [run_eq]
  exact disk.calm_bind.2 ⟨search, disk.calm_done _⟩

/-- Read an entry, write another, and read the first again. -/
def lookTwice : Program Storing (Except CacheError (Option (List UInt8)) × Except CacheError Unit ×
    Except CacheError (Option (List UInt8))) :=
  .ask (I := Storing) (.read "d" "k") fun before =>
    .ask (I := Storing) (.write "d" "l" [2]) fun wrote =>
      .ask (I := Storing) (.read "d" "k") fun after => .done (before, wrote, after)

namespace Disk

set_option maxRecDepth 100000 in
/-- Entries that are regular files or absent are not enough for a map, although everything is
granted that can be granted.

The way to the cache directory `missing/../c` leaves a directory that is not there, and the write
of one entry lets another appear that was denied before. Where a file is in the place of the
directory of a category, the read of an entry fails that is not there. Where a temporary file was
left with every number, the write of an entry does not come to its end. -/
theorem store_strays_from_map :
    let disk := Machine.disk [] 4242
    let detour : CacheFolder := ⟨Path.ofText "missing/../c"⟩
    let folder : CacheFolder := ⟨Path.ofText "c"⟩
    let looked := lookTwice.interpret detour.carryOut
    let read : Program Host (Except CacheError (Option (List UInt8))) :=
      folder.carryOut (.read "d" "k")
    let write := folder.carryOut (.write "d" "k" [2])
    ((∀ category key, Category.check category = .ok () →
        disk.stands Machine.cellar (disk.leads (detour.entry category key)) ≠ some .directory) ∧
      (∀ place, disk.Passes (detour.category "d") place →
        FileEntry.content (disk.stands Machine.cellar place) = none) ∧
      Set.InjOn Sha256.hexDigest {"k", "l"} ∧
      disk.Calm looked Machine.cellar ∧
      (looked.run disk.handle Machine.cellar).1 = (.ok none, .ok (), .ok (some [1])) ∧
      ∀ entries, (lookTwice.run Entries.answer entries).1 ≠
        (looked.run disk.handle Machine.cellar).1) ∧
    (disk.stands Machine.stump (disk.leads (folder.entry "d" "k")) = none ∧
      disk.Calm read Machine.stump ∧
      (read.run disk.handle Machine.stump).1 =
        .error (.read (folder.entry "d" "k") .notADirectory) ∧
      ∀ entries, (Entries.answer (.read "d" "k") entries).1 ≠
        (read.run disk.handle Machine.stump).1) ∧
    disk.Calm write (Machine.attic Machine.allNumbers) ∧
      (write.run disk.handle (Machine.attic Machine.allNumbers)).1 =
        .error (.write (folder.entry "d" "k") .endless) ∧
      ∀ entries, (Entries.answer (.write "d" "k" [2]) entries).1 ≠
        (write.run disk.handle (Machine.attic Machine.allNumbers)).1 := by
  intro disk detour folder looked read write
  have told : (looked.run disk.handle Machine.cellar).1 = (.ok none, .ok (), .ok (some [1])) := by
    decide +kernel
  have failed : (read.run disk.handle Machine.stump).1 =
      .error (.read (folder.entry "d" "k") .notADirectory) := by decide +kernel
  have calm : disk.Calm read Machine.stump := by
    have asks : read = _ := folder.carryOut_read "k" (by decide)
    rw [asks]
    exact disk.calm_ask.2 ⟨by decide +kernel, disk.calm_done _⟩
  have endless : (write.run disk.handle (Machine.attic Machine.allNumbers)).1 =
      .error (.write (folder.entry "d" "k") .endless) := by
    have searching : ((within numbers (folder.entry "d" "k") [2]).run.run disk.handle
        (Machine.attic Machine.allNumbers)).1 = .ok false := Machine.unended_attic [2] numbers
    rw [CacheFolder.run_carryOut_write _ "k" (by decide), run_run, searching]
    rfl
  refine ⟨⟨fun category key valid there => ?_, ?_, ?_, by decide +kernel, told, fun entries => ?_⟩,
    ⟨by decide +kernel, calm, failed, fun entries => ?_⟩,
    Machine.calm_attic, endless, fun entries => ?_⟩
  · rw [disk.leads_entry detour valid,
      show disk.leads detour.root = [bytes "c"] by decide +kernel] at there
    have held : Machine.cellar.1.files.get?
        [bytes "c", bytes category, CacheFolder.entryName key] = some .directory := there
    have mem := FileTree.mem_entries_of_get? held (List.cons_ne_nil _ _)
    simp [Machine.cellar] at mem
  · rintro place ⟨front, under, rfl⟩
    have clear : ∀ front ∈ (detour.category "d").components.inits,
        FileEntry.content (disk.stands Machine.cellar (Location.along [] front)) = none := by
      decide +kernel
    exact clear front ((List.mem_inits _ _).2 under)
  · have apart : Sha256.hexDigest "k" ≠ Sha256.hexDigest "l" := by decide +kernel
    rintro one (rfl | rfl) two (rfl | rfl) same
    · rfl
    · exact absurd same apart
    · exact absurd same.symm apart
    · rfl
  · have mapped : (lookTwice.run Entries.answer entries).1 =
        (.ok (entries "d" "k"), .ok (), .ok (entries.put "d" "l" [2] "d" "k")) := rfl
    rw [told, mapped, Entries.put_of_ne (by decide)]
    intro same
    simp only [Prod.mk.injEq, Except.ok.injEq] at same
    rw [same.1] at same
    exact absurd same.2.2 nofun
  · rw [failed]
    exact nofun
  · rw [endless]
    exact nofun

end Disk

end LocaleWatch
