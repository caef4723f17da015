import LocaleWatch.Proofs.Git.Ranges
import LocaleWatch.Proofs.Json.Faithful
import LocaleWatch.Report

/-!
# Documents that are kept

Cache entries are written in compact layout, reports in indented layout. In either layout every
value of every type that is kept is found again, with each of its fields: a timestamp or a
subject that came back changed would make a different commit here, although the program takes
two commits of one name for the same.

What is found may have been written by someone else. Its commit names then still are names: a
name of a decoded value is a text of the document, and the rules for names accept it.

## Main results

* The forms of localized files and of reports are faithful.
* `NamesCommits.names_read` — each commit name of a decoded value is a text of its document.
* `kept_round_trip` — for every type that is kept, both layouts are read as the value, and
  whatever is read holds commit names that obey the rules.
-/

namespace LocaleWatch

namespace JsonForm

/-! ## Reports -/

instance : FaithfulForm UInt64 where
  ofJson_toJson n := by
    simp [toJson, ofJson?, JsonValue.reading, UInt64.toNat_lt_size]

instance : FaithfulForm OriginStatus where
  ofJson_toJson status := by
    simp [toJson, ofJson?, JsonValue.reading]

instance : FaithfulForm OriginUpdate where
  ofJson_toJson update := by
    have read : fields? ["commit", "merge_commit"] (toJson update).reading = _ :=
      fields?_object [("commit", (toJson update.commit).reading),
      ("merge_commit", (toJson update.merge).reading)] (by simp)
    have commit := FaithfulForm.ofJson_toJson update.commit
    have merge := FaithfulForm.ofJson_toJson update.merge
    show (fields? ["commit", "merge_commit"] (toJson update).reading >>= _) = _
    rw [read]
    simp [required?, optional?, commit, merge]

instance : FaithfulForm LocalizedFile where
  ofJson_toJson file := by
    have read : fields? ["path", "last_commit", "fork_commit", "merge_commit", "origin_status",
        "origin_updates"] (toJson file).reading = _ :=
      fields?_object [("path", (toJson file.path).reading),
      ("last_commit", (toJson file.lastCommit).reading),
      ("fork_commit", (toJson file.fork).reading),
      ("merge_commit", (toJson file.merge).reading),
      ("origin_status", (toJson file.status).reading),
      ("origin_updates", (toJson file.updates).reading)] (by simp)
    have path := FaithfulForm.ofJson_toJson file.path
    have lastCommit := FaithfulForm.ofJson_toJson file.lastCommit
    have fork := FaithfulForm.ofJson_toJson file.fork
    have merge := FaithfulForm.ofJson_toJson file.merge
    have status := FaithfulForm.ofJson_toJson file.status
    have updates := FaithfulForm.ofJson_toJson file.updates
    show (fields? ["path", "last_commit", "fork_commit", "merge_commit", "origin_status",
        "origin_updates"] (toJson file).reading >>= _) = _
    rw [read]
    simp [required?, optional?, path, lastCommit, fork, merge, status, updates]

instance : FaithfulForm Report where
  ofJson_toJson report := by
    have read : fields? ["language", "generated_at", "head", "stale", "files"]
        (toJson report).reading = _ :=
      fields?_object [("language", (toJson report.language).reading),
      ("generated_at", (toJson report.generatedAt).reading),
      ("head", (toJson report.head).reading),
      ("stale", (toJson report.stale).reading),
      ("files", (toJson report.files).reading)] (by simp)
    have language := FaithfulForm.ofJson_toJson report.language
    have generatedAt := FaithfulForm.ofJson_toJson report.generatedAt
    have head := FaithfulForm.ofJson_toJson report.head
    have stale := FaithfulForm.ofJson_toJson report.stale
    have files := FaithfulForm.ofJson_toJson report.files
    show (fields? ["language", "generated_at", "head", "stale", "files"]
      (toJson report).reading >>= _) = _
    rw [read]
    simp [required?, optional?, language, generatedAt, head, stale, files]

end JsonForm

/-! ## Texts of a document -/

namespace JsonValue

variable {ν τ : Type}

/-- A token of an item is a token of the list. -/
theorem mem_tokens_list {token : JsonToken ν τ} {item : JsonValue ν τ}
    {items : List (JsonValue ν τ)} (mem : item ∈ items) (inside : token ∈ item.tokens) :
    token ∈ (JsonValue.list items).tokens := by
  have among : token ∈ itemTokens items := by
    induction items with
    | nil => contradiction
    | cons first more ih =>
      cases more with
      | nil =>
        obtain rfl := List.mem_singleton.1 mem
        simpa [itemTokens] using inside
      | cons next more =>
        rw [itemTokens_cons_cons, List.mem_append, List.mem_cons]
        rcases List.mem_cons.1 mem with rfl | mem
        · exact .inl inside
        · exact .inr (.inr (ih mem))
  simp [tokens, among]

/-- A member's key and the tokens of its value are tokens of the object. -/
theorem mem_tokens_object {token : JsonToken ν τ} {key : τ} {value : JsonValue ν τ}
    {members : List (τ × JsonValue ν τ)} (mem : (key, value) ∈ members)
    (inside : token = .text key ∨ token ∈ value.tokens) :
    token ∈ (JsonValue.object members).tokens := by
  have among : token ∈ memberTokens members := by
    induction members with
    | nil => contradiction
    | cons first more ih =>
      cases more with
      | nil =>
        obtain rfl := List.mem_singleton.1 mem
        rcases inside with rfl | inside <;> simp [memberTokens, *]
      | cons next more =>
        rw [memberTokens_cons_cons]
        rcases List.mem_cons.1 mem with rfl | mem
        · rcases inside with rfl | inside <;> simp [*]
        · simp [ih mem]
  simp [tokens, among]

end JsonValue

/-- A text stands in a document, as a value or as a key. -/
def JsonReading.Holds (reading : JsonReading) (text : String) : Prop :=
  .text (some text) ∈ reading.tokens

/-! ## Commit names of a value -/

/-- A text that is accepted as a name is kept as it is. -/
theorem CommitId.text_of_toOption {text : String} {id : CommitId}
    (parsed : (CommitId.parse text).toOption = some id) : id.text = text := by
  cases parse : CommitId.parse text with
  | error flaw => simp [parse, Except.toOption] at parsed
  | ok name =>
    obtain rfl : name = id := by simpa [parse, Except.toOption] using parsed
    exact CommitId.parse_eq_ok_iff.1 parse

/-- A type whose values hold commit names. Those of a decoded value stand in its document. -/
class NamesCommits (α : Type) [JsonForm α] where
  names : α → List CommitId
  names_read {reading : JsonReading} {value : α} (read : JsonForm.ofJson? reading = some value) :
    ∀ id ∈ names value, reading.Holds id.text

/-- Each result of a loop that succeeds is the result of a member. -/
theorem exists_of_mem_mapM {α β : Type} {step : α → Option β} {items : List α} {results : List β}
    (whole : items.mapM step = some results) {result : β} (mem : result ∈ results) :
    ∃ item ∈ items, step item = some result := by
  induction items generalizing results with
  | nil =>
    cases whole
    contradiction
  | cons item more ih =>
    simp only [List.mapM_cons, Option.bind_eq_bind, Option.bind_eq_some_iff] at whole
    obtain ⟨first, stepped, rest, looped, same⟩ := whole
    cases same
    rcases List.mem_cons.1 mem with rfl | mem
    · exact ⟨item, List.mem_cons_self, stepped⟩
    · obtain ⟨other, among, stepped⟩ := ih looped mem
      exact ⟨other, List.mem_cons_of_mem _ among, stepped⟩

namespace NamesCommits

open JsonForm

variable {α : Type} [JsonForm α] [NamesCommits α]

/-- A field of a record stands in the record's document. -/
theorem holds_of_fields {fieldNames : List String} {reading field : JsonReading}
    {fields : List (Option JsonReading)} (read : fields? fieldNames reading = some fields)
    (mem : some field ∈ fields) {text : String} (holds : field.Holds text) :
    reading.Holds text := by
  unfold fields? at read
  split at read
  · next items =>
    split at read
    · cases read
      obtain ⟨item, among, same⟩ := List.mem_map.1 mem
      cases same
      exact JsonValue.mem_tokens_list among holds
    · contradiction
  · next members =>
    split at read
    · obtain ⟨name, -, found⟩ := exists_of_mem_mapM read mem
      split at found
      · cases found
      · next key value only =>
        cases found
        have among : (key, field) ∈ members :=
          List.mem_of_mem_filter (only ▸ List.mem_singleton_self _)
        exact JsonValue.mem_tokens_object among (.inr holds)
      · contradiction
    · contradiction
  · contradiction

/-- The commit names of a required field stand in the record's document. -/
theorem required_names {fieldNames : List String} {reading : JsonReading}
    {fields : List (Option JsonReading)} (read : fields? fieldNames reading = some fields)
    {field : Option JsonReading} (mem : field ∈ fields) {value : α}
    (decoded : required? field = some value) : ∀ id ∈ names value, reading.Holds id.text := by
  intro id among
  obtain ⟨inner, rfl, decoded⟩ := Option.bind_eq_some_iff.1 decoded
  exact holds_of_fields read mem (names_read decoded id among)

instance : NamesCommits CommitId where
  names id := [id]
  names_read {reading id} read := by
    obtain ⟨text, decoded, parsed⟩ := Option.bind_eq_some_iff.1 read
    cases reading with
    | text found =>
      obtain rfl : found = some text := decoded
      simp [JsonReading.Holds, JsonValue.tokens, CommitId.text_of_toOption parsed]
    | _ => contradiction

instance : NamesCommits (Option α) where
  names found := found.elim [] names
  names_read {reading found} read := by
    cases found with
    | none => simp
    | some value =>
      have decoded : ofJson? reading = some value := by
        cases reading <;> simp_all [ofJson?]
      exact names_read decoded

instance : NamesCommits (List α) where
  names values := values.flatMap names
  names_read {reading values} read := by
    intro id among
    obtain ⟨value, mem, among⟩ := List.mem_flatMap.1 among
    cases reading with
    | list items =>
      obtain ⟨item, inside, decoded⟩ := exists_of_mem_mapM read mem
      exact JsonValue.mem_tokens_list inside (names_read decoded id among)
    | _ => contradiction

/-- The commit names of an optional field stand in the record's document. -/
theorem optional_names {fieldNames : List String} {reading : JsonReading}
    {fields : List (Option JsonReading)} (read : fields? fieldNames reading = some fields)
    {field : Option JsonReading} (mem : field ∈ fields) {found : Option α}
    (decoded : optional? field = some found) : ∀ id ∈ names found, reading.Holds id.text := by
  cases field with
  | none =>
    cases decoded
    simp [names]
  | some inner => exact required_names read mem decoded

instance : NamesCommits Commit where
  names commit := [commit.id]
  names_read {reading commit} decoded := by
    obtain ⟨fields, read, decoded⟩ := Option.bind_eq_some_iff.1 decoded
    split at decoded
    · next id timestamp subject =>
      simp only [Option.bind_eq_bind, Option.bind_eq_some_iff] at decoded
      obtain ⟨name, named, _, -, _, -, same⟩ := decoded
      cases same
      exact required_names read (by simp) named
    · contradiction

instance : NamesCommits RefreshState where
  names state := names state.head
  names_read {reading state} decoded := by
    obtain ⟨fields, read, decoded⟩ := Option.bind_eq_some_iff.1 decoded
    split at decoded
    · next head files =>
      simp only [Option.bind_eq_bind, Option.bind_eq_some_iff] at decoded
      obtain ⟨found, head, _, -, same⟩ := decoded
      cases same
      exact optional_names read (by simp) head
    · contradiction

instance : NamesCommits OriginUpdate where
  names update := names update.commit ++ names update.merge
  names_read {reading update} decoded := by
    obtain ⟨fields, read, decoded⟩ := Option.bind_eq_some_iff.1 decoded
    split at decoded
    · next commit merge =>
      simp only [Option.bind_eq_bind, Option.bind_eq_some_iff] at decoded
      obtain ⟨made, commit, merged, merge, same⟩ := decoded
      cases same
      exact List.forall_mem_append.2
        ⟨required_names read (by simp) commit, optional_names read (by simp) merge⟩
    · contradiction

instance : NamesCommits LocalizedFile where
  names file := names file.lastCommit ++ names file.fork ++ names file.merge ++ names file.updates
  names_read {reading file} decoded := by
    obtain ⟨fields, read, decoded⟩ := Option.bind_eq_some_iff.1 decoded
    split at decoded
    · next path lastCommit fork merge status updates =>
      simp only [Option.bind_eq_bind, Option.bind_eq_some_iff] at decoded
      obtain ⟨_, -, last, lastCommit, forked, fork, merged, merge, _, -, missed, updates, same⟩ :=
        decoded
      cases same
      simp only [List.forall_mem_append]
      exact ⟨⟨⟨optional_names read (by simp) lastCommit, optional_names read (by simp) fork⟩,
        optional_names read (by simp) merge⟩, required_names read (by simp) updates⟩
    · contradiction

instance : NamesCommits Report where
  names report := names report.head ++ names report.files
  names_read {reading report} decoded := by
    obtain ⟨fields, read, decoded⟩ := Option.bind_eq_some_iff.1 decoded
    split at decoded
    · next language generatedAt head stale files =>
      simp only [Option.bind_eq_bind, Option.bind_eq_some_iff] at decoded
      obtain ⟨_, -, _, -, newest, head, _, -, checked, files, same⟩ := decoded
      cases same
      exact List.forall_mem_append.2
        ⟨optional_names read (by simp) head, required_names read (by simp) files⟩
    · contradiction

end NamesCommits

namespace CommitsByStart

theorem mem_entries_insert {starts : CommitsByStart} {start : CommitId} {commits : List Commit}
    {entry : CommitId × List Commit} (mem : entry ∈ (starts.insert start commits).entries) :
    entry = (start, commits) ∨ entry ∈ starts.entries := by
  have among (entries : List (CommitId × List Commit))
      (mem : entry ∈ insertEntry start commits entries) :
      entry = (start, commits) ∨ entry ∈ entries := by
    induction entries with
    | nil => exact .inl (List.mem_singleton.1 mem)
    | cons first rest ih =>
      rw [insertEntry] at mem
      split at mem
      · exact List.mem_cons.1 mem
      · split at mem
        · exact (List.mem_cons.1 mem).imp_right (List.mem_cons_of_mem _)
        · rcases List.mem_cons.1 mem with rfl | mem
          · exact .inr List.mem_cons_self
          · exact (ih mem).imp_right (List.mem_cons_of_mem _)
  exact among starts.entries mem

/-- Each entry of decoded lists is a member of the document. -/
theorem exists_member_of_entry {members : List (Option String × JsonReading)}
    {starts : CommitsByStart} (read : JsonForm.ofJson? (.object members) = some starts)
    {entry : CommitId × List Commit} (mem : entry ∈ starts.entries) :
    ∃ value, (some entry.1.text, value) ∈ members ∧ JsonForm.ofJson? value = some entry.2 := by
  -- Over the members that are still to come, for any lists that are there before them.
  have later (members : List (Option String × JsonReading)) (before : CommitsByStart)
      (read : members.foldlM (fun (starts : CommitsByStart) member => do
        let start ← (CommitId.parse (← member.1)).toOption
        return starts.insert start (← JsonForm.ofJson? member.2)) before = some starts) :
      entry ∈ before.entries ∨
        ∃ value, (some entry.1.text, value) ∈ members ∧ JsonForm.ofJson? value = some entry.2 := by
    induction members generalizing before with
    | nil =>
      cases read
      exact .inl mem
    | cons member more ih =>
      obtain ⟨key, value⟩ := member
      simp only [List.foldlM_cons, Option.bind_eq_bind, Option.bind_eq_some_iff] at read
      obtain ⟨next, ⟨text, rfl, start, parsed, commits, decoded, same⟩, rest⟩ := read
      cases same
      rcases ih _ rest with mem | ⟨other, inside, found⟩
      · rcases mem_entries_insert mem with rfl | mem
        · exact .inr ⟨value, by simp [CommitId.text_of_toOption parsed], decoded⟩
        · exact .inl mem
      · exact .inr ⟨other, List.mem_cons_of_mem _ inside, found⟩
  exact (later members empty read).resolve_left List.not_mem_nil

end CommitsByStart

instance : NamesCommits CommitsByStart where
  names starts := starts.entries.flatMap fun (start, commits) =>
    start :: NamesCommits.names commits
  names_read {reading starts} read := by
    intro id among
    obtain ⟨entry, mem, among⟩ := List.mem_flatMap.1 among
    cases reading with
    | object members =>
      obtain ⟨value, inside, decoded⟩ := CommitsByStart.exists_member_of_entry read mem
      rcases List.mem_cons.1 among with rfl | among
      · exact JsonValue.mem_tokens_object inside (.inl rfl)
      · exact JsonValue.mem_tokens_object inside
          (.inr (NamesCommits.names_read decoded id among))
    | _ => contradiction

/-! ## The types that are kept -/

/-- The types whose values are kept in files. -/
inductive KeptType where
  | commit
  | commits
  | commitsByStart
  | refreshState
  | file
  | files
  | report
  deriving DecidableEq, Repr

namespace KeptType

/-- The values of a type. -/
@[reducible] def Value : KeptType → Type
  | commit => Option Commit
  | commits => List Commit
  | commitsByStart => CommitsByStart
  | refreshState => RefreshState
  | file => LocalizedFile
  | files => List LocalizedFile
  | report => Report

instance : (kept : KeptType) → JsonForm kept.Value
  | commit => inferInstanceAs (JsonForm (Option Commit))
  | commits => inferInstanceAs (JsonForm (List Commit))
  | commitsByStart => inferInstanceAs (JsonForm CommitsByStart)
  | refreshState => inferInstanceAs (JsonForm RefreshState)
  | file => inferInstanceAs (JsonForm LocalizedFile)
  | files => inferInstanceAs (JsonForm (List LocalizedFile))
  | report => inferInstanceAs (JsonForm Report)

instance : (kept : KeptType) → FaithfulForm kept.Value
  | commit => inferInstanceAs (FaithfulForm (Option Commit))
  | commits => inferInstanceAs (FaithfulForm (List Commit))
  | commitsByStart => inferInstanceAs (FaithfulForm CommitsByStart)
  | refreshState => inferInstanceAs (FaithfulForm RefreshState)
  | file => inferInstanceAs (FaithfulForm LocalizedFile)
  | files => inferInstanceAs (FaithfulForm (List LocalizedFile))
  | report => inferInstanceAs (FaithfulForm Report)

instance : (kept : KeptType) → NamesCommits kept.Value
  | commit => inferInstanceAs (NamesCommits (Option Commit))
  | commits => inferInstanceAs (NamesCommits (List Commit))
  | commitsByStart => inferInstanceAs (NamesCommits CommitsByStart)
  | refreshState => inferInstanceAs (NamesCommits RefreshState)
  | file => inferInstanceAs (NamesCommits LocalizedFile)
  | files => inferInstanceAs (NamesCommits (List LocalizedFile))
  | report => inferInstanceAs (NamesCommits Report)

end KeptType

theorem Text.hasDoubleDot_eq_true_iff {text : List Char} :
    Text.hasDoubleDot text = true ↔ ['.', '.'] <:+: text := by
  induction text with
  | nil => simp [Text.hasDoubleDot]
  | cons c rest ih =>
    have start : ['.', '.'] <+: c :: rest ↔ c = '.' ∧ rest.head? = some '.' := by
      cases rest <;> simp [List.cons_prefix_cons, eq_comm]
    rw [Text.hasDoubleDot_cons, List.infix_cons_iff, start, ih]

open JsonForm in
/-- For every type that is kept, both layouts of a value are read as the value, with all its
fields. Whatever bytes are read as a value of the type, its commit names stand in the document,
and they are names: not empty, no hyphen in front, no `..`, no blank and no control character. -/
theorem kept_round_trip (kept : KeptType) :
    (∀ value : kept.Value,
      decode? kept.Value (Text.bytes (compact value)) = some value ∧
        decode? kept.Value (Text.bytes (indented value)) = some value) ∧
    ∀ (input : List UInt8) (value : kept.Value), decode? kept.Value input = some value →
      ∃ reading, JsonValue.parse? input = some reading ∧
        ∀ id ∈ NamesCommits.names value, reading.Holds id.text ∧
          id.text ≠ "" ∧ id.text.toList.head? ≠ some '-' ∧ ¬ ['.', '.'] <:+: id.text.toList ∧
          ∀ c ∈ id.text.toList, Text.isBlank c = false ∧ Text.isControl c = false := by
  refine ⟨fun value => ⟨decode_compact value, decode_indented value⟩, fun input value read => ?_⟩
  obtain ⟨reading, parsed, decoded⟩ := Option.bind_eq_some_iff.1 read
  refine ⟨reading, parsed, fun id among => ⟨NamesCommits.names_read decoded id among, ?_⟩⟩
  obtain ⟨nonempty, noOption, noRange, clean⟩ := CommitId.flaw?_eq_none_iff.1 id.wellFormed
  rw [← Text.hasDoubleDot_eq_true_iff, Bool.not_eq_true]
  exact ⟨nonempty, noOption, noRange, clean⟩

/-- A commit whose fields someone wrote in another order, with a member that is not known and an
escape that need not be one. -/
theorem kept_foreign_commit :
    let input := Text.bytes
      "\x7b \"subject\": \"\", \"id\": \"m\\u0061in\", \"by\": [1.5], \"timestamp\": \"t\" \x7d"
    let value : KeptType.commit.Value := some ⟨⟨"main", by decide⟩, "t", ""⟩
    JsonForm.decode? KeptType.commit.Value input = some value ∧
      ∃ reading, JsonValue.parse? input = some reading ∧
        ∀ id ∈ NamesCommits.names value, reading.Holds id.text ∧
          id.text ≠ "" ∧ id.text.toList.head? ≠ some '-' ∧ ¬ ['.', '.'] <:+: id.text.toList ∧
          ∀ c ∈ id.text.toList, Text.isBlank c = false ∧ Text.isControl c = false :=
  have read : JsonForm.decode? KeptType.commit.Value (Text.bytes
      "\x7b \"subject\": \"\", \"id\": \"m\\u0061in\", \"by\": [1.5], \"timestamp\": \"t\" \x7d") =
        some (some ⟨⟨"main", by decide⟩, "t", ""⟩) := by decide +kernel
  ⟨read, (kept_round_trip .commit).2 _ _ read⟩

end LocaleWatch
