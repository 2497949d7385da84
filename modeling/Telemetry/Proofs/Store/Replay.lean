import Telemetry.Proofs.Json.Documents
import Telemetry.Proofs.Store.Backup
import Telemetry.Proofs.Store.SnapshotFile

/-!
# Replaying a snapshot

The documents of a file are taken one after the other and put into the store in their order, up to the
first one that is malformed or describes no record. Since each document ends by itself, contents that
are restored can be put behind each other, with any blanks around them: the later content overrides
the earlier one. Opening a store reads the file and writes nothing to it.
-/

namespace Telemetry

open Json

/-! ### Where a sample ends -/

namespace Kind

theorem endsItself_readName : EndsItself readName := by
  intro bytes rest kind h _ more
  unfold readName at h ⊢
  split at h
  · cases h
  · rename_i name after hname
    rw [readString_append hname]
    dsimp only
    split at h
    · cases h
    · cases h
      rfl

theorem endsItself_readMember : EndsItself readMember := by
  intro bytes rest kind h _ more
  unfold readMember at h ⊢
  split at h
  · cases h
  · rename_i name after hname
    rw [Reader.endsItself_text _ hname trivial]
    dsimp only
    split at h
    · cases h
    · split at h
      · cases h
      · rename_i value hcolon
        rw [readColon_append hcolon]
        dsimp only
        split at h
        · cases h
        · rename_i behind hnull
          rw [Reader.endsItself_unit hnull trivial]
          dsimp only
          split at h
          · cases h
          · rename_i b tail hspace
            rw [skipSpace_append hspace]
            dsimp only
            split at h
            · cases h
              rw [if_pos ‹_›]
            · cases h

theorem endsItself_reader : EndsItself reader.run :=
  Reader.goesOn_runFirst fun _ =>
    goesOn_ite endsItself_readMember (goesOn_ite endsItself_readName (goesOn_error _))

end Kind

namespace Sample

theorem fieldsEnd_form : form.FieldsEnd := by
  intro field hmem
  simp only [form, List.mem_cons, List.not_mem_nil, or_false] at hmem
  obtain rfl | rfl | rfl | rfl := hmem
  · exact Reader.goesOn_map (Reader.endsItself_text _).goesOn _
  · exact Reader.goesOn_map Kind.endsItself_reader.goesOn _
  · exact Reader.goesOn_map (Reader.goesOn_optional Reader.endsBefore_int64) _
  · exact Reader.goesOn_map (Reader.goesOn_optional Reader.endsBefore_float) _

theorem endsItself_reader : EndsItself reader.run := fieldsEnd_form.reader

end Sample

/-! ### One document after the other -/

namespace Snapshot

variable {bytes rest : Bytes} {sample : Sample} {record : Record}

theorem ne_blank_of_run (h : Sample.reader.run bytes = .ok (sample, rest)) : skipSpace bytes ≠ [] := by
  intro hblank
  rw [← Sample.skipsSpace_reader, hblank] at h
  cases h

theorem decode_blank (h : skipSpace bytes = []) : decode bytes = .ok [] := by
  rw [decode, Reader.stream_blank h]
  rfl

theorem decode_malformed {e : Error} (hsome : skipSpace bytes ≠ [])
    (hrun : Sample.reader.run bytes = .error e) : decode bytes = .error (.serialization e) := by
  rw [decode, Reader.stream_malformed hsome hrun]
  rfl

theorem decode_invalid {failure : Failure} (hrun : Sample.reader.run bytes = .ok (sample, rest))
    (hrecord : sample.toRecord = .error failure) : decode bytes = .error failure := by
  rw [decode, Reader.stream_next (ne_blank_of_run hrun) hrun]
  dsimp only
  rw [toRecords, hrecord]

theorem decode_next (hrun : Sample.reader.run bytes = .ok (sample, rest))
    (hrecord : sample.toRecord = .ok record) :
    decode bytes = (decode rest).map (record :: ·) := by
  rw [decode, decode, Reader.stream_next (ne_blank_of_run hrun) hrun]
  dsimp only
  rw [toRecords, hrecord]
  rcases toRecords (Sample.reader.stream rest).1 with ⟨records, _ | failure⟩
  · cases (Sample.reader.stream rest).2 <;> rfl
  · rfl

/-- The documents at the front of the bytes describe these records, one after the other, and the
bytes behind them are left. -/
inductive Replays : Bytes → List Record → Bytes → Prop where
  | stop (bytes : Bytes) : Replays bytes [] bytes
  | next {bytes rest left : Bytes} {sample : Sample} {record : Record} {records : List Record}
      (hrun : Sample.reader.run bytes = .ok (sample, rest)) (hrecord : sample.toRecord = .ok record)
      (h : Replays rest records left) : Replays bytes (record :: records) left

/-- The first document of the bytes is at fault: it is malformed, or it describes no record. -/
inductive Faulty : Bytes → Failure → Prop where
  | malformed {bytes : Bytes} {e : Error} (hsome : skipSpace bytes ≠ [])
      (hrun : Sample.reader.run bytes = .error e) : Faulty bytes (.serialization e)
  | invalid {bytes rest : Bytes} {sample : Sample} {failure : Failure}
      (hrun : Sample.reader.run bytes = .ok (sample, rest))
      (hrecord : sample.toRecord = .error failure) : Faulty bytes failure

variable {left : Bytes} {records : List Record} {failure : Failure}

theorem Replays.decode (h : Replays bytes records left) :
    decode bytes = (Snapshot.decode left).map (records ++ ·) := by
  induction h with
  | stop bytes =>
    cases Snapshot.decode bytes <;> rfl
  | next hrun hrecord h ih =>
    rw [decode_next hrun hrecord, ih]
    cases Snapshot.decode _ <;> rfl

theorem Faulty.decode (h : Faulty bytes failure) : decode bytes = .error failure := by
  cases h with
  | malformed hsome hrun => exact decode_malformed hsome hrun
  | invalid hrun hrecord => exact decode_invalid hrun hrecord

/-- Documents are taken until nothing but blanks is left or one is at fault. -/
theorem exists_replays (bytes : Bytes) : ∃ records left, Replays bytes records left ∧
    (skipSpace left = [] ∨ ∃ failure, Faulty left failure) := by
  induction hlength : bytes.length using Nat.strong_induction_on generalizing bytes with
  | _ length ih =>
    subst hlength
    by_cases hblank : skipSpace bytes = []
    · exact ⟨[], bytes, .stop bytes, .inl hblank⟩
    · cases hrun : Sample.reader.run bytes with
      | error e => exact ⟨[], bytes, .stop bytes, .inr ⟨_, .malformed hblank hrun⟩⟩
      | ok pair =>
        obtain ⟨sample, rest⟩ := pair
        cases hrecord : sample.toRecord with
        | error failure => exact ⟨[], bytes, .stop bytes, .inr ⟨_, .invalid hrun hrecord⟩⟩
        | ok record =>
          obtain ⟨records, left, hreplays, hend⟩ := ih _ (Sample.reader.shrinks hrun) rest rfl
          exact ⟨record :: records, left, .next hrun hrecord hreplays, hend⟩

theorem decode_eq_ok_iff : decode bytes = .ok records ↔
    ∃ left, Replays bytes records left ∧ skipSpace left = [] := by
  constructor
  · intro h
    obtain ⟨found, left, hreplays, hblank | ⟨failure, hfaulty⟩⟩ := exists_replays bytes
    · rw [hreplays.decode, decode_blank hblank] at h
      have hfound : found = records := (List.append_nil found).symm.trans (Except.ok.inj h)
      exact ⟨left, hfound ▸ hreplays, hblank⟩
    · rw [hreplays.decode, hfaulty.decode] at h
      cases h
  · rintro ⟨left, hreplays, hblank⟩
    rw [hreplays.decode, decode_blank hblank, Except.map, List.append_nil]

/-- The first document at fault refuses the whole. -/
theorem decode_eq_error_iff : decode bytes = .error failure ↔
    ∃ records left, Replays bytes records left ∧ Faulty left failure := by
  constructor
  · intro h
    obtain ⟨found, left, hreplays, hblank | ⟨other, hfaulty⟩⟩ := exists_replays bytes
    · rw [hreplays.decode, decode_blank hblank] at h
      cases h
    · rw [hreplays.decode, hfaulty.decode] at h
      cases h
      exact ⟨found, left, hreplays, hfaulty⟩
  · rintro ⟨records, left, hreplays, hfaulty⟩
    rw [hreplays.decode, hfaulty.decode]
    rfl

/-! ### Contents behind each other -/

theorem Replays.append (h : Replays bytes records left) (more : Bytes) :
    Replays (bytes ++ more) records (left ++ more) := by
  induction h with
  | stop bytes => exact .stop (bytes ++ more)
  | next hrun hrecord h ih => exact .next (Sample.endsItself_reader hrun trivial more) hrecord ih

theorem decode_congr {other : Bytes} (h : skipSpace bytes = skipSpace other) :
    decode bytes = decode other := by
  have hrun : Sample.reader.run bytes = Sample.reader.run other := by
    rw [← Sample.skipsSpace_reader bytes, h, Sample.skipsSpace_reader other]
  by_cases hblank : skipSpace bytes = []
  · rw [decode_blank hblank, decode_blank (h ▸ hblank)]
  · rcases hread : Sample.reader.run bytes with e | ⟨sample, rest⟩
    · rw [decode_malformed hblank hread, decode_malformed (h ▸ hblank) (hrun ▸ hread)]
    · cases hrecord : sample.toRecord with
      | error failure =>
        rw [decode_invalid hread hrecord, decode_invalid (hrun ▸ hread) hrecord]
      | ok record =>
        exact (decode_next hread hrecord).trans (decode_next (hrun ▸ hread) hrecord).symm

/-- What follows a content that is restored is decoded as it would be on its own. -/
theorem decode_append (h : decode bytes = .ok records) (more : Bytes) :
    decode (bytes ++ more) = (decode more).map (records ++ ·) := by
  obtain ⟨left, hreplays, hblank⟩ := decode_eq_ok_iff.1 h
  have hmore : skipSpace (left ++ more) = skipSpace more :=
    List.dropWhile_append_of_pos (List.dropWhile_eq_nil_iff.1 hblank)
  rw [(hreplays.append more).decode, decode_congr hmore]

theorem decode_blanks (h : bytes.all isSpace = true) : decode bytes = .ok [] :=
  decode_blank (List.dropWhile_eq_nil_iff.2 (List.all_eq_true.1 h))

/-- Contents that are restored can be put behind each other, with blanks around them. -/
theorem decode_between {c₁ c₂ w₀ w₁ w₂ : Bytes} {r₁ r₂ : List Record} (h₁ : decode c₁ = .ok r₁)
    (h₂ : decode c₂ = .ok r₂) (hw₀ : w₀.all isSpace = true) (hw₁ : w₁.all isSpace = true)
    (hw₂ : w₂.all isSpace = true) :
    decode (w₀ ++ c₁ ++ w₁ ++ c₂ ++ w₂) = .ok (r₁ ++ r₂) := by
  simp only [List.append_assoc]
  rw [decode_append (decode_blanks hw₀), decode_append h₁, decode_append (decode_blanks hw₁),
    decode_append h₂, decode_blanks hw₂]
  simp [Except.map]

end Snapshot

namespace MemoryStore

theorem get?_foldl_put (records : List Record) (store : MemoryStore) (name : String) :
    (records.foldl put store).get? name =
      (records.reverse.find? fun record => record.name == name).or (store.get? name) := by
  induction records generalizing store with
  | nil => rfl
  | cons record records ih =>
    rw [List.foldl_cons, ih, get?_put, List.reverse_cons, List.find?_append, Option.or_assoc,
      List.find?_singleton]
    congr 1
    by_cases hname : record.name = name
    · simp [hname]
    · simp [hname, Ne.symm hname]

end MemoryStore

namespace Snapshot

/-- The bytes are accepted by an empty store: so many documents are restored, and this store is what
they leave. -/
structure Restored (bytes : Bytes) (number : Nat) (store : MemoryStore) : Prop where
  counted : (decode bytes).map List.length = .ok number
  accepted : restore bytes = .ok store

theorem restored_iff {bytes : Bytes} {number : Nat} {store : MemoryStore} :
    Restored bytes number store ↔ ∃ records, decode bytes = .ok records ∧ records.length = number ∧
      records.foldl MemoryStore.put MemoryStore.empty = store := by
  constructor
  · rintro ⟨hnumber, hstore⟩
    rw [restore] at hstore
    cases hdecode : decode bytes with
    | error failure =>
      rw [hdecode] at hnumber
      cases hnumber
    | ok records =>
      rw [hdecode] at hnumber hstore
      exact ⟨records, rfl, Except.ok.inj hnumber, Except.ok.inj hstore⟩
  · rintro ⟨records, hdecode, rfl, rfl⟩
    refine ⟨?_, ?_⟩
    · rw [hdecode]
      rfl
    · rw [restore, hdecode]
      rfl

/-- Each document counts, and of those of one name the last one stays. -/
theorem Replays.restored {bytes left : Bytes} {records : List Record} (h : Replays bytes records left)
    (hblank : skipSpace left = []) : ∃ m, Restored bytes records.length m ∧
      ∀ name, m.get? name = records.reverse.find? fun record => record.name == name := by
  refine ⟨_, restored_iff.2 ⟨records, decode_eq_ok_iff.2 ⟨left, h, hblank⟩, rfl, rfl⟩, fun name => ?_⟩
  rw [MemoryStore.get?_foldl_put]
  exact Option.or_none

/-- A content behind another one overrides what it restores. -/
theorem Restored.between {c₁ c₂ w₀ w₁ w₂ : Bytes} {n₁ n₂ : Nat} {m₁ m₂ : MemoryStore}
    (h₁ : Restored c₁ n₁ m₁) (h₂ : Restored c₂ n₂ m₂) (hw₀ : w₀.all isSpace = true)
    (hw₁ : w₁.all isSpace = true) (hw₂ : w₂.all isSpace = true) :
    ∃ m, Restored (w₀ ++ c₁ ++ w₁ ++ c₂ ++ w₂) (n₁ + n₂) m ∧
      ∀ name, m.get? name = (m₂.get? name).or (m₁.get? name) := by
  obtain ⟨r₁, hdecode₁, rfl, rfl⟩ := restored_iff.1 h₁
  obtain ⟨r₂, hdecode₂, rfl, rfl⟩ := restored_iff.1 h₂
  refine ⟨_, restored_iff.2
    ⟨r₁ ++ r₂, decode_between hdecode₁ hdecode₂ hw₀ hw₁ hw₂, List.length_append, rfl⟩, ?_⟩
  intro name
  have hempty : MemoryStore.empty.get? name = none := rfl
  rw [List.foldl_append, MemoryStore.get?_foldl_put, MemoryStore.get?_foldl_put r₂ MemoryStore.empty,
    hempty, Option.or_none]

end Snapshot

namespace SnapshotStore

theorem initial_eq_error_iff {bytes : Bytes} {failure : Failure} :
    initial true bytes = .error failure ↔
      ∃ records left, Snapshot.Replays bytes records left ∧ Snapshot.Faulty left failure := by
  rw [← Snapshot.decode_eq_error_iff, initial, if_pos rfl, Snapshot.restore]
  cases Snapshot.decode bytes <;> simp [Except.map]

/-- Of the documents of a content that is restored, the last one of each name stays. Contents that an
empty store accepts are accepted behind each other, with any blanks around them: the numbers of their
documents add up, and each name has the record of the later content, or of the earlier one if the later
has none. A store that is opened with a file has what the file restores, or fails with the fault of the
first document that is malformed or describes no record. However it is opened, and whatever comes of it,
every file that was there is as it was. -/
theorem later_content_overrides {σ : Type} :
    (∀ {c left : Bytes} {records : List Record}, Snapshot.Replays c records left →
      skipSpace left = [] → ∃ m, Snapshot.Restored c records.length m ∧
        ∀ name, m.get? name = records.reverse.find? fun record => record.name == name) ∧
    (∀ {c₁ c₂ w₀ w₁ w₂ : Bytes} {n₁ n₂ : Nat} {m₁ m₂ : MemoryStore},
      Snapshot.Restored c₁ n₁ m₁ → Snapshot.Restored c₂ n₂ m₂ →
      w₀.all isSpace = true → w₁.all isSpace = true → w₂.all isSpace = true →
      ∃ m, Snapshot.Restored (w₀ ++ c₁ ++ w₁ ++ c₂ ++ w₂) (n₁ + n₂) m ∧
        ∀ name, m.get? name = (m₂.get? name).or (m₁.get? name)) ∧
    (∀ {path : String} {place : Place} {world : World σ} (interval : Nat),
      world.host.disk.HasFile path place →
      (∀ {n : Nat} {m : MemoryStore}, Snapshot.Restored (world.host.disk.bytesAt place) n m →
        openAt (some path) interval true world = (.ok (opened path place interval m), world)) ∧
      ∀ failure, openAt (some path) interval true world = (.error failure, world) ↔
        ∃ records left, Snapshot.Replays (world.host.disk.bytesAt place) records left ∧
          Snapshot.Faulty left failure) ∧
    ∀ (path : Option String) (interval : Nat) (restore : Bool) (world : World σ) {place : Place}
      {entry : Entry}, world.host.disk.entry? place = some entry →
      (openAt path interval restore world).2.host.disk.entry? place = some entry := by
  refine ⟨Snapshot.Replays.restored, Snapshot.Restored.between, ?_,
    fun path interval restore _ => openAt_keeps path interval restore⟩
  intro path place world interval hfile
  refine ⟨fun hrestored => openAt_hasFile hfile hrestored.accepted, fun failure => ?_⟩
  rw [openAt_existing hfile, ← initial_eq_error_iff]
  cases initial true (world.host.disk.bytesAt place) <;> simp [Except.map]

/-- A gauge and a counter as an object and a list without a blank between them. -/
def earlier : Bytes :=
  Bytes.ofString "\x7b\"id\":\"a\",\"type\":\"gauge\",\"value\":2.0\x7d[\"b\",\"counter\",7]"

def later : Bytes := Bytes.ofString "[\"a\",\"counter\",5]"

theorem restored_earlier : Snapshot.Restored earlier 2
    ⟨[⟨"a", .gauge (Number.Binary64.ofNat 2)⟩, ⟨"b", .counter 7⟩]⟩ := by
  have hdecode : Snapshot.decode earlier
      = .ok [⟨"a", .gauge (Number.Binary64.ofNat 2)⟩, ⟨"b", .counter 7⟩] := by
    decide +kernel
  exact Snapshot.restored_iff.2 ⟨_, hdecode, rfl, rfl⟩

theorem restored_later : Snapshot.Restored later 1 ⟨[⟨"a", .counter 5⟩]⟩ := by
  have hdecode : Snapshot.decode later = .ok [⟨"a", .counter 5⟩] := by
    decide +kernel
  exact Snapshot.restored_iff.2 ⟨_, hdecode, rfl, rfl⟩

/-- The gauge becomes a counter. When nothing but a brace follows, the store is not opened, and the file
keeps all of its bytes. -/
theorem later_content_overrides_kind :
    (∃ m, Snapshot.Restored ([32] ++ earlier ++ [] ++ later ++ [10]) 3 m ∧
      m.get? "a" = some ⟨"a", .counter 5⟩ ∧ m.get? "b" = some ⟨"b", .counter 7⟩) ∧
    let world : World Unit :=
      ⟨(), ⟨[(["snap.json"], .file (earlier ++ [123]))], Counters.empty, 0⟩⟩
    openAt (some "snap.json") 0 true world = (.error (.serialization .endsInObject), world) ∧
      (openAt (some "snap.json") 0 true world).2.host.disk.entry? ["snap.json"]
        = some (.file (earlier ++ [123])) := by
  obtain ⟨-, hoverrides, hopens, hkeeps⟩ := later_content_overrides (σ := Unit)
  refine ⟨?_, ?_⟩
  · have hblanks : ([32] : Bytes).all isSpace = true ∧ ([] : Bytes).all isSpace = true ∧
        ([10] : Bytes).all isSpace = true := ⟨rfl, rfl, rfl⟩
    obtain ⟨m, hrestored, hget⟩ :=
      hoverrides restored_earlier restored_later hblanks.1 hblanks.2.1 hblanks.2.2
    exact ⟨m, hrestored, hget "a", hget "b"⟩
  · intro world
    have hfile : world.host.disk.HasFile "snap.json" ["snap.json"] :=
      ⟨rfl, rfl, .file (earlier ++ [123]), rfl, fun heq => nomatch heq⟩
    have hfault : Snapshot.decode (earlier ++ [123]) = .error (.serialization .endsInObject) := by
      decide +kernel
    refine ⟨((hopens 0 hfile).2 _).2 (Snapshot.decode_eq_error_iff.1 hfault), ?_⟩
    exact hkeeps (some "snap.json") 0 true world rfl

end SnapshotStore

end Telemetry
