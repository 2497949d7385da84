import Telemetry.Proofs.Service.Triple
import Telemetry.Proofs.Store.Backup
import Telemetry.Proofs.Store.SnapshotFile

/-!
# Restoring what was backed up

Requests keep the records of a store sound and its file where it is, in whatever order the records are
listed and whatever somebody else writes to the file. A backup then leaves the documents of all records
in the file and nothing besides, and a store that is opened with the path restores every name, with its
kind, and with its number as the reader reads it.
-/

namespace Telemetry

open Telemetry.Action

/-- The number that comes back for one that was written: a counter as it was, and a gauge as the
reader reads its text. -/
def Value.ReadsBackAs : Value → Value → Prop
  | .counter n, .counter k => k = n
  | .gauge x, .gauge y =>
    Json.Reader.float.document (Bytes.ofString (String.ofList (Json.floatText x))) = .ok y
  | _, _ => False

/-! ### Sound stores in memory -/

namespace Record.WellFormed

variable {record after : Record} {value : Value}

theorem apply (h : record.WellFormed) (hvalue : value.isFinite = true)
    (happly : record.apply value = .ok after) : after.WellFormed := by
  refine ⟨Record.apply_name happly ▸ h.named, ?_⟩
  unfold Record.apply at happly
  split at happly
  · split at happly
    · cases happly
      rfl
    · cases happly
  · cases happly
    exact hvalue
  · cases happly

theorem reread (h : record.WellFormed) : record.reread.WellFormed := by
  obtain ⟨hname, hfinite⟩ := h
  refine ⟨hname, ?_⟩
  obtain ⟨name, value⟩ := record
  cases value with
  | counter n => rfl
  | gauge x =>
    cases x with
    | nan => cases hfinite
    | infinite negative => cases hfinite
    | finite negative m => rfl

end Record.WellFormed

namespace MemoryStore.Sound

variable {store after : MemoryStore}

theorem perm (h : store.Sound) {records : List Record} (hperm : records.Perm store.records) :
    (MemoryStore.mk records).Sound :=
  ⟨(hperm.map Record.name).nodup_iff.2 h.distinct, fun record hmem =>
    h.wellFormed record (hperm.mem_iff.1 hmem)⟩

theorem wellFormed_get? (h : store.Sound) {name : String} {record : Record}
    (hget : store.get? name = some record) : record.WellFormed :=
  h.wellFormed record (Contents.find?_name hget).1

theorem observe (h : store.Sound) {stored : Record} (hstored : stored.WellFormed) {value : Value}
    (hvalue : value.isFinite = true) (happly : (stored.apply value).map store.put = .ok after) :
    after.Sound := by
  cases hresult : stored.apply value with
  | error failure =>
    rw [hresult] at happly
    cases happly
  | ok record =>
    rw [hresult] at happly
    cases happly
    exact h.put (hstored.apply hvalue hresult)

theorem apply (h : store.Sound) {name : String} {value : Value} (hvalue : value.isFinite = true)
    (happly : store.apply name value = .ok after) : after.Sound := by
  unfold MemoryStore.apply at happly
  split at happly
  · cases happly
  · rename_i stored hget
    exact h.observe (h.wellFormed_get? hget) hvalue happly

theorem applySample (h : store.Sound) {sample : Sample}
    (happly : store.applySample sample = .ok after) : after.Sound := by
  unfold MemoryStore.applySample at happly
  split at happly
  · cases happly
  · rename_i incoming hincoming
    have hwell := Record.wellFormed_of_sample hincoming
    split at happly
    · rename_i stored hget
      exact h.observe (h.wellFormed_get? hget) hwell.finite happly
    · cases happly
      exact h.put hwell

theorem applySamples (h : store.Sound) (samples : List Sample) :
    (store.applySamples samples).2.Sound := by
  induction samples generalizing store with
  | nil => exact h
  | cons sample samples ih =>
    rw [MemoryStore.applySamples]
    split
    · exact h
    · rename_i happly
      exact ih (h.applySample happly)

theorem change (h : store.Sound) {f : MemoryStore → Except Failure MemoryStore} (host : Host)
    (hf : ∀ after, f store = .ok after → after.Sound) :
    (MemoryStore.change f ⟨store, host⟩).2.store.Sound := by
  unfold MemoryStore.change
  dsimp only
  split
  · rename_i happly
    exact hf _ happly
  · exact h

end MemoryStore.Sound

namespace SnapshotStore

/-! ### Requests keep the store in order -/

def OpenFile (path : String) (backup? : Option Backup) (host : Host) : Prop :=
  ∃ backup, backup? = some backup ∧ backup.isOpen = true ∧ host.disk.HasFile path backup.place

/-- The records are sound, and something is known of the file and of the surroundings. -/
structure Holds (F : Option Backup → Host → Prop) (world : World SnapshotStore) : Prop where
  sound : world.store.memory.Sound
  file : F world.store.backup world.host

/-- The file of the path holds the records as they are. -/
structure UpToDate (path : String) (world : World SnapshotStore) : Prop where
  sound : world.store.memory.Sound
  file : ∃ place, world.host.disk.HasFile path place ∧
    world.host.disk.bytesAt place = Snapshot.encode world.store.memory.records

variable {path : String} {F : Option Backup → Host → Prop} {Q E : World SnapshotStore → Prop}

theorem triple_change {action : Action MemoryStore Unit} (hhost : action.KeepsHost)
    (hsound : ∀ w : World MemoryStore, w.store.Sound → (action w).2.store.Sound)
    (hbackup : Triple (Holds F) backupIfDue Q E) (hrefused : ∀ world, Holds F world → E world) :
    Triple (Holds F) (do inMemory action; backupIfDue) Q E := by
  refine Triple.bind ?_ fun _ => hbackup
  intro world hworld
  have hafter : Holds F (withMemory world (action ⟨world.store.memory, world.host⟩).2.store) :=
    ⟨hsound _ hworld.sound, hworld.file⟩
  rw [inMemory_apply hhost]
  cases (action ⟨world.store.memory, world.host⟩).1 with
  | error failure => exact hrefused _ hafter
  | ok done => exact hafter

theorem triple_get (P E : World SnapshotStore → Prop) (name : String) :
    Triple P (Repository.get name) P E := fun _ hworld => hworld

theorem triple_write (hbackup : Triple (Holds F) backupIfDue Q E)
    (hrefused : ∀ world, Holds F world → E world) {record : Record} (hrecord : record.WellFormed)
    (existing : Option Record) :
    Triple (Holds F) (Repository.write record.name record.value existing) Q E := by
  cases existing with
  | none =>
    exact triple_change (MemoryStore.keepsHost_insert record) (fun w hw => hw.put hrecord) hbackup
      hrefused
  | some existing =>
    refine triple_change (MemoryStore.keepsHost_update existing record.value) (fun w hw => ?_)
      hbackup hrefused
    exact hw.change w.host fun _ => hw.apply hrecord.finite

theorem triple_batch (hbackup : Triple (Holds F) backupIfDue Q E)
    (hrefused : ∀ world, Holds F world → E world) (samples : List Sample) :
    Triple (Holds F) (Repository.batch samples) Q E :=
  triple_change (MemoryStore.keepsHost_batch samples) (fun _ hw => hw.applySamples samples) hbackup
    hrefused

/-- What holds across a backup that may be due holds across every update. -/
theorem triple_update (hbackup : Triple (Holds F) backupIfDue Q E)
    (hrefused : ∀ world, Holds F world → E world)
    (hcount : ∀ event n, Triple Q (count event n) Q E) (hlast : ∀ world, Q world → E world)
    (update : Service.Update) : Triple (Holds F) update.perform Q E :=
  Service.Update.triple hrefused (triple_get _ _)
    (fun _ existing hrecord => triple_write hbackup hrefused hrecord existing)
    (triple_batch hbackup hrefused) hcount (triple_get _ _) hlast update

theorem OpenFile.hasFile {backup : Backup} {host : Host} (h : OpenFile path (some backup) host) :
    backup.isOpen = true ∧ host.disk.HasFile path backup.place := by
  obtain ⟨other, hother, hopen, hfile⟩ := h
  cases hother
  exact ⟨hopen, hfile⟩

section Saved

variable {world : World SnapshotStore} {backup : Backup} (h : Holds (OpenFile path) world)
  (hbackup : world.store.backup = some backup)

include h hbackup

theorem hasFile_saved : (saved backup world).host.disk.HasFile path backup.place := by
  have hfile := h.file
  rw [hbackup] at hfile
  have hput : Entry.file (Snapshot.encode world.store.memory.records) ≠ .directory :=
    fun heq => nomatch heq
  exact hfile.hasFile.2.put hput

theorem holds_saved : Holds (OpenFile path) (saved backup world) := by
  have hfile := h.file
  rw [hbackup] at hfile
  exact ⟨h.sound, _, rfl, hfile.hasFile.1, hasFile_saved h hbackup⟩

theorem upToDate_saved : UpToDate path (saved backup world) := by
  have hfile := h.file
  rw [hbackup] at hfile
  exact ⟨h.sound, backup.place, hasFile_saved h hbackup,
    bytesAt_saved hfile.hasFile.2.place_ne_nil world⟩

end Saved

theorem triple_backupIfDue (path : String) : Triple (Holds (OpenFile path)) backupIfDue
    (Holds (OpenFile path)) (Holds (OpenFile path)) := by
  intro world hworld
  obtain ⟨backup, hbackup, hopen, hfile⟩ := hworld.file
  rw [backupIfDue_eq hbackup, if_pos hopen]
  by_cases hdue : backup.isDue world.host.now = true
  · rw [if_pos hdue]
    exact holds_saved hworld hbackup
  · rw [if_neg hdue]
    exact hworld

theorem triple_backupDue (path : String) :
    Triple (Holds fun backup? host => OpenFile path backup? host ∧
      ∀ backup ∈ backup?, backup.isDue host.now = true) backupIfDue (UpToDate path) fun _ => True := by
  intro world hworld
  obtain ⟨⟨backup, hbackup, hopen, hfile⟩, hdue⟩ := hworld.file
  have hin : Holds (OpenFile path) world := ⟨hworld.sound, backup, hbackup, hopen, hfile⟩
  rw [backupIfDue_eq hbackup, if_pos (hdue backup hbackup), if_pos hopen]
  exact upToDate_saved hin hbackup

/-! ### Every world that requests lead to -/

/-- The worlds that a store can be in after it was opened with a path, with any records that could be
restored, and served requests, or single writes of requests that are served together: at any time,
with its records in any order, and after anything else was written to its file. -/
inductive Reached (path : String) : World SnapshotStore → Prop where
  | opened {σ : Type} {start after : World σ} {interval : Nat} {restore : Bool}
      {store : SnapshotStore} (h : openAt (some path) interval restore start = (.ok store, after)) :
      Reached path ⟨store, after.host⟩
  | updated {world : World SnapshotStore} (h : Reached path world) (update : Service.Update) :
      Reached path (update.perform world).2
  | wrote {world : World SnapshotStore} (h : Reached path world) {record : Record}
      (hrecord : record.WellFormed) (existing : Option Record) :
      Reached path (Repository.write record.name record.value existing world).2
  | requested {world : World SnapshotStore} (h : Reached path world) :
      Reached path (backupNow world).2
  | waited {world : World SnapshotStore} (h : Reached path world) (now : Nat) :
      Reached path (world.setTime now)
  | reordered {world : World SnapshotStore} (h : Reached path world) {records : List Record}
      (hperm : records.Perm world.store.memory.records) : Reached path (withMemory world ⟨records⟩)
  | overwritten {world : World SnapshotStore} (h : Reached path world) {backup : Backup}
      (hbackup : world.store.backup = some backup) {entry : Entry} (hentry : entry ≠ .directory) :
      Reached path { world with
        host := { world.host with disk := world.host.disk.put backup.place entry } }

/-- A backup that was taken: on request, because it was due when an update was done, or at the
end. -/
inductive TakesBackup : World SnapshotStore → World SnapshotStore → Prop where
  | requested {world after : World SnapshotStore} (h : backupNow world = (.ok (), after)) :
      TakesBackup world after
  | due {world after : World SnapshotStore} {update : Service.Update} {answer : Service.Answer}
      (hdue : ∀ backup ∈ world.store.backup, backup.isDue world.host.now = true)
      (h : update.perform world = (.ok answer, after)) : TakesBackup world after
  | closing {world after : World SnapshotStore}
      (hopen : ∀ backup ∈ world.store.backup, backup.isOpen = true)
      (h : Repository.close world = (.ok (), after)) : TakesBackup world after

theorem Reached.holds {world : World SnapshotStore} (h : Reached path world) :
    Holds (OpenFile path) world := by
  induction h with
  | opened h =>
    obtain ⟨place, memory, rfl, hfile, hinitial⟩ := openAt_ok h
    refine ⟨?_, _, rfl, rfl, hfile⟩
    unfold initial at hinitial
    split at hinitial
    · exact Snapshot.sound_of_restore hinitial
    · cases hinitial
      exact MemoryStore.sound_empty
  | updated h update ih =>
    refine (triple_update (triple_backupIfDue path) (fun _ h => h) ?_ (fun _ h => h) update).after ih
    exact fun event n world hworld => ⟨hworld.sound, hworld.file⟩
  | wrote h hrecord existing ih =>
    exact (triple_write (triple_backupIfDue path) (fun _ h => h) hrecord existing).after ih
  | requested h ih =>
    obtain ⟨backup, hbackup, hopen, hfile⟩ := ih.file
    rw [backupNow_eq hbackup, if_pos hopen]
    exact holds_saved ih hbackup
  | waited h now ih => exact ⟨ih.sound, ih.file⟩
  | reordered h hperm ih => exact ⟨ih.sound.perm hperm, ih.file⟩
  | overwritten h hbackup hentry ih =>
    obtain ⟨hopen, hfile⟩ := (hbackup ▸ ih.file).hasFile
    exact ⟨ih.sound, _, hbackup, hopen, hfile.put hentry⟩

theorem Reached.upToDate {world after : World SnapshotStore} (h : Reached path world)
    (hbackup : TakesBackup world after) : UpToDate path after := by
  obtain ⟨backup, hstored, hopen, hfile⟩ := h.holds.file
  cases hbackup with
  | requested hdone =>
    rw [backupNow_eq hstored, if_pos hopen] at hdone
    cases hdone
    exact upToDate_saved h.holds hstored
  | due hdue hdone =>
    rename_i update answer
    have hcount (event : Event) (n : UInt64) :
        Triple (UpToDate path) (Action.count event n) (UpToDate path) fun _ => True :=
      fun _ hworld => ⟨hworld.sound, hworld.file⟩
    have hupdate := triple_update (triple_backupDue path) (fun _ _ => trivial) hcount
      (fun _ _ => trivial) update world ⟨h.holds.sound, h.holds.file, hdue⟩
    rw [hdone] at hupdate
    exact hupdate
  | closing _ hdone =>
    rw [close_eq hstored, if_pos hopen] at hdone
    cases hdone
    obtain ⟨hsound, hup⟩ := upToDate_saved h.holds hstored
    exact ⟨hsound, hup⟩

/-! ### What is restored -/

theorem get?_reread (store : MemoryStore) (name : String) :
    (MemoryStore.mk (store.records.map Record.reread)).get? name
      = (store.get? name).map Record.reread := by
  rw [MemoryStore.get?, MemoryStore.get?, List.find?_map]
  rfl

theorem Value.readsBackAs_reread {value : Value} (h : value.isFinite = true) :
    value.ReadsBackAs value.reread := by
  cases value with
  | counter n => exact rfl
  | gauge x =>
    cases x with
    | nan => cases h
    | infinite negative => cases h
    | finite negative m =>
      rw [Value.reread, Value.ReadsBackAs, Bytes.ofString_ofList,
        (Json.Reader.reads_float negative m).document]

/-- Every record is restored under its name, with its number as the reader reads it, and nothing
else is. -/
structure Restores (restored stored : MemoryStore) : Prop where
  sound : restored.Sound
  missing {name : String} (h : stored.get? name = none) : restored.get? name = none
  present {name : String} {record : Record} (h : stored.get? name = some record) :
    ∃ value, restored.get? name = some ⟨name, value⟩ ∧ record.value.ReadsBackAs value

theorem restores_reread {store : MemoryStore} (h : store.Sound) :
    Restores ⟨store.records.map Record.reread⟩ store where
  sound := by
    refine ⟨?_, fun record hmem => ?_⟩
    · rw [List.map_map]
      exact h.distinct
    · obtain ⟨stored, hstored, rfl⟩ := List.mem_map.1 hmem
      exact (h.wellFormed stored hstored).reread
  missing hnone := by
    rw [get?_reread, hnone]
    rfl
  present {name record} hsome := by
    obtain ⟨hmem, rfl⟩ := Contents.find?_name hsome
    refine ⟨record.value.reread, ?_, Value.readsBackAs_reread (h.wellFormed record hmem).finite⟩
    rw [get?_reread, hsome]
    rfl

/-- After any backup of a store that requests have led anywhere, a store that is opened with the same
path is restored from the file: it has the records of the store that was backed up, each under its
name and with its kind, the counters as they were and the gauges as their digits are read. -/
theorem restores_after_backup {path : String} {world after : World SnapshotStore}
    (hreached : Reached path world) (hbackup : TakesBackup world after) {σ : Type} (start : World σ)
    (hdisk : start.host.disk = after.host.disk) (interval : Nat) :
    ∃ restored : SnapshotStore, openAt (some path) interval true start = (.ok restored, start) ∧
      Restores restored.memory after.store.memory := by
  obtain ⟨hsound, place, hfile, hbytes⟩ := hreached.upToDate hbackup
  rw [← hdisk] at hfile hbytes
  have hinitial : initial true (start.host.disk.bytesAt place)
      = .ok ⟨after.store.memory.records.map Record.reread⟩ := by
    rw [hbytes]
    exact Snapshot.restore_encode hsound
  exact ⟨_, openAt_hasFile hfile hinitial, restores_reread hsound⟩

/-- A counter with a line end in its name, written to a file that held something longer. -/
theorem restores_after_backup_line :
    let stale : Host := ⟨[(["snap.json"], .file (List.replicate 100 33))], Counters.empty, 0⟩
    let first : World SnapshotStore := ⟨opened "snap.json" ["snap.json"] 0 MemoryStore.empty, stale⟩
    let update : Service.Update := .one (Sample.counter "a\nb" 1)
    ∃ after, update.perform first = (.ok (.shown (Sample.counter "a\nb" 1)), after) ∧
      ∃ restored : SnapshotStore, openAt (some "snap.json") 0 true after = (.ok restored, after) ∧
        restored.memory.get? "a\nb" = some ⟨"a\nb", .counter 1⟩ := by
  intro stale first update
  have hreached : Reached "snap.json" first := by
    have hopened : openAt (some "snap.json") 0 false (World.mk () stale)
        = (.ok first.store, World.mk () stale) := rfl
    exact .opened hopened
  have hdone : update.perform first
      = (.ok (.shown (Sample.counter "a\nb" 1)), (update.perform first).2) := rfl
  have hdue : ∀ backup ∈ first.store.backup, backup.isDue first.host.now = true := by
    rintro backup ⟨⟩
    rfl
  obtain ⟨restored, hopen, hrestores⟩ :=
    restores_after_backup hreached (.due hdue hdone) (update.perform first).2 rfl 0
  have hstored : (update.perform first).2.store.memory.get? "a\nb" = some ⟨"a\nb", .counter 1⟩ := rfl
  obtain ⟨value, hget, hvalue⟩ := hrestores.present hstored
  cases value with
  | gauge x => exact hvalue.elim
  | counter n =>
    cases hvalue
    exact ⟨_, hdone, restored, hopen, hget⟩

end SnapshotStore

end Telemetry
