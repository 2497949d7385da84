import Telemetry.Proofs.Disk
import Telemetry.Store.Snapshot

/-!
# Taking a backup

A backup puts the records into the place of the file, notes the time and is counted; it fails only
when the file was let go of. A change of the records that is done is followed by a backup if one is
due, a change that is refused by none. Opening a store finds its file through its path, and so does
opening it again after any number of backups.
-/

namespace Telemetry

namespace Schedule

variable {σ α : Type} {attempt : Action σ α} {a : α} {world after : World σ}

theorem runFrom_ok {cancel : Cancellation} {last : Failure} {delays : List Nat}
    (h : runFrom cancel attempt last delays world = (.ok a, after)) :
    ∃ before, attempt before = (.ok a, after) := by
  induction delays generalizing last world with
  | nil => cases h
  | cons delay delays ih =>
    rw [runFrom] at h
    split at h
    · cases h
    · rcases hattempt : attempt world with ⟨failure | b, next⟩
      · simp only [hattempt, Verdict.of] at h
        by_cases htransient : failure.isTransient = true
        · simp only [htransient, if_true] at h
          split at h
          · exact ih h
          · split at h
            · cases h
            · exact ih h
        · simp only [htransient] at h
          cases h
      · simp only [hattempt, Verdict.of] at h
        exact ⟨world, hattempt.trans h⟩

theorem run_first {schedule : Schedule} (hdelays : schedule.delays ≠ []) {cancel : Cancellation}
    (hlive : cancel.reached world.host.now = false) (h : attempt world = (.ok a, after)) :
    schedule.run cancel attempt world = (.ok a, after) := by
  obtain ⟨_ | ⟨delay, delays⟩⟩ := schedule
  · exact absurd rfl hdelays
  · rw [run, runFrom, hlive, h]
    rfl

theorem runFrom_keeps {p : Disk → Prop}
    (h : ∀ {world : World σ}, p world.host.disk → p (attempt world).2.host.disk)
    {cancel : Cancellation} {last : Failure} {delays : List Nat} (hworld : p world.host.disk) :
    p (runFrom cancel attempt last delays world).2.host.disk := by
  induction delays generalizing last world with
  | nil => exact hworld
  | cons delay delays ih =>
    have hattempt := h hworld
    rw [runFrom]
    split
    · exact hworld
    · rcases hmade : attempt world with ⟨outcome, next⟩
      rw [hmade] at hattempt
      dsimp only
      split
      · exact hattempt
      · split
        · exact ih hattempt
        · split
          · exact hattempt
          · exact ih hattempt

end Schedule

/-- The action leaves the surroundings as they are. -/
def Action.KeepsHost {σ α : Type} (action : Action σ α) : Prop :=
  ∀ world, (action world).2.host = world.host

namespace MemoryStore

theorem keepsHost_change (f : MemoryStore → Except Failure MemoryStore) : (change f).KeepsHost := by
  intro world
  unfold change
  split <;> rfl

theorem keepsHost_insert (record : Record) :
    (Repository.insert record : Action MemoryStore Unit).KeepsHost := keepsHost_change _

theorem keepsHost_update (existing : Record) (value : Value) :
    (Repository.update existing value : Action MemoryStore Unit).KeepsHost := keepsHost_change _

theorem keepsHost_batch (samples : List Sample) :
    (Repository.batch samples : Action MemoryStore Unit).KeepsHost := fun _ => rfl

end MemoryStore

namespace SnapshotStore

/-! ### Opening -/

section Opening

variable {σ : Type} {world after : World σ} {path : String} {place : Place} {interval : Nat}

/-- The records that a store starts with when its file holds these bytes. -/
def initial (restore : Bool) (bytes : Bytes) : Except Failure MemoryStore :=
  if restore then Snapshot.restore bytes else .ok MemoryStore.empty

def opened (path : String) (place : Place) (interval : Nat) (memory : MemoryStore) : SnapshotStore :=
  ⟨memory, some ⟨path, place, interval, true, none⟩⟩

theorem openAt_apply (path : String) (interval : Nat) (restore : Bool) (world : World σ) :
    openAt (some path) interval restore world =
      match Schedule.standard.run none (openFile path) world with
      | (.error failure, after) => (.error failure, after)
      | (.ok place, after) =>
        ((initial restore (after.host.disk.bytesAt place)).map (opened path place interval), after) := by
  rw [openAt, Action.bind_apply]
  rcases Schedule.standard.run none (openFile path) world with ⟨failure | place, after⟩
  · rfl
  · refine (Action.bind_apply (fun found =>
      (initial restore (found.host.disk.bytesAt place), found))
      (fun memory => pure (opened path place interval memory)) after).trans ?_
    dsimp only
    cases initial restore (after.host.disk.bytesAt place) <;> rfl

theorem openFile_ok (h : openFile path world = (.ok place, after)) :
    after.host.disk.HasFile path place := by
  rw [openFile] at h
  split at h
  · rename_i hcreate
    cases h
    exact Disk.hasFile_of_create hcreate
  · cases h

/-- A store that was opened has the open file of its path and starts with what the file holds. -/
theorem openAt_ok {restore : Bool} {store : SnapshotStore}
    (h : openAt (some path) interval restore world = (.ok store, after)) :
    ∃ place memory, store = opened path place interval memory ∧
      after.host.disk.HasFile path place ∧
      initial restore (after.host.disk.bytesAt place) = .ok memory := by
  rw [openAt_apply] at h
  split at h
  · cases h
  · rename_i place found hrun
    obtain ⟨before, hattempt⟩ := Schedule.runFrom_ok hrun
    cases hinitial : initial restore (found.host.disk.bytesAt place) with
    | error failure =>
      rw [hinitial] at h
      cases h
    | ok memory =>
      rw [hinitial] at h
      cases h
      exact ⟨place, memory, rfl, openFile_ok hattempt, hinitial⟩

theorem openAt_existing (h : world.host.disk.HasFile path place) (interval : Nat) (restore : Bool) :
    openAt (some path) interval restore world =
      ((initial restore (world.host.disk.bytesAt place)).map (opened path place interval), world) := by
  have hattempt : openFile path world = (.ok place, world) := by
    rw [openFile, h.create]
  have hdelays : Schedule.standard.delays ≠ [] := List.cons_ne_nil _ _
  rw [openAt_apply, Schedule.run_first hdelays rfl hattempt]

theorem openAt_hasFile {restore : Bool} {memory : MemoryStore}
    (h : world.host.disk.HasFile path place)
    (hinitial : initial restore (world.host.disk.bytesAt place) = .ok memory) :
    openAt (some path) interval restore world = (.ok (opened path place interval memory), world) := by
  rw [openAt_existing h, hinitial]
  rfl

/-- Whatever comes of opening a store, all that was on the disk is there as it was. -/
theorem openAt_keeps (path : Option String) (interval : Nat) (restore : Bool) {other : Place}
    {entry : Entry} (hentry : world.host.disk.entry? other = some entry) :
    (openAt path interval restore world).2.host.disk.entry? other = some entry := by
  cases path with
  | none => exact hentry
  | some path =>
    have hopen : (Schedule.standard.run none (openFile path) world).2.host.disk.entry? other
        = some entry := by
      refine Schedule.runFrom_keeps (p := fun disk => disk.entry? other = some entry) ?_ hentry
      intro before hbefore
      rw [openFile]
      split
      · rename_i hcreate
        exact Disk.entry?_create hcreate hbefore
      · exact hbefore
    rw [openAt_apply]
    split
    · rename_i hrun
      rwa [hrun] at hopen
    · rename_i hrun
      rwa [hrun] at hopen

end Opening

/-! ### Writing -/

variable {world : World SnapshotStore} {backup : Backup}

def saved (backup : Backup) (world : World SnapshotStore) : World SnapshotStore where
  store := { world.store with backup := some { backup with stored := some world.host.now } }
  host := { world.host with
    disk := world.host.disk.put backup.place (.file (Snapshot.encode world.store.memory.records))
    counters := world.host.counters.add .backup 1 }

/-- The failure of a backup to a file that was let go of. -/
def released (backup : Backup) : Failure := .file backup.path FileFault.closed.message

theorem writeBackup_eq (backup : Backup) (world : World SnapshotStore) :
    writeBackup backup world =
      if backup.isOpen then (.ok (), saved backup world) else (.error (released backup), world) := rfl

theorem backupNow_eq (hbackup : world.store.backup = some backup) :
    backupNow world =
      if backup.isOpen then (.ok (), saved backup world) else (.error (released backup), world) := by
  rw [backupNow, hbackup]
  exact writeBackup_eq backup world

theorem backupIfDue_eq (hbackup : world.store.backup = some backup) :
    backupIfDue world =
      if backup.isDue world.host.now then
        if backup.isOpen then (.ok (), saved backup world) else (.error (released backup), world)
      else (.ok (), world) := by
  rw [backupIfDue, hbackup]
  rfl

def closed (world : World SnapshotStore) : World SnapshotStore :=
  { world with store := { world.store with
    backup := world.store.backup.map fun backup => { backup with isOpen := false } } }

theorem close_eq (hbackup : world.store.backup = some backup) :
    Repository.close world =
      if backup.isOpen then (.ok (), closed (saved backup world)) else (.ok (), world) := by
  change closeBackup world = _
  rw [closeBackup, hbackup]
  dsimp only
  split
  · rename_i hopen
    rw [writeBackup_eq, if_pos hopen]
    rfl
  · rfl

/-! ### Changing records -/

def withMemory (world : World SnapshotStore) (memory : MemoryStore) : World SnapshotStore :=
  { world with store := { world.store with memory } }

/-- What an action of the store in memory, which leaves the surroundings alone, does to the whole. -/
theorem inMemory_apply {α : Type} {action : Action MemoryStore α} (h : action.KeepsHost)
    (world : World SnapshotStore) :
    inMemory action world = ((action ⟨world.store.memory, world.host⟩).1,
      withMemory world (action ⟨world.store.memory, world.host⟩).2.store) := by
  have hhost := h ⟨world.store.memory, world.host⟩
  rw [inMemory, Action.onPart]
  rcases haction : action ⟨world.store.memory, world.host⟩ with ⟨result, after⟩
  rw [haction] at hhost
  exact congrArg (fun host => (result, World.mk _ host)) hhost

theorem bytesAt_saved (hplace : backup.place ≠ []) (world : World SnapshotStore) :
    (saved backup world).host.disk.bytesAt backup.place
      = Snapshot.encode world.store.memory.records :=
  Disk.bytesAt_put hplace _

end SnapshotStore

end Telemetry
