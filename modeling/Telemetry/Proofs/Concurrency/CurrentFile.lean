import Telemetry.Proofs.Concurrency.SnapshotCalls
import Telemetry.Proofs.Store.Promptness

/-!
# Changes in progress together and the file

Where backups have no interval between them, every change that is made in memory is followed by a
look at the records and a backup of what was seen, both under the lock of the file. While a change has
not had its look nothing is said of the file. The last of the looks sees every change, and what it saw
is written before the lock is given back, so nothing older is written after it: when no call is in
progress, the file holds the records as they are.
-/

namespace Telemetry

open Repository

namespace SnapshotStore

/-- The store has the open file of the path and writes it after every change. -/
def WritesThrough (path : String) (world : World SnapshotStore) : Prop :=
  ∃ backup, world.store.backup = some backup ∧ backup.interval = 0 ∧ backup.isOpen = true ∧
    world.host.disk.HasFile path backup.place

theorem writesThrough_of_openAt {σ : Type} {world found : World σ} {path : String} {restore : Bool}
    {store : SnapshotStore} (h : openAt (some path) 0 restore world = (.ok store, found)) :
    WritesThrough path ⟨store, found.host⟩ := by
  obtain ⟨place, memory, rfl, hfile, -⟩ := openAt_ok h
  exact ⟨_, rfl, rfl, rfl, hfile⟩

/-- What writing these records does: they are in the file, and the records in memory stay. -/
structure Rewritten (path : String) (records : List Record) (world after : World SnapshotStore) :
    Prop where
  file : WritesThrough path after
  memory : after.store.memory = world.store.memory
  content : after.host.disk.read path = .ok (Snapshot.encode records)

theorem WritesThrough.rewrite {path : String} {world : World SnapshotStore}
    (h : WritesThrough path world) (records : List Record) :
    ∃ after, rewrite records world = (.ok (), after) ∧ Rewritten path records world after := by
  obtain ⟨backup, hbackup, hinterval, hopen, hfile⟩ := h
  have hread : (withMemory world ⟨records⟩).store.backup = some backup := hbackup
  have hentry : Entry.file (Snapshot.encode records) ≠ .directory := fun heq => nomatch heq
  have hput : (world.host.disk.put backup.place (.file (Snapshot.encode records))).HasFile path
      backup.place := hfile.put hentry
  refine ⟨withMemory (saved backup (withMemory world ⟨records⟩)) world.store.memory, ?_, ?_, rfl, ?_⟩
  · rw [SnapshotStore.rewrite, backupNow_eq hread, if_pos hopen]
  · exact ⟨_, rfl, hinterval, hopen, hput⟩
  · exact hput.read (Disk.entry?_put hfile.place_ne_nil _)

namespace Stage

/-- What a call means for the file. -/
inductive Phase where
  /-- It has done nothing. -/
  | idle
  /-- It may have changed the records, and has not read them since. -/
  | owing
  /-- It has read these records and is going to write them. -/
  | reading (records : List Record)
  | written
  | failed

def phase : Stage → Phase
  | .waiting _ => .idle
  | .refused _ => .idle
  | .applying _ => .owing
  | .changed => .owing
  | .entered => .owing
  | .stopped _ => .owing
  | .read records => .reading records
  | .leaving (.ok ()) => .written
  | .leaving (.error _) => .failed
  | .finished (.ok ()) => .written
  | .finished (.error _) => .failed

theorem eq_read_of_phase {stage : Stage} {records : List Record}
    (h : stage.phase = .reading records) : stage = .read records := by
  unfold phase at h
  split at h <;> cases h
  rfl

theorem phase_finished (result : Except Failure Unit) :
    (finished result).phase = (leaving result).phase := by
  rcases result with failure | ⟨⟨⟩⟩ <;> rfl

def isInside : Stage → Bool
  | .entered => true
  | .read _ => true
  | .leaving _ => true
  | _ => false

theorem isInside_of_idle {stage : Stage} (h : stage.phase = .idle) : stage.isInside = false := by
  unfold phase at h
  split at h <;> first | rfl | cases h

/-- The call is not in progress: it has not begun, or it has returned and was not a batch that was
refused on the way. -/
def isResting : Stage → Bool
  | .waiting _ => true
  | .refused _ => true
  | .finished _ => true
  | _ => false

theorem phase_of_isResting {stage : Stage} (h : stage.isResting = true) :
    stage.phase = .idle ∨ stage.phase = .failed ∨ stage = .finished (.ok ()) := by
  unfold isResting at h
  split at h
  · exact .inl rfl
  · exact .inl rfl
  · rename_i result
    rcases result with failure | ⟨⟨⟩⟩
    · exact .inr (.inl rfl)
    · exact .inr (.inr rfl)
  · cases h

/-! ### What one step does -/

/-- All that a step can do when the store writes through to its file. -/
inductive Moved (path : String) : Stage → Shared → Stage × Shared → Prop where
  /-- There is nothing to do, or the lock is not free. -/
  | stayed {stage : Stage} {shared : Shared} : Moved path stage shared (stage, shared)
  /-- A name was looked up, or the change was refused. -/
  | looked {stage next : Stage} {shared : Shared} (h : stage.phase = .idle)
      (hnext : next.phase = .idle) : Moved path stage shared (next, shared)
  | made {stage next : Stage} {shared : Shared} {memory : MemoryStore} (h : stage.isInside = false)
      (hnext : next.isInside = false) (howes : next.phase = .owing) :
      Moved path stage shared (next, { shared with world := withMemory shared.world memory })
  | locked {shared : Shared} (h : shared.isLocked = false) :
      Moved path .changed shared (.entered, { shared with isLocked := true })
  | read {shared : Shared} :
      Moved path .entered shared (.read shared.world.store.memory.records, shared)
  | wrote {records : List Record} {shared : Shared} {world : World SnapshotStore}
      (h : Rewritten path records shared.world world) :
      Moved path (.read records) shared (.leaving (.ok ()), { shared with world })
  | unlocked {result : Except Failure Unit} {shared : Shared} :
      Moved path (.leaving result) shared (.finished result, { shared with isLocked := false })

theorem make_of_keepsHost {change : Action MemoryStore Unit} (hhost : change.KeepsHost)
    (done : Stage) (refused : Failure → Stage) (shared : Shared) :
    make change done refused shared =
      match change ⟨shared.world.store.memory, shared.world.host⟩ with
      | (.error failure, memory) =>
        (refused failure, { shared with world := withMemory shared.world memory.store })
      | (.ok (), memory) => (done, { shared with world := withMemory shared.world memory.store }) := by
  rw [make, inMemory_apply hhost]
  rcases change ⟨shared.world.store.memory, shared.world.host⟩ with ⟨failure | ⟨⟨⟩⟩, memory⟩ <;> rfl

variable {path : String} {shared : Shared}

/-- An operation that is refused changes nothing. -/
theorem moved_change (f : MemoryStore → Except Failure MemoryStore) {stage : Stage}
    (hidle : stage.phase = .idle) :
    Moved path stage shared (make (MemoryStore.change f) .changed .refused shared) := by
  rw [make_of_keepsHost (MemoryStore.keepsHost_change f)]
  rcases hchange : MemoryStore.change f ⟨shared.world.store.memory, shared.world.host⟩
    with ⟨failure | ⟨⟨⟩⟩, memory⟩
  · rw [MemoryStore.change_error f hchange]
    exact .looked hidle rfl
  · exact .made (isInside_of_idle hidle) rfl rfl

theorem moved_lookUp (record : Except Failure Record) {stage : Stage}
    (hidle : stage.phase = .idle) : Moved path stage shared (lookUp record shared) := by
  cases record with
  | error failure => exact .looked hidle rfl
  | ok record =>
    have hget : Repository.get record.name shared.world
        = (.ok (shared.world.store.memory.get? record.name), shared.world) := rfl
    rw [lookUp, hget]
    cases shared.world.store.memory.get? record.name with
    | none => exact .looked hidle rfl
    | some existing => exact .looked hidle rfl

theorem moved_step (h : WritesThrough path shared.world) (stage : Stage) :
    Moved path stage shared (stage.step shared) := by
  cases stage with
  | waiting mutation =>
    cases mutation with
    | insert record => exact moved_change (fun store => .ok (store.put record)) rfl
    | update existing value => exact moved_change (fun store => store.apply existing.name value) rfl
    | upsert sample => exact moved_lookUp sample.toRecord rfl
    | batch samples => exact @Moved.made path _ _ shared shared.world.store.memory rfl rfl rfl
  | refused failure => exact .stayed
  | applying left =>
    cases left with
    | nil => exact @Moved.made path _ _ shared shared.world.store.memory rfl rfl rfl
    | cons sample left =>
      rw [step, make_of_keepsHost (MemoryStore.keepsHost_batch [sample])]
      split
      · exact .made rfl rfl rfl
      · exact .made rfl rfl rfl
  | changed =>
    obtain ⟨backup, hbackup, -⟩ := h
    simp only [step, hbackup]
    cases hlocked : shared.isLocked with
    | false => exact .locked hlocked
    | true => exact .stayed
  | entered =>
    obtain ⟨backup, hbackup, hinterval, -⟩ := h
    have hdue : backup.isDue shared.world.host.now = true := by simp [Backup.isDue, hinterval]
    simp only [step, hbackup, Option.any_some, hdue]
    exact .read
  | read records =>
    obtain ⟨after, hafter, hrewritten⟩ := h.rewrite records
    simp only [step, hafter]
    exact .wrote hrewritten
  | leaving result => exact .unlocked
  | finished result => exact .stayed
  | stopped failure => exact .stayed

theorem Moved.file {stage : Stage} {outcome : Stage × Shared} (h : Moved path stage shared outcome)
    (hfile : WritesThrough path shared.world) : WritesThrough path outcome.2.world := by
  cases h with
  | stayed => exact hfile
  | looked hidle hnext => exact hfile
  | made hinside hnext howes => exact hfile
  | locked hfree => exact hfile
  | read => exact hfile
  | wrote hworld => exact hworld.file
  | unlocked => exact hfile

end Stage

open Stage

variable {path : String} {before : World SnapshotStore} {scene : Scene Stage Shared}
  {changes : List Nat} {i : Nat} {stage next : Stage} {shared : Shared}

/-! ### One call inside at a time -/

/-- The file is locked when one call is inside, and not locked when none is. -/
def Locks (scene : Scene Stage Shared) : Prop :=
  scene.calls.countP isInside = scene.world.isLocked.toNat

theorem Locks.step (h : Locks scene) (hcall : scene.calls[i]? = some stage)
    (hmoved : Moved path stage scene.world (next, shared)) :
    Locks ⟨scene.calls.set i next, shared⟩ := by
  have hcount := Scene.countP_set isInside hcall next
  cases hmoved with
  | stayed => exact (Nat.add_right_cancel hcount).trans h
  | looked hidle hnext =>
    rw [isInside_of_idle hidle, isInside_of_idle hnext] at hcount
    exact hcount.trans h
  | made hinside hnext howes =>
    rw [hinside, hnext] at hcount
    exact hcount.trans h
  | locked hfree =>
    rw [Locks, hfree] at h
    rw [h] at hcount
    exact hcount
  | read => exact (Nat.add_right_cancel hcount).trans h
  | wrote hwritten => exact (Nat.add_right_cancel hcount).trans h
  | @unlocked result =>
    have hleft : (scene.calls.set i (.finished result)).countP isInside + 1
        = scene.world.isLocked.toNat := hcount.trans h
    have hlocked := Bool.toNat_le scene.world.isLocked
    show (scene.calls.set i (.finished result)).countP isInside = 0
    omega

theorem Locks.unique (h : Locks scene) (hcall : scene.calls[i]? = some stage)
    (hstage : stage.isInside = true) {other : Stage} (hmem : other ∈ scene.calls)
    (hother : other.isInside = true) : other = stage := by
  refine Classical.byContradiction fun hne => ?_
  have hcount := Scene.countP_set isInside hcall .changed
  rw [h, hstage] at hcount
  have hlocked := Bool.toNat_le scene.world.isLocked
  have hstays : other ∈ scene.calls.set i .changed :=
    Scene.mem_set_of_fixed hcall hmem fun heq => absurd heq.symm hne
  have hpos : 0 < (scene.calls.set i .changed).countP isInside :=
    List.countP_pos_iff.2 ⟨other, hstays, hother⟩
  change _ + 1 = _ + 0 at hcount
  omega

/-! ### How far the file is behind -/

/-- The step is noted when it changes the records. -/
def changing (i : Nat) (stage : Stage) (shared : Shared) : List Nat :=
  if (stage.step shared).2.world.store.memory = shared.world.store.memory then [] else [i]

/-- What the file is to the records: a call that may have changed them has not read them yet, or one
has read them as they are and is going to write them, or they are in the file and nothing else is
going to be written to it, or nothing has happened. -/
inductive Progress (path : String) (before : World SnapshotStore) (scene : Scene Stage Shared)
    (changes : List Nat) : Prop where
  | owed (h : ∃ stage ∈ scene.calls, stage.phase = .owing)
  | reading (h : ∃ stage ∈ scene.calls,
      stage.phase = .reading scene.world.world.store.memory.records)
  | current (hnone : ∀ stage ∈ scene.calls, ∀ records, stage.phase ≠ .reading records)
      (hwritten : ∃ stage ∈ scene.calls, stage.phase = .written)
      (hcontent : scene.world.world.host.disk.read path
        = .ok (Snapshot.encode scene.world.world.store.memory.records))
  | untouched (hidle : ∀ stage ∈ scene.calls, stage.phase = .idle) (hchanges : changes = [])
      (hmemory : scene.world.world.store.memory = before.store.memory)
      (hdisk : scene.world.world.host.disk = before.host.disk)

theorem Progress.kept (h : Progress path before scene changes) (hcall : scene.calls[i]? = some stage)
    (hphase : next.phase = stage.phase) (hworld : shared.world = scene.world.world) :
    Progress path before ⟨scene.calls.set i next, shared⟩ changes := by
  obtain ⟨world, isLocked⟩ := shared
  obtain rfl : world = scene.world.world := hworld
  have hmem := List.mem_of_getElem? hcall
  cases h with
  | owed h => exact .owed (Scene.exists_mem_set hcall h hphase.trans)
  | reading h => exact .reading (Scene.exists_mem_set hcall h hphase.trans)
  | current hnone hwritten hcontent =>
    have hnext := hnone stage hmem
    rw [← hphase] at hnext
    exact .current (Scene.forall_mem_set hnone hnext)
      (Scene.exists_mem_set hcall hwritten hphase.trans) hcontent
  | untouched hidle hchanges hmemory hdisk =>
    exact .untouched (Scene.forall_mem_set hidle (hphase.trans (hidle stage hmem))) hchanges hmemory
      hdisk

/-- Only the call that is inside can write, so what it has read of the records as they are goes to the
file before anything else does. -/
theorem Progress.wrote (h : Progress path before scene changes) (hlocks : Locks scene)
    {records : List Record} (hcall : scene.calls[i]? = some (.read records))
    {world : World SnapshotStore} (hworld : Rewritten path records scene.world.world world)
    (after : List Nat) :
    Progress path before ⟨scene.calls.set i (.leaving (.ok ())), { scene.world with world }⟩
      after := by
  have hmem := List.mem_of_getElem? hcall
  cases h with
  | owed h => exact .owed (Scene.exists_mem_set hcall h fun howes => nomatch howes)
  | reading h =>
    obtain ⟨other, hother, hphase⟩ := h
    obtain rfl := eq_read_of_phase hphase
    -- The call that has read the records as they are is the one that writes.
    cases hlocks.unique hcall rfl hother rfl
    refine .current (fun stage hstage records hreading => ?_)
      ⟨_, Scene.mem_set_self hcall _, rfl⟩ ?_
    · obtain rfl := eq_read_of_phase hreading
      have hafter := hlocks.step hcall (.wrote hworld)
      cases hafter.unique (Scene.getElem?_set_of_some hcall _) rfl hstage rfl
    · show world.host.disk.read path = .ok (Snapshot.encode world.store.memory.records)
      rw [hworld.content, hworld.memory]
  | current hnone hwritten hcontent => exact absurd rfl (hnone _ hmem records)
  | untouched hidle hchanges hmemory hdisk => cases hidle _ hmem

theorem Progress.step (h : Progress path before scene changes) (hlocks : Locks scene)
    (hcall : scene.calls[i]? = some stage) (hmoved : Moved path stage scene.world (next, shared))
    {note : List Nat}
    (hnote : shared.world.store.memory = scene.world.world.store.memory → note = []) :
    Progress path before ⟨scene.calls.set i next, shared⟩ (changes ++ note) := by
  cases hmoved with
  | stayed =>
    rw [hnote rfl, List.append_nil]
    exact h.kept hcall rfl rfl
  | looked hidle hnext =>
    rw [hnote rfl, List.append_nil]
    exact h.kept hcall (hnext.trans hidle.symm) rfl
  | made hinside hnext howes => exact .owed ⟨_, Scene.mem_set_self hcall _, howes⟩
  | locked hfree => exact .owed ⟨_, Scene.mem_set_self hcall _, rfl⟩
  | read => exact .reading ⟨_, Scene.mem_set_self hcall _, rfl⟩
  | wrote hworld => exact h.wrote hlocks hcall hworld _
  | unlocked =>
    rw [hnote rfl, List.append_nil]
    exact h.kept hcall (phase_finished _) rfl

/-- What every step keeps. -/
structure Guarded (path : String) (before : World SnapshotStore) (scene : Scene Stage Shared)
    (changes : List Nat) : Prop where
  file : WritesThrough path scene.world.world
  locks : Locks scene
  progress : Progress path before scene changes

theorem Guarded.step (h : Guarded path before scene changes) (hcall : scene.calls[i]? = some stage) :
    Guarded path before
      ⟨scene.calls.set i (stage.step scene.world).1, (stage.step scene.world).2⟩
      (changes ++ changing i stage scene.world) := by
  have hmoved := moved_step h.file stage
  have hnote : (stage.step scene.world).2.world.store.memory = scene.world.world.store.memory →
      changing i stage scene.world = [] := fun hsame => if_pos hsame
  exact ⟨hmoved.file h.file, h.locks.step hcall hmoved, h.progress.step h.locks hcall hmoved hnote⟩

/-! ### Calls at rest -/

def start (mutations : List Mutation) (world : World SnapshotStore) : Scene Stage Shared :=
  ⟨mutations.map .waiting, ⟨world, false⟩⟩

theorem guarded_start (mutations : List Mutation) {world : World SnapshotStore}
    (h : WritesThrough path world) : Guarded path world (start mutations world) [] where
  file := h
  locks := by
    refine List.countP_eq_zero.2 fun stage hmem => ?_
    obtain ⟨mutation, -, rfl⟩ := List.mem_map.1 hmem
    exact Bool.false_ne_true
  progress := by
    refine .untouched (fun stage hmem => ?_) rfl rfl rfl
    obtain ⟨mutation, -, rfl⟩ := List.mem_map.1 hmem
    rfl

theorem guarded_run {world : World SnapshotStore} (h : WritesThrough path world)
    (mutations : List Mutation) (schedule : List Nat) :
    Guarded path world ((start mutations world).run Stage.step schedule)
      ((start mutations world).notes Stage.step changing schedule) :=
  Scene.run_invariant (P := Guarded path world) (fun _ _ _ _ hscene hcall => hscene.step hcall)
    (guarded_start mutations h) schedule

/-- Where backups have no interval between them, any number of changes in progress together, by any
schedule, leave the file as it should be whenever none of them is in progress: if the records were
changed, or a change was done, the file holds the records as they are, and if none was done the records
and the files are as they were. -/
theorem file_current_at_rest {world : World SnapshotStore} (h : WritesThrough path world)
    (mutations : List Mutation) (schedule : List Nat)
    (hrest : ∀ stage ∈ ((start mutations world).run Stage.step schedule).calls,
      stage.isResting = true) :
    let scene := (start mutations world).run Stage.step schedule
    let after := scene.world.world
    ((start mutations world).notes Stage.step changing schedule ≠ [] ∨
        .finished (.ok ()) ∈ scene.calls →
      Encodes (after.host.disk.read path) after.store.memory) ∧
    (.finished (.ok ()) ∉ scene.calls →
      after.store.memory = world.store.memory ∧ after.host.disk = world.host.disk) := by
  intro scene after
  have hguarded := guarded_run h mutations schedule
  cases hguarded.progress with
  | owed howed =>
    obtain ⟨stage, hmem, hphase⟩ := howed
    obtain hidle | hfailed | rfl := phase_of_isResting (hrest stage hmem)
    · cases hphase.symm.trans hidle
    · cases hphase.symm.trans hfailed
    · cases hphase
  | reading hreading =>
    obtain ⟨stage, hmem, hphase⟩ := hreading
    cases eq_read_of_phase hphase
    cases hrest _ hmem
  | current hnone hwritten hcontent =>
    refine ⟨fun _ => ⟨_, .refl _, carries_encode hcontent⟩, fun hnot => ?_⟩
    obtain ⟨stage, hmem, hphase⟩ := hwritten
    obtain hidle | hfailed | rfl := phase_of_isResting (hrest stage hmem)
    · cases hphase.symm.trans hidle
    · cases hphase.symm.trans hfailed
    · exact absurd hmem hnot
  | untouched hidle hchanges hmemory hdisk =>
    refine ⟨fun hsome => ?_, fun _ => ⟨hmemory, hdisk⟩⟩
    obtain hsome | hsome := hsome
    · exact absurd hchanges hsome
    · cases hidle _ hsome

/-- Of two changes the second is made while the first has read the records and not yet written them, and
waits for the lock until it has. -/
theorem file_current_after_overtaken_look :
    let scene := (start [.insert ⟨"a", .counter 1⟩, .insert ⟨"b", .counter 2⟩] eager).run Stage.step
      [0, 0, 0, 1, 1, 0, 0, 1, 1, 1, 1]
    scene.world.world.store.memory = ⟨[⟨"a", .counter 1⟩, ⟨"b", .counter 2⟩]⟩ ∧
      scene.world.world.host.disk.read "snap.json" = .ok (Bytes.ofString
        ("\x7b\"id\":\"a\",\"type\":\"counter\",\"delta\":1\x7d\n" ++
          "\x7b\"id\":\"b\",\"type\":\"counter\",\"delta\":2\x7d\n")) ∧
      Encodes (scene.world.world.host.disk.read "snap.json") scene.world.world.store.memory := by
  have hfile := file_current_at_rest (writesThrough_of_openAt openAt_eager)
    [.insert ⟨"a", .counter 1⟩, .insert ⟨"b", .counter 2⟩] [0, 0, 0, 1, 1, 0, 0, 1, 1, 1, 1] (by decide)
  exact ⟨rfl, rfl, hfile.1 (.inr List.mem_cons_self)⟩

end SnapshotStore

end Telemetry
