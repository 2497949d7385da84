import Telemetry.Proofs.Store.Mutation
import Telemetry.Proofs.Store.SnapshotFile

/-!
# How far the file lags behind

A store changes its records in memory and writes its file with the backups that follow. Every change
that is done finds the file no older than the interval between backups, and the file always holds the
records of one moment, that of the last backup. Closing takes the last one. After it the file stays,
and a change is still made in memory although it is reported as failed when a backup was due.
-/

namespace Telemetry

open Repository

theorem Counters.count_add (counters : Counters) (event : Event) (n : UInt64) :
    (counters.add event n).count event = counters.count event + n := by
  obtain ⟨described, counts⟩ := counters
  unfold add count
  split
  · rename_i hany
    dsimp only at hany ⊢
    induction counts with
    | nil => cases hany
    | cons p counts ih =>
      by_cases hp : p.1 = event
      · simp [hp]
      · have hrest : (counts.any fun p => decide (p.1 = event)) = true := by simpa [hp] using hany
        simpa [hp] using ih hrest
  · rename_i hany
    have hnone : (counts.find? fun p => decide (p.1 = event)) = none := by
      rw [List.find?_eq_none]
      exact fun p hmem hp => hany (List.any_eq_true.2 ⟨p, hmem, hp⟩)
    simp [List.find?_append, hnone]

namespace SnapshotStore

/-! ### Runs of calls -/

inductive Call where
  | change (mutation : Mutation)
  | backup
  | close

namespace Call

def perform : Call → Action SnapshotStore Unit
  | .change mutation => mutation.perform
  | .backup => backupNow
  | .close => Repository.close

def isClose : Call → Bool
  | .close => true
  | _ => false

end Call

/-- A run is a list of calls, each at its time. -/
abbrev Run := List (Nat × Call)

def after (world : World SnapshotStore) : Run → World SnapshotStore
  | [] => world
  | (now, call) :: run => after (call.perform (world.setTime now)).2 run

/-- The backup that a call takes, with its time and the records then. Every backup is counted. -/
def taken (world : World SnapshotStore) (now : Nat) (call : Call) : List (Nat × List Record) :=
  let next := (call.perform (world.setTime now)).2
  if next.host.counters.count .backup = world.host.counters.count .backup then []
  else [(now, next.store.memory.records)]

def backups (world : World SnapshotStore) : Run → List (Nat × List Record)
  | [] => []
  | (now, call) :: run =>
    taken world now call ++ backups (call.perform (world.setTime now)).2 run

theorem after_append (world : World SnapshotStore) (run later : Run) :
    after world (run ++ later) = after (after world run) later := by
  induction run generalizing world with
  | nil => rfl
  | cons timed run ih => exact ih _

theorem backups_append (world : World SnapshotStore) (run later : Run) :
    backups world (run ++ later) = backups world run ++ backups (after world run) later := by
  induction run generalizing world with
  | nil => rfl
  | cons timed run ih =>
    obtain ⟨now, call⟩ := timed
    rw [List.cons_append, backups, ih, ← List.append_assoc]
    rfl

theorem taken_kept {world next : World SnapshotStore} {now : Nat} {call : Call}
    (hnext : (call.perform (world.setTime now)).2 = next) (hkept : next.host = (world.setTime now).host) :
    taken world now call = [] := by
  subst hnext
  exact if_pos (congrArg (fun host => host.counters.count .backup) hkept)

theorem taken_saved {world next : World SnapshotStore} {now : Nat} {call : Call}
    (hnext : (call.perform (world.setTime now)).2 = next)
    (hsaved : next.host.counters = world.host.counters.add .backup 1) :
    taken world now call = [(now, next.store.memory.records)] := by
  subst hnext
  refine if_neg ?_
  rw [hsaved, Counters.count_add]
  simp

/-- The backups so far were taken to the file of the path, which is still open or not, and the file
holds the records of the last of them. -/
structure Tracks (path : String) (place : Place) (interval : Nat) (isOpen : Bool)
    (history : List (Nat × List Record)) (world : World SnapshotStore) : Prop where
  backup : world.store.backup
    = some ⟨path, place, interval, isOpen, history.getLast?.map Prod.fst⟩
  hasFile : world.host.disk.HasFile path place
  content : ∀ last ∈ history.getLast?,
    world.host.disk.entry? place = some (.file (Snapshot.encode last.2))

variable {path : String} {place : Place} {interval : Nat} {isOpen : Bool}
  {history : List (Nat × List Record)} {world : World SnapshotStore}

theorem tracks_opened {memory : MemoryStore} {host : Host} (h : host.disk.HasFile path place) :
    Tracks path place interval true [] ⟨opened path place interval memory, host⟩ :=
  ⟨rfl, h, fun _ hlast => nomatch hlast⟩

namespace Tracks

theorem kept (h : Tracks path place interval isOpen history world) {next : World SnapshotStore}
    (hbackup : next.store.backup = world.store.backup) (hdisk : next.host.disk = world.host.disk) :
    Tracks path place interval isOpen history next :=
  ⟨hbackup.trans h.backup, hdisk ▸ h.hasFile, hdisk ▸ h.content⟩

theorem saved (h : Tracks path place interval true history world) {backup : Backup}
    (hbackup : world.store.backup = some backup) :
    Tracks path place interval true (history ++ [(world.host.now, world.store.memory.records)])
      (SnapshotStore.saved backup world) := by
  have hput : Entry.file (Snapshot.encode world.store.memory.records) ≠ .directory :=
    fun heq => nomatch heq
  obtain rfl := Option.some.inj (hbackup.symm.trans h.backup)
  refine ⟨?_, h.hasFile.put hput, ?_⟩
  · rw [List.getLast?_concat]
    rfl
  · rw [List.getLast?_concat]
    rintro last ⟨⟩
    exact Disk.entry?_put h.hasFile.place_ne_nil _

theorem closed (h : Tracks path place interval true history world) :
    Tracks path place interval false history (SnapshotStore.closed world) := by
  refine ⟨?_, h.hasFile, h.content⟩
  rw [SnapshotStore.closed, h.backup]
  rfl

theorem setTime (h : Tracks path place interval isOpen history world) (now : Nat) :
    Tracks path place interval isOpen history (world.setTime now) := h.kept rfl rfl

/-- What one call does: it takes at most one backup, and only closing lets go of the file. -/
theorem step (h : Tracks path place interval isOpen history world) (now : Nat) (call : Call) :
    Tracks path place interval (isOpen && !call.isClose) (history ++ taken world now call)
      (call.perform (world.setTime now)).2 := by
  have hthen := h.setTime now
  cases call with
  | change mutation =>
    have hchanged := changed hthen.backup mutation
    generalize houtcome : mutation.perform (world.setTime now) = outcome at hchanged
    have hnext : ((Call.change mutation).perform (world.setTime now)).2 = outcome.2 :=
      congrArg Prod.snd houtcome
    rw [hnext]
    simp only [Call.isClose, Bool.not_false, Bool.and_true]
    cases hchanged with
    | refused hmemory =>
      rw [taken_kept hnext rfl, List.append_nil]
      exact hthen.kept rfl rfl
    | early hmemory hdue =>
      rw [taken_kept hnext rfl, List.append_nil]
      exact hthen.kept rfl rfl
    | late hmemory hdue hopen =>
      rw [taken_kept hnext rfl, List.append_nil]
      exact hthen.kept rfl rfl
    | @saved memory hmemory hdue hopen =>
      rw [taken_saved hnext rfl]
      obtain rfl : isOpen = true := hopen
      have hmade : Tracks path place interval true history
          (withMemory (world.setTime now) memory.store) := hthen.kept rfl rfl
      exact hmade.saved hthen.backup
  | backup =>
    have hnow : Call.backup.perform (world.setTime now) = _ := backupNow_eq hthen.backup
    simp only [Call.isClose, Bool.not_false, Bool.and_true]
    cases isOpen with
    | false =>
      rw [taken_kept (congrArg Prod.snd hnow) rfl, List.append_nil, hnow]
      exact hthen
    | true =>
      rw [taken_saved (congrArg Prod.snd hnow) rfl, hnow]
      exact hthen.saved hthen.backup
  | close =>
    have hclose : Call.close.perform (world.setTime now) = _ := close_eq hthen.backup
    simp only [Call.isClose, Bool.not_true, Bool.and_false]
    cases isOpen with
    | false =>
      rw [taken_kept (congrArg Prod.snd hclose) rfl, List.append_nil, hclose]
      exact hthen
    | true =>
      rw [taken_saved (congrArg Prod.snd hclose) rfl, hclose]
      exact (hthen.saved hthen.backup).closed

/-- A run leaves the file open exactly when nothing in it closes the store. -/
theorem run (h : Tracks path place interval isOpen history world) (run : Run) :
    Tracks path place interval (isOpen && run.all fun timed => !timed.2.isClose)
      (history ++ backups world run) (after world run) := by
  induction run generalizing isOpen history world with
  | nil =>
    rw [backups, List.append_nil, List.all_nil, Bool.and_true]
    exact h
  | cons timed run ih =>
    obtain ⟨now, call⟩ := timed
    have hrest := ih (h.step now call)
    rw [backups, ← List.append_assoc, List.all_cons, ← Bool.and_assoc]
    exact hrest

theorem step_closed (h : Tracks path place interval false history world) (now : Nat) (call : Call) :
    (call.perform (world.setTime now)).2.host.disk = world.host.disk := by
  have hthen := h.setTime now
  cases call with
  | change mutation =>
    have hchanged := changed hthen.backup mutation
    change (mutation.perform (world.setTime now)).2.host.disk = _
    generalize mutation.perform (world.setTime now) = outcome at hchanged
    cases hchanged with
    | refused hmemory => rfl
    | early hmemory hdue => rfl
    | late hmemory hdue hopen => rfl
    | saved hmemory hdue hopen => cases hopen
  | backup =>
    change (backupNow (world.setTime now)).2.host.disk = _
    rw [backupNow_eq hthen.backup]
    rfl
  | close =>
    change (Repository.close (world.setTime now)).2.host.disk = _
    rw [close_eq hthen.backup]
    rfl

theorem run_closed (h : Tracks path place interval false history world) (run : Run) :
    (after world run).host.disk = world.host.disk := by
  induction run generalizing history world with
  | nil => rfl
  | cons timed run ih =>
    obtain ⟨now, call⟩ := timed
    exact (ih (h.step now call)).trans (h.step_closed now call)

theorem read (h : Tracks path place interval isOpen history world) {last : Nat × List Record}
    (hlast : history.getLast? = some last) :
    world.host.disk.read path = .ok (Snapshot.encode last.2) :=
  h.hasFile.read (h.content last hlast)

theorem isDue_iff (h : Tracks path place interval isOpen history world) {backup : Backup}
    (hbackup : world.store.backup = some backup) (now : Nat) :
    backup.isDue now = true ↔ interval = 0 ∨ ∀ last ∈ history.getLast?, interval < now - last.1 := by
  obtain rfl := Option.some.inj (hbackup.symm.trans h.backup)
  rw [Backup.isDue]
  cases history.getLast? with
  | none => simp
  | some last => simp

end Tracks

/-! ### How old a file can be -/

/-- What was read from a file describes the records. -/
def Carries (content : Except FileFault Bytes) (records : List Record) : Prop :=
  ∃ bytes, content = .ok bytes ∧ Snapshot.Describes bytes records

theorem carries_encode {content : Except FileFault Bytes} {records : List Record}
    (h : content = .ok (Snapshot.encode records)) : Carries content records :=
  ⟨_, h, Snapshot.describes_encode records⟩

/-- What can be relied on after a run of calls on a store that was opened with the path. -/
structure Durable (path : String) (interval : Nat) (start : World SnapshotStore) (run : Run) : Prop where
  /-- A change that is done is at most an interval younger than the last backup. -/
  recent (now : Nat) (mutation : Mutation)
    (hdone : (mutation.perform ((after start run).setTime now)).1 = .ok ()) :
    ∃ last ∈ backups start (run ++ [(now, .change mutation)]), now - last.1 ≤ interval
  /-- The file holds the records as they were at the last backup. -/
  whole {last : Nat × List Record} (hlast : (backups start run).getLast? = some last) :
    Carries ((after start run).host.disk.read path) last.2
  /-- The first close is done, and the file holds the records at that time from then on. -/
  final (hopen : ∀ timed ∈ run, timed.2 ≠ .close) (now : Nat) (later : Run) :
    (Repository.close ((after start run).setTime now)).1 = .ok () ∧
      Carries ((after start (run ++ (now, .close) :: later)).host.disk.read path)
        (after start run).store.memory.records
  /-- A change after that is made in memory, and reported as failed if a backup is due. -/
  late (hclosed : ∃ timed ∈ run, timed.2 = .close) (now : Nat) (mutation : Mutation)
    (hdue : interval = 0 ∨ ∀ last ∈ (backups start run).getLast?, interval < now - last.1)
    {memory : World MemoryStore}
    (hdone : mutation.perform ⟨(after start run).store.memory, ((after start run).setTime now).host⟩
      = (.ok (), memory)) :
    (mutation.perform ((after start run).setTime now)).1
        = .error (.file path FileFault.closed.message) ∧
      (mutation.perform ((after start run).setTime now)).2.store.memory = memory.store
  /-- Every further close is done. -/
  again (hclosed : ∃ timed ∈ run, timed.2 = .close) (now : Nat) :
    (Repository.close ((after start run).setTime now)).1 = .ok ()

namespace Call

theorem isClose_iff {call : Call} : call.isClose = true ↔ call = .close := by
  cases call <;> simp [isClose]

end Call

theorem all_open {run : Run} (h : ∀ timed ∈ run, timed.2 ≠ .close) :
    (run.all fun timed => !timed.2.isClose) = true := by
  rw [List.all_eq_true]
  intro timed hmem
  rw [Bool.not_eq_true', ← Bool.not_eq_true, Call.isClose_iff]
  exact h timed hmem

theorem not_all_open {run : Run} (h : ∃ timed ∈ run, timed.2 = .close) :
    (run.all fun timed => !timed.2.isClose) = false := by
  obtain ⟨timed, hmem, hclose⟩ := h
  rw [List.all_eq_false]
  exact ⟨timed, hmem, by rw [Call.isClose_iff.2 hclose]; decide⟩

namespace Tracks

theorem recent (h : Tracks path place interval isOpen history world) {now : Nat}
    {mutation : Mutation} (hdone : (mutation.perform (world.setTime now)).1 = .ok ()) :
    ∃ last ∈ history ++ taken world now (.change mutation), now - last.1 ≤ interval := by
  have hthen := h.setTime now
  have hchanged := changed hthen.backup mutation
  generalize houtcome : mutation.perform (world.setTime now) = outcome at hdone hchanged
  cases hchanged with
  | refused hmemory => cases hdone
  | late hmemory hdue hopen => cases hdone
  | early hmemory hdue =>
    have hnot := mt (hthen.isDue_iff hthen.backup now).2 (Bool.eq_false_iff.1 hdue)
    cases hlast : history.getLast? with
    | none =>
      rw [hlast] at hnot
      exact absurd (.inr fun last hmem => nomatch hmem) hnot
    | some last =>
      refine ⟨last, List.mem_append_left _ (List.mem_of_getLast? hlast), Nat.not_lt.1 fun hage => ?_⟩
      rw [hlast] at hnot
      refine hnot (.inr ?_)
      rintro other ⟨⟩
      exact hage
  | saved hmemory hdue hopen =>
    have hnext : ((Call.change mutation).perform (world.setTime now)).2 = _ :=
      congrArg Prod.snd houtcome
    rw [taken_saved hnext rfl]
    exact ⟨_, List.mem_append_right _ (List.mem_singleton.2 rfl), by omega⟩

theorem close_first (h : Tracks path place interval true history world) (now : Nat) :
    (Repository.close (world.setTime now)).1 = .ok () ∧
      Disk.entry? (Repository.close (world.setTime now)).2.host.disk place
        = some (.file (Snapshot.encode world.store.memory.records)) := by
  have hthen := h.setTime now
  rw [close_eq hthen.backup]
  exact ⟨rfl, Disk.entry?_put h.hasFile.place_ne_nil _⟩

theorem late (h : Tracks path place interval false history world) {now : Nat} {mutation : Mutation}
    (hdue : interval = 0 ∨ ∀ last ∈ history.getLast?, interval < now - last.1)
    {memory : World MemoryStore}
    (hdone : mutation.perform ⟨world.store.memory, (world.setTime now).host⟩ = (.ok (), memory)) :
    mutation.perform (world.setTime now)
      = (.error (.file path FileFault.closed.message), withMemory (world.setTime now) memory.store) := by
  have hthen := h.setTime now
  have hchanged := changed hthen.backup mutation
  generalize mutation.perform (world.setTime now) = outcome at hchanged
  have hisDue := (hthen.isDue_iff hthen.backup now).2 hdue
  cases hchanged with
  | refused hmemory => cases hmemory.symm.trans hdone
  | early hmemory hearly => cases hearly.symm.trans hisDue
  | saved hmemory hdue hopen => cases hopen
  | late hmemory hdue hopen =>
    cases hmemory.symm.trans hdone
    rfl

end Tracks

/-- What can be relied on whatever the interval is and whatever calls are made at whatever times. -/
theorem durable_run {σ : Type} {world found : World σ} {path : String} {interval : Nat}
    {restore : Bool} {store : SnapshotStore}
    (h : openAt (some path) interval restore world = (.ok store, found)) (run : Run) :
    Durable path interval ⟨store, found.host⟩ run := by
  obtain ⟨place, memory, rfl, hfile, -⟩ := openAt_ok h
  have hstart : Tracks path place interval true [] ⟨opened path place interval memory, found.host⟩ :=
    tracks_opened hfile
  generalize (⟨opened path place interval memory, found.host⟩ : World SnapshotStore) = start
    at hstart
  have hrun := hstart.run run
  rw [List.nil_append, Bool.true_and] at hrun
  refine ⟨fun now mutation hdone => ?_, fun hlast => carries_encode (hrun.read hlast),
    fun hopen now later => ?_,
    fun hclosed now mutation hdue memory hdone => ?_, fun hclosed now => ?_⟩
  · rw [backups_append]
    have hrecent := hrun.recent hdone
    rwa [backups, backups, List.append_nil]
  · rw [all_open hopen] at hrun
    obtain ⟨hdone, hcontent⟩ := hrun.close_first now
    have hclosed := hrun.step now .close
    refine ⟨hdone, ?_⟩
    rw [after_append, after, hclosed.run_closed later]
    exact carries_encode (hclosed.hasFile.read hcontent)
  · rw [not_all_open hclosed] at hrun
    rw [hrun.late hdue hdone]
    exact ⟨rfl, rfl⟩
  · rw [not_all_open hclosed] at hrun
    rw [close_eq (hrun.setTime now).backup]
    rfl

/-- A counter is created and kept, the store is closed, and a change that is due for a backup is made in
memory alone. The file has the counter as it was when the store was closed. -/
theorem durable_run_late :
    let start : World SnapshotStore :=
      ⟨opened "snap.json" ["snap.json"] 300 MemoryStore.empty,
        ⟨[(["snap.json"], .file [])], Counters.empty, 0⟩⟩
    let run : Run := [(0, .change (.upsert (Sample.counter "a" 1))), (100, .close)]
    let outcome := (Mutation.upsert (Sample.counter "a" 1)).perform ((after start run).setTime 500)
    (after start run).host.disk.read "snap.json"
        = .ok (Bytes.ofString "\x7b\"id\":\"a\",\"type\":\"counter\",\"delta\":1\x7d\n") ∧
      outcome.1 = .error (.file "snap.json" "snapshot file is closed") ∧
      outcome.2.store.memory = ⟨[⟨"a", .counter 2⟩]⟩ := by
  intro start run outcome
  have hopened : openAt (some "snap.json") 300 false
      (World.mk () ⟨[], Counters.empty, 0⟩) = (.ok start.store, World.mk () start.host) := rfl
  have hclosed : ∃ timed ∈ run, timed.2 = .close :=
    ⟨(100, .close), List.mem_cons_of_mem _ List.mem_cons_self, rfl⟩
  have hlast : (backups start run).getLast? = some (100, [⟨"a", .counter 1⟩]) := rfl
  have hdue : 300 = 0 ∨ ∀ last ∈ (backups start run).getLast?, 300 < 500 - last.1 := by
    rw [hlast]
    right
    rintro last ⟨⟩
    decide
  have hdone : (Mutation.upsert (Sample.counter "a" 1)).perform
      (⟨(after start run).store.memory, ((after start run).setTime 500).host⟩ : World MemoryStore)
      = (.ok (), ⟨⟨[⟨"a", .counter 2⟩]⟩, ((after start run).setTime 500).host⟩) := rfl
  have hdurable : Durable "snap.json" 300 start run := durable_run hopened run
  obtain ⟨bytes, hread, hdescribes⟩ := hdurable.whole hlast
  refine ⟨?_, hdurable.late hclosed 500 _ hdue hdone⟩
  rw [hread, hdescribes.lines]
  rfl

end SnapshotStore

end Telemetry
