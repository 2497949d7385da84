import Telemetry.Proofs.Store.Durability

/-!
# A file without an interval

Where backups have no interval between them, every change that is done is in the file when it returns.
Only a batch that is refused on the way can leave the file behind, since the entries before the refused
one stay in memory and no backup follows them.
-/

namespace Telemetry

open Repository

namespace SnapshotStore

/-- What was read describes the records, in any order. -/
def Encodes (content : Except FileFault Bytes) (memory : MemoryStore) : Prop :=
  ∃ records : List Record, records.Perm memory.records ∧ Carries content records

def changes (run : List (Nat × Mutation)) : Run := run.map fun (now, mutation) => (now, .change mutation)

/-- A change that is done is in the file, and one that is refused leaves the file and the records as
they were, except that a batch leaves the entries before the refused one in the records. -/
structure Follows (path : String) (before : World SnapshotStore) (mutation : Mutation)
    (outcome : Except Failure Unit × World SnapshotStore) : Prop where
  done (h : outcome.1 = .ok ()) :
    Carries (outcome.2.host.disk.read path) outcome.2.store.memory.records
  refused {failure : Failure} (h : outcome.1 = .error failure) :
    outcome.2.host.disk = before.host.disk ∧
      (outcome.2.store.memory = before.store.memory ∨
        ∃ first entry rest, mutation = .batch (first ++ entry :: rest) ∧
          before.store.memory.applySamples first = (.ok (), outcome.2.store.memory) ∧
          outcome.2.store.memory.applySample entry = .error failure)

/-- After every change of the run that changed the records, done or refused, the file holds them. -/
def NeverLags (path : String) (start : World SnapshotStore) (run : List (Nat × Mutation)) : Prop :=
  ∀ earlier now mutation later, run = earlier ++ (now, mutation) :: later →
    let before := after start (changes earlier)
    let next := (mutation.perform (before.setTime now)).2
    next.store.memory ≠ before.store.memory → Encodes (next.host.disk.read path) next.store.memory

variable {path : String} {place : Place} {history : List (Nat × List Record)}
  {world : World SnapshotStore}

theorem Tracks.follows (h : Tracks path place 0 true history world) (now : Nat)
    (mutation : Mutation) :
    Follows path world mutation (mutation.perform (world.setTime now)) := by
  have hthen := h.setTime now
  have hchanged := changed hthen.backup mutation
  generalize mutation.perform (world.setTime now) = outcome at hchanged
  cases hchanged with
  | refused hmemory =>
    refine ⟨fun hdone => (nomatch hdone), fun hfailure => ?_⟩
    cases hfailure
    exact ⟨rfl, MemoryStore.perform_error hmemory⟩
  | early hmemory hdue => cases hdue
  | late hmemory hdue hopen => cases hopen
  | @saved memory hmemory hdue hopen =>
    refine ⟨fun _ => ?_, fun hfailure => (nomatch hfailure)⟩
    have hmade : Tracks path place 0 true history
        (withMemory (world.setTime now) memory.store) := hthen.kept rfl rfl
    exact carries_encode ((hmade.saved hthen.backup).read List.getLast?_concat)

/-- Where backups have no interval between them, every change that is done is in the file at once. A
run never leaves the file behind exactly when every batch of it that is refused after some of its
entries leaves records that the file holds already. -/
theorem file_follows_changes {σ : Type} {world found : World σ} {path : String} {restore : Bool}
    {store : SnapshotStore} (h : openAt (some path) 0 restore world = (.ok store, found)) :
    (∀ earlier now mutation,
      let before := after ⟨store, found.host⟩ (changes earlier)
      Follows path before mutation (mutation.perform (before.setTime now))) ∧
    ∀ run, NeverLags path ⟨store, found.host⟩ run ↔
      ∀ earlier now samples later failure, run = earlier ++ (now, .batch samples) :: later →
        let before := after ⟨store, found.host⟩ (changes earlier)
        let outcome := (Mutation.batch samples).perform (before.setTime now)
        outcome.1 = .error failure → outcome.2.store.memory ≠ before.store.memory →
          Encodes (before.host.disk.read path) outcome.2.store.memory := by
  obtain ⟨place, memory, rfl, hfile, -⟩ := openAt_ok h
  have hstart : Tracks path place 0 true [] ⟨opened path place 0 memory, found.host⟩ :=
    tracks_opened hfile
  generalize (⟨opened path place 0 memory, found.host⟩ : World SnapshotStore) = start at hstart
  have hfollows (earlier : List (Nat × Mutation)) (now : Nat) (mutation : Mutation) :
      Follows path (after start (changes earlier)) mutation
        (mutation.perform ((after start (changes earlier)).setTime now)) := by
    have hopen : ∀ timed ∈ changes earlier, timed.2 ≠ .close := by
      intro timed hmem
      obtain ⟨change, -, rfl⟩ := List.mem_map.1 hmem
      exact fun heq => nomatch heq
    have hrun := hstart.run (changes earlier)
    rw [all_open hopen] at hrun
    exact hrun.follows now mutation
  refine ⟨hfollows, fun run => ⟨fun hnever => ?_, fun hbatches => ?_⟩⟩
  · intro earlier now samples later failure hrun before outcome hrefused hchanged
    have hlags := hnever earlier now (.batch samples) later hrun hchanged
    rwa [((hfollows earlier now (.batch samples)).refused hrefused).1] at hlags
  · intro earlier now mutation later hrun before next hchanged
    have hnext := hfollows earlier now mutation
    cases hresult : (mutation.perform (before.setTime now)).1 with
    | ok done => exact ⟨next.store.memory.records, .refl _, hnext.done hresult⟩
    | error failure =>
      obtain ⟨hdisk, hsame | ⟨first, entry, rest, rfl, -, -⟩⟩ := hnext.refused hresult
      · exact absurd hsame hchanged
      · have hbatch := hbatches earlier now _ later failure hrun hresult hchanged
        rwa [← hdisk] at hbatch

/-- A store that was just opened on a new file and writes it after every change. -/
def eager : World SnapshotStore :=
  ⟨opened "snap.json" ["snap.json"] 0 MemoryStore.empty,
    ⟨[(["snap.json"], .file [])], Counters.empty, 0⟩⟩

theorem openAt_eager : openAt (some "snap.json") 0 false (World.mk () ⟨[], Counters.empty, 0⟩)
    = (.ok eager.store, World.mk () eager.host) := rfl

/-- A counter is created and a gauge of its name refused, without a batch. -/
theorem file_follows_single_changes : NeverLags "snap.json" eager
    [(0, .upsert (Sample.counter "a" 1)), (1, .upsert (Sample.gauge "a" (.finite false .zero)))] := by
  refine ((file_follows_changes openAt_eager).2 _).2 ?_
  intro earlier now samples later failure hrun
  have hmem : (now, Mutation.batch samples) ∈ earlier ++ (now, .batch samples) :: later :=
    List.mem_append_right _ List.mem_cons_self
  rw [← hrun] at hmem
  simp at hmem

/-- The counter that a batch creates is kept when the gauge after it is refused, and the file is not
written. -/
theorem file_lags_after_refused_batch : ¬NeverLags "snap.json" eager
    [(0, .batch [Sample.counter "a" 1, Sample.gauge "a" (.finite false .zero)])] := by
  intro hnever
  obtain ⟨records, hperm, bytes, hread, hdescribes⟩ := hnever [] 0 _ [] rfl (by decide)
  have hrecords : records = [⟨"a", .counter 1⟩] := List.perm_singleton.1 hperm
  have hempty : (.ok [] : Except FileFault Bytes) = .ok bytes := hread
  have hlines := hdescribes.lines
  rw [hrecords, ← Except.ok.inj hempty] at hlines
  cases hlines

end SnapshotStore

end Telemetry
