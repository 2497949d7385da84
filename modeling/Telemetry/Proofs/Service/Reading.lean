import Telemetry.Proofs.Service.Query
import Telemetry.Store.Choice

/-!
# Reading

An action only reads if it leaves the store and the files as they are, whether it succeeds or fails,
and in whatever state it finds them. The three operations of a repository that look something up only
read, on every kind of store, and so do the queries that are made of them. A database that fails counts
its failure, which is why nothing is said of the counters.
-/

namespace Telemetry

namespace Action

variable {σ τ α β : Type}

/-- The action leaves the store and the files as they are. -/
def Reads (action : Action σ α) : Prop :=
  ∀ world, (action world).2.store = world.store ∧ (action world).2.host.disk = world.host.disk

theorem Reads.pure (a : α) : Reads (Pure.pure a : Action σ α) := fun _ => ⟨rfl, rfl⟩

theorem Reads.fail (failure : Failure) : Reads (Action.fail failure : Action σ α) :=
  fun _ => ⟨rfl, rfl⟩

theorem Reads.ofResult (result : Except Failure α) : Reads (Action.ofResult result : Action σ α) :=
  fun _ => ⟨rfl, rfl⟩

theorem Reads.count (event : Event) (n : UInt64) : Reads (Action.count event n : Action σ Unit) :=
  fun _ => ⟨rfl, rfl⟩

theorem Reads.bind {action : Action σ α} {next : α → Action σ β} (h : Reads action)
    (hnext : ∀ a, Reads (next a)) : Reads (action >>= next) := by
  intro world
  obtain ⟨hstore, hdisk⟩ := h world
  rw [bind_apply]
  generalize action world = outcome at hstore hdisk
  obtain ⟨failure | a, after⟩ := outcome
  · exact ⟨hstore, hdisk⟩
  · obtain ⟨hstore', hdisk'⟩ := hnext a after
    exact ⟨hstore'.trans hstore, hdisk'.trans hdisk⟩

/-- What an action on a part reads, it reads of the whole. -/
theorem Reads.onPart {action : Action τ α} (h : Reads action) {set : τ → σ} {part : τ}
    {world : World σ} (hset : set part = world.store) :
    (action.onPart set part world).2.store = world.store ∧
      (action.onPart set part world).2.host.disk = world.host.disk := by
  obtain ⟨hstore, hdisk⟩ := h ⟨part, world.host⟩
  exact ⟨(congrArg set hstore).trans hset, hdisk⟩

end Action

open Telemetry.Action (Reads)

namespace Repository

/-- The operations of a repository that look something up only read. -/
structure Looks (σ : Type) [Repository σ] : Prop where
  get (name : String) : Reads (Repository.get name : Action σ (Option Record))
  getAll : Reads (Repository.getAll : Action σ (List Record))
  ping : Reads (Repository.ping : Action σ Unit)

end Repository

/-! ### The kinds of stores -/

theorem MemoryStore.looks : Repository.Looks MemoryStore where
  get _ _ := ⟨rfl, rfl⟩
  getAll _ := ⟨rfl, rfl⟩
  ping _ := ⟨rfl, rfl⟩

theorem SnapshotStore.looks : Repository.Looks SnapshotStore where
  get name _ := (MemoryStore.looks.get name).onPart rfl
  getAll _ := MemoryStore.looks.getAll.onPart rfl
  ping _ := ⟨rfl, rfl⟩

namespace SqlStore

theorem reads_failed {α : Type} (operation : DatabaseOperation) (fault : DatabaseFault) :
    Reads (failed operation fault : Action SqlStore α) :=
  (Reads.count _ _).bind fun _ => .fail _

theorem reads_requireOpen (operation : DatabaseOperation) : Reads (requireOpen operation) := by
  intro world
  unfold requireOpen
  split
  · exact ⟨rfl, rfl⟩
  · exact reads_failed operation .closed world

theorem reads_query {α : Type} (operation : DatabaseOperation)
    (select : Database → Except DatabaseFault α) : Reads (query operation select) := by
  intro world
  unfold query
  split
  · exact ⟨rfl, rfl⟩
  · exact reads_failed operation _ world

theorem looks : Repository.Looks SqlStore where
  get name := by
    refine (reads_requireOpen .get).bind fun _ => (reads_query .get _).bind fun row => ?_
    cases row with
    | none => exact .pure none
    | some row => exact (Reads.ofResult row.toRecord).bind fun record => .pure (some record)
  getAll := (reads_requireOpen .getAll).bind fun _ => (reads_query .getAll _).bind fun _ =>
    .ofResult _
  ping := reads_requireOpen .ping

end SqlStore

theorem Store.looks : Repository.Looks Store where
  get name world := by
    obtain ⟨store, host⟩ := world
    cases store with
    | memory store => exact (MemoryStore.looks.get name).onPart rfl
    | snapshot store => exact (SnapshotStore.looks.get name).onPart rfl
    | sql store => exact (SqlStore.looks.get name).onPart rfl
  getAll world := by
    obtain ⟨store, host⟩ := world
    cases store with
    | memory store => exact MemoryStore.looks.getAll.onPart rfl
    | snapshot store => exact SnapshotStore.looks.getAll.onPart rfl
    | sql store => exact SqlStore.looks.getAll.onPart rfl
  ping world := by
    obtain ⟨store, host⟩ := world
    cases store with
    | memory store => exact MemoryStore.looks.ping.onPart rfl
    | snapshot store => exact SnapshotStore.looks.ping.onPart rfl
    | sql store => exact SqlStore.looks.ping.onPart rfl

/-! ### Queries -/

namespace Service

variable {σ : Type} [Repository σ] (looks : Repository.Looks σ)

include looks

theorem reads_find (kind : Kind) (name : String) : Reads (find kind name : Action σ Record) := by
  refine (Reads.ofResult _).bind fun _ => (looks.get name).bind fun stored => ?_
  cases stored with
  | none => exact .fail _
  | some record =>
    dsimp only
    split
    · exact .pure record
    · exact .fail _

theorem Query.reads_perform (query : Query) : Reads (query.perform : Action σ Answer) := by
  cases query with
  | one query =>
    refine Reads.bind ?_ fun _ => .pure _
    exact (reads_find looks query.kind query.id).bind fun _ => .pure _
  | text kind name =>
    refine Reads.bind ?_ fun _ => .pure _
    refine (Reads.ofResult _).bind fun kind => ?_
    exact (reads_find looks kind name).bind fun _ => .pure _
  | page =>
    refine Reads.bind ?_ fun _ => .pure _
    exact looks.getAll.bind fun _ => .pure _

end Service

end Telemetry
