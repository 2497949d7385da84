import Telemetry.Proofs.Store.Choice

/-!
# A database that can only be read

A database that was opened to be read refuses every write. What a write looks up before it is refused
depends on the store alone, and so does the reason of the refusal. A batch of nothing is done, since
its transaction has no statement to refuse.
-/

namespace Telemetry

namespace Action

variable {σ τ α β : Type} {action : Action σ α} {next : α → Action σ β} {store : σ}

/-- The action gives this on the store and leaves it, whatever surrounds it. -/
def Gives (action : Action σ α) (store : σ) (result : Except Failure α) : Prop :=
  ∀ host, (action ⟨store, host⟩).1 = result ∧ (action ⟨store, host⟩).2.store = store

def Steady (action : Action σ α) (store : σ) : Prop := ∃ result, action.Gives store result

def Refuses (action : Action σ α) (store : σ) : Prop :=
  ∃ failure, action.Gives store (.error failure)

theorem gives_ofResult (result : Except Failure α) (store : σ) :
    (ofResult result).Gives store result := fun _ => ⟨rfl, rfl⟩

theorem refuses_fail (failure : Failure) (store : σ) : (fail failure : Action σ α).Refuses store :=
  ⟨failure, fun _ => ⟨rfl, rfl⟩⟩

theorem Refuses.steady (h : action.Refuses store) : action.Steady store := by
  obtain ⟨failure, hfailure⟩ := h
  exact ⟨.error failure, hfailure⟩

theorem Gives.bind {a : α} (h : action.Gives store (.ok a)) {result : Except Failure β}
    (hnext : (next a).Gives store result) : (action >>= next).Gives store result := by
  intro host
  obtain ⟨hresult, hstore⟩ := h host
  rw [bind_apply]
  generalize action ⟨store, host⟩ = outcome at hresult hstore
  obtain ⟨_, after, surroundings⟩ := outcome
  cases hresult
  cases hstore
  exact hnext surroundings

/-- What comes after a refusal is not done. -/
theorem Refuses.first (h : action.Refuses store) : (action >>= next).Refuses store := by
  obtain ⟨failure, hfailure⟩ := h
  refine ⟨failure, fun host => ?_⟩
  obtain ⟨hresult, hstore⟩ := hfailure host
  rw [bind_apply]
  generalize action ⟨store, host⟩ = outcome at hresult hstore
  obtain ⟨_, after⟩ := outcome
  cases hresult
  exact ⟨rfl, hstore⟩

theorem Steady.refuses (h : action.Steady store) (hnext : ∀ a, (next a).Refuses store) :
    (action >>= next).Refuses store := by
  obtain ⟨failure | a, hresult⟩ := h
  · exact Refuses.first ⟨failure, hresult⟩
  · obtain ⟨failure, hfailure⟩ := hnext a
    exact ⟨failure, hresult.bind hfailure⟩

theorem Steady.bind (h : action.Steady store) (hnext : ∀ a, (next a).Steady store) :
    (action >>= next).Steady store := by
  obtain ⟨failure | a, hresult⟩ := h
  · exact (Refuses.first ⟨failure, hresult⟩).steady
  · obtain ⟨result, hgives⟩ := hnext a
    exact ⟨result, hresult.bind hgives⟩

/-- What an action on a kind of store gives, the store of a server gives that passes it on. -/
theorem Gives.embed {whole : Action Store α} {kind : σ → Store} {result : Except Failure α}
    (hpasses : ∀ host, whole ⟨kind store, host⟩ = Store.embed kind (action ⟨store, host⟩))
    (h : action.Gives store result) : whole.Gives (kind store) result := by
  intro host
  rw [hpasses]
  exact ⟨(h host).1, congrArg kind (h host).2⟩

end Action

namespace Repository

variable {σ : Type} [Repository σ] {store : σ}

/-- The store refuses every write and every batch of something, and stays as it is. -/
structure OnlyReads (store : σ) : Prop where
  get (name : String) : (Repository.get name : Action σ (Option Record)).Steady store
  write (name : String) (value : Value) (existing : Option Record) :
    (Repository.write name value existing : Action σ Unit).Refuses store
  batch (sample : Sample) (samples : List Sample) :
    (Repository.batch (sample :: samples) : Action σ Unit).Refuses store
  batch_nil : (Repository.batch [] : Action σ Unit).Gives store (.ok ())

theorem OnlyReads.upsert (h : OnlyReads store) (sample : Sample) :
    (Repository.upsert sample : Action σ Unit).Refuses store :=
  Action.Steady.refuses ⟨_, Action.gives_ofResult sample.toRecord store⟩ fun record =>
    (h.get record.name).refuses fun existing => h.write record.name record.value existing

end Repository

namespace SqlStore

open Telemetry.Action

variable {store : SqlStore}

theorem refuses_failed {α : Type} (operation : DatabaseOperation) (fault : DatabaseFault)
    (store : SqlStore) : (failed operation fault : Action SqlStore α).Refuses store :=
  ⟨fault.failure, fun _ => ⟨rfl, rfl⟩⟩

theorem steady_query {α : Type} (operation : DatabaseOperation)
    (select : Database → Except DatabaseFault α) (store : SqlStore) :
    (query operation select).Steady store := by
  cases hselect : select store.database with
  | ok a =>
    refine ⟨.ok a, fun host => ?_⟩
    have hworld : select (World.mk store host).store.database = .ok a := hselect
    rw [query_apply hworld]
    exact ⟨rfl, rfl⟩
  | error fault =>
    refine ⟨.error fault.failure, fun host => ?_⟩
    simp only [query, hselect]
    exact ⟨rfl, rfl⟩

theorem gives_requireOpen (hopen : store.isOpen = true) (operation : DatabaseOperation) :
    (requireOpen operation).Gives store (.ok ()) := by
  intro host
  have hworld : (World.mk store host).store.isOpen = true := hopen
  rw [requireOpen_apply hworld]
  exact ⟨rfl, rfl⟩

/-- Only a table that is missing is noticed before the database cannot be written. -/
theorem refuses_execute (h : store.readOnly = true) (operation : DatabaseOperation)
    (statement : Database → Except DatabaseFault (Bool × Database)) :
    (execute operation statement).Refuses store := by
  by_cases hmissing : ∃ table, statement store.database = .error (.noTable table)
  · obtain ⟨table, htable⟩ := hmissing
    obtain ⟨failure, hfailure⟩ := refuses_failed operation (.noTable table) store
    refine ⟨failure, fun host => ?_⟩
    simp only [execute, htable]
    exact hfailure host
  · obtain ⟨failure, hfailure⟩ := refuses_failed operation .readOnly store
    refine ⟨failure, fun host => ?_⟩
    unfold execute
    split
    · rename_i table htable
      exact absurd ⟨table, htable⟩ hmissing
    · rw [if_pos h]
      exact hfailure host

theorem refuses_applyEntry (h : store.readOnly = true) (sample : Sample) :
    (applyEntry sample).Refuses store := by
  refine Steady.refuses ⟨_, gives_ofResult _ _⟩ fun record => ?_
  refine (steady_query .getKind (Database.selectKind record.name) store).refuses fun stored => ?_
  cases stored with
  | none => exact (refuses_execute h _ _).first
  | some stored =>
    dsimp only
    split
    · exact refuses_fail _ _
    · exact (refuses_execute h _ _).first

theorem Gives.atomically {α : Type} {action : Action SqlStore α} {result : Except Failure α}
    (h : action.Gives store result) : (atomically action).Gives store result := by
  intro host
  obtain ⟨hresult, hstore⟩ := h host
  rw [SqlStore.atomically]
  generalize action ⟨store, host⟩ = outcome at hresult hstore
  obtain ⟨_ | _, after⟩ := outcome
  · exact ⟨hresult, rfl⟩
  · exact ⟨hresult, hstore⟩

theorem onlyReads (hopen : store.isOpen = true) (h : store.readOnly = true) :
    Repository.OnlyReads store where
  get name := by
    refine Steady.bind ⟨_, gives_requireOpen hopen .get⟩ fun _ => ?_
    refine (steady_query .get (Database.selectOne name) store).bind fun row => ?_
    cases row with
    | none => exact ⟨_, gives_ofResult (.ok none) store⟩
    | some row =>
      exact Steady.bind ⟨_, gives_ofResult row.toRecord store⟩ fun record =>
        ⟨_, gives_ofResult (.ok (some record)) store⟩
  write name value existing := by
    cases existing with
    | none =>
      exact Steady.refuses ⟨_, gives_requireOpen hopen .acquire⟩ fun _ =>
        (refuses_execute h _ _).first
    | some existing =>
      change Refuses (if existing.kind ≠ value.kind then
        Action.fail (.kindMismatch existing.name existing.kind value.kind)
        else do requireOpen .acquire; updateRow existing.name value) store
      split
      · exact refuses_fail _ _
      · exact Steady.refuses ⟨_, gives_requireOpen hopen .acquire⟩ fun _ =>
          (refuses_execute h _ _).first
  batch sample samples := by
    obtain ⟨failure, hfailure⟩ : (applyEntries (sample :: samples)).Refuses store :=
      (refuses_applyEntry h sample).first
    exact ⟨failure, (gives_requireOpen hopen .begin).bind (Gives.atomically hfailure)⟩
  batch_nil :=
    (gives_requireOpen hopen .begin).bind (Gives.atomically (gives_ofResult (.ok ()) store))

end SqlStore

theorem Store.PassesOn.onlyReads {σ : Type} [Repository σ] {kind : σ → Store}
    (h : PassesOn kind) {store : σ} (hreads : Repository.OnlyReads store) :
    Repository.OnlyReads (kind store) where
  get name := by
    obtain ⟨result, hresult⟩ := hreads.get name
    exact ⟨result, hresult.embed (h.get name store)⟩
  write name value existing := by
    obtain ⟨failure, hfailure⟩ := hreads.write name value existing
    exact ⟨failure, hfailure.embed (h.write name value existing store)⟩
  batch sample samples := by
    obtain ⟨failure, hfailure⟩ := hreads.batch sample samples
    exact ⟨failure, hfailure.embed (h.batch (sample :: samples) store)⟩
  batch_nil := hreads.batch_nil.embed (h.batch [] store)

end Telemetry
