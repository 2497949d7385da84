import Telemetry.Proofs.Store.Sql
import Telemetry.Store.Choice

/-!
# The contents of the store of a server

A server keeps one kind of store and reaches it through the store of any kind, which passes every
operation on. What is known of the operations of a kind of store is therefore known of the store of a
server that has this kind.
-/

namespace Telemetry

namespace Store

/-- An outcome on one kind of store as an outcome on the store of a server. -/
def embed {σ α : Type} (kind : σ → Store) (outcome : α × World σ) : α × World Store :=
  (outcome.1, ⟨kind outcome.2.store, outcome.2.host⟩)

/-- The operations on the store of a server are those of a kind. -/
structure PassesOn {σ : Type} [Repository σ] (kind : σ → Store) : Prop where
  get (name : String) (store : σ) (host : Host) :
    Repository.get name ⟨kind store, host⟩ = embed kind (Repository.get name ⟨store, host⟩)
  getAll (store : σ) (host : Host) :
    Repository.getAll ⟨kind store, host⟩ = embed kind (Repository.getAll ⟨store, host⟩)
  insert (record : Record) (store : σ) (host : Host) :
    Repository.insert record ⟨kind store, host⟩ = embed kind (Repository.insert record ⟨store, host⟩)
  update (existing : Record) (value : Value) (store : σ) (host : Host) :
    Repository.update existing value ⟨kind store, host⟩
      = embed kind (Repository.update existing value ⟨store, host⟩)
  batch (samples : List Sample) (store : σ) (host : Host) :
    Repository.batch samples ⟨kind store, host⟩ = embed kind (Repository.batch samples ⟨store, host⟩)

theorem memory_passesOn : PassesOn Store.memory where
  get _ _ _ := rfl
  getAll _ _ := rfl
  insert _ _ _ := rfl
  update _ _ _ _ := rfl
  batch _ _ _ := rfl

theorem snapshot_passesOn : PassesOn Store.snapshot where
  get _ _ _ := rfl
  getAll _ _ := rfl
  insert _ _ _ := rfl
  update _ _ _ _ := rfl
  batch _ _ _ := rfl

theorem sql_passesOn : PassesOn Store.sql where
  get _ _ _ := rfl
  getAll _ _ := rfl
  insert _ _ _ := rfl
  update _ _ _ _ := rfl
  batch _ _ _ := rfl

variable {σ : Type} [Repository σ] {m : Medium} {kind : σ → Store}

theorem PassesOn.write (h : PassesOn kind) (name : String) (value : Value)
    (existing : Option Record) (store : σ) (host : Host) :
    Repository.write name value existing ⟨kind store, host⟩
      = embed kind (Repository.write name value existing ⟨store, host⟩) := by
  cases existing with
  | none => exact h.insert _ _ _
  | some record => exact h.update _ _ _ _

/-- The store of a server does to its records what the kind of store does that it has. -/
def PassesOn.faithful (h : PassesOn kind) (inner : Repository.Faithful σ m) :
    Repository.Faithful Store m where
  Shows store c := ∃ part, store = kind part ∧ inner.Shows part c
  get {w c} hshows name := by
    obtain ⟨_, host⟩ := w
    obtain ⟨part, rfl, hpart⟩ := hshows
    rw [h.get, inner.get (w := ⟨part, host⟩) hpart]
    rfl
  getAll {w c} hshows := by
    obtain ⟨_, host⟩ := w
    obtain ⟨part, rfl, hpart⟩ := hshows
    obtain ⟨records, hgetAll, hlists⟩ := inner.getAll (w := ⟨part, host⟩) hpart
    refine ⟨records, ?_, hlists⟩
    rw [h.getAll, hgetAll]
    rfl
  write {w c} hshows record hfinite := by
    obtain ⟨_, host⟩ := w
    obtain ⟨part, rfl, hpart⟩ := hshows
    obtain ⟨hresult, hafter⟩ := inner.write (w := ⟨part, host⟩) hpart record hfinite
    rw [h.write]
    exact ⟨hresult, _, rfl, hafter⟩
  batch {w c} hshows samples := by
    obtain ⟨_, host⟩ := w
    obtain ⟨part, rfl, hpart⟩ := hshows
    obtain ⟨hresult, hafter⟩ := inner.batch (w := ⟨part, host⟩) hpart samples
    rw [h.batch]
    exact ⟨hresult, _, rfl, hafter⟩

end Store

end Telemetry
