import Telemetry.Proofs.Metric.Text
import Telemetry.Proofs.Service.Forms

/-!
# Values copied as text

The text that a look-up shows of a metric can be sent as an update under the same name and kind. Where
the name is not in use yet, this makes the same metric: the value is read back from its text, and a
metric that is created has the value as it was read.
-/

namespace Telemetry.Service

/-- An update of a name that an empty store in memory does not have creates the metric. -/
theorem applyText_empty {kind : Kind} {name raw : String} {value : Value} (hname : name ≠ "")
    (hread : Value.read kind raw = .ok value) (host : Host) :
    applyText kind.name name raw ⟨MemoryStore.empty, host⟩
      = (.ok (), (⟨⟨[⟨name, value⟩]⟩, host⟩ : World MemoryStore).count (.updated kind) 1) := by
  have hkind : (⟨name, value⟩ : Record).kind = kind := (Value.read_ok hread).1
  rw [Update.applyText_eq, recordOfText_of_read hname hread, Action.ofResult_ok_bind, hkind]
  rfl

variable {σ : Type} [Repository σ]

/-- A stored metric with a finite value is made again, with every bit of its value, from the text that
is shown of it, and the same text is shown of the new one. -/
theorem copied_as_text {world : World σ} {record : Record} (hname : record.name ≠ "")
    (hfinite : record.value.isFinite = true)
    (hstored : Repository.get record.name world = (.ok (some record), world)) (host : Host) :
    ∃ text, lookupText record.kind.name record.name world = (.ok text, world) ∧
      ∃ copied : World MemoryStore,
        applyText record.kind.name record.name text ⟨MemoryStore.empty, host⟩ = (.ok (), copied) ∧
        copied.store.records = [record] ∧
        Repository.get record.name copied = (.ok (some record), copied) ∧
        lookupText record.kind.name record.name copied = (.ok text, copied) := by
  have hshown {τ : Type} [Repository τ] {world : World τ}
      (h : Repository.get record.name world = (.ok (some record), world)) :
      lookupText record.kind.name record.name world = (.ok record.value.text, world) := by
    rw [lookupText_of_get hname h, if_pos rfl]
  have hread : Value.read record.kind record.value.text = .ok record.value := Value.read_text hfinite
  let copied : World MemoryStore :=
    (⟨⟨[record]⟩, host⟩ : World MemoryStore).count (.updated record.kind) 1
  have hget : Repository.get record.name copied = (.ok (some record), copied) := by
    have hself : (⟨[record]⟩ : MemoryStore).get? record.name = some record :=
      List.find?_cons_of_pos (beq_self_eq_true record.name)
    exact congrArg (fun found => (Except.ok found, copied)) hself
  exact ⟨record.value.text, hshown hstored, copied, applyText_empty hname hread host, rfl, hget,
    hshown hget⟩

/-- The negative number nearest to zero. -/
theorem copied_as_text_least :
    let record : Record := ⟨"a", .gauge (.finite true ⟨1, 0, by decide⟩)⟩
    let host : Host := ⟨[], Counters.empty, 0⟩
    let world : World MemoryStore := ⟨⟨[record]⟩, host⟩
    record.name ≠ "" ∧ record.value.isFinite = true ∧
      Repository.get record.name world = (.ok (some record), world) ∧
      ∃ text, lookupText record.kind.name record.name world = (.ok text, world) ∧
        ∃ copied : World MemoryStore,
          applyText record.kind.name record.name text ⟨MemoryStore.empty, host⟩ = (.ok (), copied) ∧
          copied.store.records = [record] ∧
          Repository.get record.name copied = (.ok (some record), copied) ∧
          lookupText record.kind.name record.name copied = (.ok text, copied) := by
  intro record host world
  have hname : record.name ≠ "" := by decide
  have hstored : Repository.get record.name world = (.ok (some record), world) := rfl
  exact ⟨hname, rfl, hstored, copied_as_text hname rfl hstored host⟩

end Telemetry.Service
