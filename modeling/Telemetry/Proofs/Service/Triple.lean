import Telemetry.Proofs.Service.Update

/-!
# What holds across an update

A triple says what holds of the world after an action that started where something held: one thing
if the action is done, and another if it is refused. An update looks a metric up, writes, counts and
looks up again, and so what holds across these operations of a repository holds across every update.
-/

namespace Telemetry

namespace Action

variable {σ α β : Type} {P Q R E : World σ → Prop}

/-- From where `P` holds, the action ends where `Q` holds if it is done and where `E` holds if it is
refused. -/
def Triple (P : World σ → Prop) (action : Action σ α) (Q E : World σ → Prop) : Prop :=
  ∀ world, P world → match action world with
    | (.ok _, after) => Q after
    | (.error _, after) => E after

theorem Triple.pure {a : α} (h : ∀ world, P world → Q world) :
    Triple P (Pure.pure a : Action σ α) Q E := h

theorem Triple.fail {failure : Failure} (h : ∀ world, P world → E world) :
    Triple P (Action.fail failure : Action σ α) Q E := h

theorem Triple.ofResult (result : Except Failure α) (hdone : ∀ world, P world → Q world)
    (hrefused : ∀ world, P world → E world) : Triple P (Action.ofResult result) Q E := by
  intro world hworld
  cases result with
  | ok a => exact hdone world hworld
  | error failure => exact hrefused world hworld

theorem Triple.bind {action : Action σ α} {next : α → Action σ β} (h : Triple P action Q E)
    (hnext : ∀ a, Triple Q (next a) R E) : Triple P (action >>= next) R E := by
  intro world hworld
  have haction := h world hworld
  rw [bind_apply]
  generalize action world = outcome at haction
  obtain ⟨failure | a, after⟩ := outcome
  · exact haction
  · exact hnext a after haction

/-- What holds across an action whether it is done or refused holds after it. -/
theorem Triple.after {action : Action σ α} (h : Triple P action Q Q) {world : World σ}
    (hworld : P world) : Q (action world).2 := by
  have haction := h world hworld
  generalize action world = outcome at haction
  obtain ⟨failure | a, after⟩ := outcome <;> exact haction

end Action

namespace Service.Update

open Telemetry.Action

variable {σ : Type} [Repository σ] {P Q E : World σ → Prop}

theorem triple_conclude (hcount : ∀ event n, Triple Q (count event n) Q E)
    (hshow : ∀ name, Triple Q (Repository.get name) Q E) (hlast : ∀ world, Q world → E world)
    (name : String) (kind : Kind) (shows : Bool) : Triple Q (conclude name kind shows) Q E := by
  refine (hcount (.updated kind) 1).bind fun _ => ?_
  cases shows with
  | false => exact Triple.pure fun _ h => h
  | true =>
    refine (hshow name).bind fun stored => ?_
    cases stored with
    | none => exact Triple.fail hlast
    | some record => exact Triple.pure fun _ h => h

omit [Repository σ] in
theorem triple_countUpdates (hcount : ∀ event n, Triple Q (count event n) Q E)
    (samples : List Sample) : Triple Q (countUpdates samples) Q E := by
  induction samples with
  | nil => exact Triple.pure fun _ h => h
  | cons sample samples ih => exact (hcount (.updated sample.kind) 1).bind fun _ => ih

/-- An update that is refused before it reaches the repository leaves the world as it was; from there
on it looks up, writes a record that is well-formed or a batch, counts, and looks up again. -/
theorem triple (hrefused : ∀ world, P world → E world)
    (hget : ∀ name, Triple P (Repository.get name) P E)
    (hwrite : ∀ (record : Record) (existing : Option Record), record.WellFormed →
      Triple P (Repository.write record.name record.value existing) Q E)
    (hbatch : ∀ samples, Triple P (Repository.batch samples) Q E)
    (hcount : ∀ event n, Triple Q (count event n) Q E)
    (hshow : ∀ name, Triple Q (Repository.get name) Q E) (hlast : ∀ world, Q world → E world)
    (update : Update) : Triple P update.perform Q E := by
  have hrecord (result : Except Failure Record) (shows : Bool)
      (hresult : ∀ record, result = .ok record → record.WellFormed) :
      Triple P (performRecord result shows) Q E := by
    cases result with
    | error failure => exact hrefused
    | ok record =>
      have hwell := hresult record rfl
      refine (hget record.name).bind fun existing => (hwrite record existing hwell).bind fun _ => ?_
      exact triple_conclude hcount hshow hlast record.name record.kind shows
  cases update with
  | one sample =>
    rw [perform_one]
    exact hrecord _ true fun record h => Record.wellFormed_of_sample (recordOfSample_ok h)
  | text kind name raw =>
    rw [perform_text]
    refine hrecord _ false fun record h => ?_
    obtain ⟨hname, hne, hfinite⟩ := recordOfText_ok h
    exact ⟨hname ▸ hne, hfinite⟩
  | batch samples =>
    refine Triple.bind ?_ fun _ => Triple.pure fun _ h => h
    refine Triple.bind (Triple.ofResult _ (fun _ h => h) hrefused) fun _ => ?_
    exact (hbatch samples).bind fun _ => triple_countUpdates hcount samples

end Service.Update

end Telemetry
