import Mathlib.Data.List.Nodup
import Telemetry.Proofs.Service.Update

/-!
# Updates of different metrics

Applying a sample looks at one name and writes to one name. So samples with different names get the
same answers in every order and leave the same contents, and whether one of them is taken does not
depend on the others. A batch is taken exactly when its samples are taken one after another, and then
does the same, although it is checked as a whole first and a store may take it back as a whole.
-/

namespace Telemetry

theorem Contents.enterBatch_ok_iff {m : Medium} {c after : Contents}
    {entries : List (Except Failure Record)} :
    c.enterBatch m entries = (.ok (), after) ↔ c.enterAll m entries = (.ok (), after) := by
  rw [enterBatch]
  rcases c.enterAll m entries with ⟨failure | ⟨⟨⟩⟩, last⟩
  · simp
  · rfl

namespace Service.Update

/-- The contents after a sample was applied, whether it was taken or not. -/
def applied (m : Medium) (c : Contents) (sample : Sample) : Contents := ((one sample).effect m c).2

/-- The sample is taken. -/
def Takes (m : Medium) (c : Contents) (sample : Sample) : Prop :=
  ((one sample).effect m c).1 = .ok ()

/-- The samples are taken one after another. -/
def TakesAll (m : Medium) : Contents → List Sample → Prop
  | _, [] => True
  | c, sample :: samples => Takes m c sample ∧ TakesAll m (applied m c sample) samples

variable {m : Medium} {c c' : Contents} {sample : Sample} {samples : List Sample}

/-! ### One name -/

theorem applied_of_ne {name : String} (hne : name ≠ sample.id) : applied m c sample name = c name := by
  rw [applied, effect_one]
  cases hrecord : recordOfSample sample with
  | error failure => rfl
  | ok record =>
    obtain ⟨hname, -⟩ := Sample.toRecord_ok (recordOfSample_ok hrecord)
    exact Contents.write_of_ne (hname ▸ hne)

theorem effect_congr (h : c sample.id = c' sample.id) :
    ((one sample).effect m c).1 = ((one sample).effect m c').1 ∧
      applied m c sample sample.id = applied m c' sample sample.id := by
  rw [applied, applied, effect_one, effect_one]
  cases hrecord : recordOfSample sample with
  | error failure => exact ⟨rfl, h⟩
  | ok record =>
    obtain ⟨hname, -⟩ := Sample.toRecord_ok (recordOfSample_ok hrecord)
    rw [← hname] at h ⊢
    exact Contents.write_congr h

theorem takes_congr (h : c sample.id = c' sample.id) : Takes m c sample ↔ Takes m c' sample := by
  rw [Takes, (effect_congr h).1]
  rfl

theorem applied_comm {left right : Sample} (hne : left.id ≠ right.id) :
    applied m (applied m c left) right = applied m (applied m c right) left := by
  funext name
  by_cases hleft : name = left.id
  · subst hleft
    have hsame : c left.id = applied m c right left.id := (applied_of_ne hne).symm
    rw [applied_of_ne hne, (effect_congr hsame).2]
  · have hafter : applied m (applied m c right) left name = applied m c right name :=
      applied_of_ne hleft
    rw [hafter]
    by_cases hright : name = right.id
    · subst hright
      have hsame : applied m c left right.id = c right.id := applied_of_ne hne.symm
      exact (effect_congr hsame).2
    · rw [applied_of_ne hright, applied_of_ne hright, applied_of_ne hleft]

/-! ### Many names -/

theorem foldl_applied_perm {left right : List Sample} (hperm : left.Perm right)
    (hdistinct : (left.map Sample.id).Nodup) (c : Contents) :
    left.foldl (applied m) c = right.foldl (applied m) c := by
  refine hperm.foldl_eq' (fun x hx y hy c => ?_) c
  by_cases hsame : x.id = y.id
  · rw [List.inj_on_of_nodup_map hdistinct hx hy hsame]
  · exact (applied_comm hsame)

theorem takesAll_iff (hdistinct : (samples.map Sample.id).Nodup) :
    TakesAll m c samples ↔ ∀ sample ∈ samples, Takes m c sample := by
  induction samples generalizing c with
  | nil => simp [TakesAll]
  | cons sample samples ih =>
    rw [List.map_cons, List.nodup_cons] at hdistinct
    have hothers : ∀ other ∈ samples, other.id ≠ sample.id := fun other hmem hsame =>
      hdistinct.1 (hsame ▸ List.mem_map_of_mem hmem)
    rw [TakesAll, ih hdistinct.2, List.forall_mem_cons]
    refine and_congr_right fun _ => forall₂_congr fun other hmem => ?_
    exact takes_congr (applied_of_ne (hothers other hmem))

/-! ### Batches -/

theorem checkBatch_cons (sample : Sample) (samples : List Sample) :
    checkBatch (sample :: samples) = match recordOfSample sample with
      | .error failure => .error failure
      | .ok _ => checkBatch samples := by
  rw [checkBatch, recordOfSample, Sample.validate]
  cases requireName sample.id with
  | error failure => rfl
  | ok done => cases sample.toRecord <;> rfl

theorem effect_batch_cons (sample : Sample) (samples : List Sample) {after : Contents} :
    (batch (sample :: samples)).effect m c = (.ok (), after) ↔
      Takes m c sample ∧ (batch samples).effect m (applied m c sample) = (.ok (), after) := by
  rw [effect_batch, checkBatch_cons, Takes, applied, effect_one]
  cases hrecord : recordOfSample sample with
  | error failure => simp
  | ok record =>
    rw [effect_batch]
    cases hcheck : checkBatch samples with
    | error failure => simp
    | ok done =>
      simp only [Contents.enterBatch_ok_iff, List.map_cons, recordOfSample_ok hrecord,
        Contents.enterAll, Contents.enter]
      rcases c.write m record with ⟨failure | ⟨⟨⟩⟩, written⟩ <;> simp

/-- A batch is taken when its samples are, one after another, and leaves what they leave. -/
theorem effect_batch_iff {after : Contents} : (batch samples).effect m c = (.ok (), after) ↔
    TakesAll m c samples ∧ after = samples.foldl (applied m) c := by
  induction samples generalizing c with
  | nil =>
    rw [effect_batch]
    simp [checkBatch, Contents.enterBatch, Contents.enterAll, TakesAll, eq_comm]
  | cons sample samples ih => rw [effect_batch_cons, ih, TakesAll, List.foldl_cons, and_assoc]

end Service.Update

end Telemetry
