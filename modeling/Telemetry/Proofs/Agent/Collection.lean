import Mathlib.Data.List.Induction
import Telemetry.Agent.Pipeline
import Telemetry.Agent.Sources
import Telemetry.Proofs.Agent.Emission
import Telemetry.Proofs.Agent.Merging
import Telemetry.Proofs.Json.Assembly
import Telemetry.Proofs.Service.Accounting

/-!
# What an agent collects

The events of an agent are increases of one counter by one, once in each cycle, and finite gauges of
other names. Such events are never refused: a gauge always takes a new number, and the counter stays
within its range as long as there are fewer than `2 ^ 63` cycles. So in whatever order the queues are
merged and wherever the collectors are cancelled, the store holds the number of the cycles that were
told and the last number of each gauge.
-/

namespace Telemetry.Agent

open Telemetry.Number

/-! ### Shares of processor time -/

/-- The number lies between zero and a bound. -/
inductive Within (most : Nat) : Binary64 → Prop where
  | finite (negative : Bool) (m : Magnitude64) (hle : m.units ≤ most * Magnitude64.unitsPerOne)
    (hzero : negative = true → m.units = 0) : Within most (.finite negative m)

theorem Within.isFinite {most : Nat} {x : Binary64} (h : Within most x) : x.isFinite = true := by
  cases h
  rfl

theorem within_of_units_eq_zero {most : Nat} {negative : Bool} {m : Magnitude64} (h : m.units = 0) :
    Within most (.finite negative m) :=
  .finite negative m (h.le.trans (Nat.zero_le _)) fun _ => h

theorem within_zero (most : Nat) : Within most .zero := within_of_units_eq_zero (Nat.zero_mul _)

/-- A natural number with 53 binary digits is exact, so it lies within itself. -/
theorem within_ofNat {n : Nat} (hlt : n < 2 ^ 53) : Within n (.ofNat n) := by
  obtain ⟨m, hm, hunits⟩ := Magnitude64.ofNat?_exact hlt
  rw [Binary64.ofNat, Binary64.ofInt, Int.natAbs_natCast, hm]
  exact .finite _ m hunits.le fun hnegative => absurd hnegative (by simp)

theorem within_hundred : Within 100 hundred := within_ofNat (by decide)

theorem within_of_not_lt {most : Nat} {m : Magnitude64}
    (h : ¬ most * Magnitude64.unitsPerOne < m.units) : Within most (.finite false m) :=
  .finite false m (Nat.le_of_not_lt h) nofun

theorem within_ite {most : Nat} {p : Prop} [Decidable p] {x y : Binary64} (hx : p → Within most x)
    (hy : ¬ p → Within most y) : Within most (if p then x else y) := by
  split
  · exact hx ‹_›
  · exact hy ‹_›

theorem within_percent (x : Binary64) : Within 100 (percent x) := by
  cases x with
  | nan => exact within_zero 100
  | infinite negative => exact within_zero 100
  | finite negative m =>
    cases negative with
    | true => exact within_ite within_of_units_eq_zero fun _ => within_zero 100
    | false =>
      rw [percent]
      exact within_ite (fun _ => within_hundred) within_of_not_lt

def shareNames : List String := ["ProcessCPUUsage", "CPUutilization1"]

/-! ### Events -/

/-- A finite gauge under a name of its own. -/
inductive Measured : Sample → Prop where
  | gauge (id : String) (x : Binary64) (hnamed : id ≠ "") (hother : id ≠ pollCount)
    (hfinite : x.isFinite = true) (hshare : id ∈ shareNames → Within 100 x) : Measured (.gauge id x)

/-- What an agent collects: measured gauges, and increases of the counter of the cycles. -/
inductive Collected : Sample → Prop where
  | poll : Collected (.counter pollCount 1)
  | measured {event : Sample} (h : Measured event) : Collected event

/-- Whatever the source reads is measured. -/
def Source.Measures (source : Source) : Prop :=
  ∀ tick samples, source.read tick = .ok samples → ∀ event ∈ samples, Measured event

theorem isFinite_ofNat (n : UInt64) : (Binary64.ofNat n.toNat).isFinite = true := by
  have hmost : n.toNat ≤ Json.Numeral.significandMax := Nat.le_of_lt_succ n.toNat_lt
  obtain ⟨m, hm⟩ := Option.isSome_iff_exists.1 (Magnitude64.ofNat?_isSome hmost)
  rw [Binary64.ofNat, Binary64.ofInt, Int.natAbs_natCast, hm]
  rfl

/-- A number of bytes or seconds is measured under any name but those that mean something else. -/
theorem measured_amount {id : String} (n : UInt64) (hnamed : id ≠ "") (hother : id ≠ pollCount)
    (hshare : id ∉ shareNames) : Measured (amount id n) :=
  .gauge id _ hnamed hother (isFinite_ofNat n) fun h => absurd h hshare

theorem measured_percent {id : String} (share : Binary64) (hnamed : id ≠ "")
    (hother : id ≠ pollCount) : Measured (.gauge id (percent share)) :=
  .gauge id _ hnamed hother (within_percent share).isFinite fun _ => within_percent share

theorem measured_samples (reading : ProcessReading) : ∀ event ∈ reading.samples, Measured event := by
  intro event hevent
  simp only [ProcessReading.samples, List.mem_cons, List.not_mem_nil, or_false] at hevent
  obtain rfl | rfl | rfl | rfl | rfl | rfl := hevent
  · exact measured_amount _ (by decide) (by decide) (by decide)
  · exact measured_amount _ (by decide) (by decide) (by decide)
  · exact measured_percent _ (by decide) (by decide)
  · exact measured_amount _ (by decide) (by decide) (by decide)
  · exact measured_amount _ (by decide) (by decide) (by decide)
  · exact measured_amount _ (by decide) (by decide) (by decide)

theorem processSource_measures (readings : Nat → Except Missing ProcessReading)
    (random : Nat → Binary64) : (processSource readings random).Measures := by
  intro tick samples hread
  rw [processSource] at hread
  dsimp only at hread
  split at hread
  · cases hread
    exact measured_samples _
  · cases hread

theorem memorySource_measures (sizes : Nat → UInt64 × UInt64) : (memorySource sizes).Measures := by
  intro tick samples hread event hevent
  change memorySamples (sizes tick).1 (sizes tick).2 = .ok samples at hread
  rw [memorySamples] at hread
  split at hread
  · cases hread
  · cases hread
    simp only [List.mem_cons, List.not_mem_nil, or_false] at hevent
    obtain rfl | rfl := hevent
    · exact measured_amount _ (by decide) (by decide) (by decide)
    · exact measured_amount _ (by decide) (by decide) (by decide)

theorem processorSource_measures (shares : Nat → Option Binary64) :
    (processorSource shares).Measures := by
  intro tick samples hread event hevent
  rw [processorSource] at hread
  dsimp only at hread
  split at hread
  · cases hread
    rw [processorSamples, List.mem_singleton] at hevent
    rw [hevent]
    exact measured_percent _ (by decide) (by decide)
  · cases hread

/-! ### Cycles -/

/-- The number of cycles that events tell of. -/
def polls (events : List Sample) : Nat := (named pollCount events).length

theorem polls_append (events more : List Sample) :
    polls (events ++ more) = polls events + polls more := by
  rw [polls, named_append, List.length_append, polls, polls]

theorem polls_measured {events : List Sample} (h : ∀ event ∈ events, Measured event) :
    polls events = 0 := by
  have hnone : named pollCount events = [] := by
    rw [named, List.filter_eq_nil_iff]
    intro event hevent hname
    obtain ⟨id, x, -, hother⟩ := h event hevent
    exact hother (beq_iff_eq.1 hname)
  rw [polls, hnone, List.length_nil]

variable {source : Source} {ticks : Nat} {emitted pending : List Sample}

theorem Source.Measures.polls_events (h : source.Measures) (tick : Nat) :
    polls (source.events tick) = polls (source.cycleEvents tick) := by
  have hread : polls ((source.read tick).toOption.getD []) = 0 := by
    cases hresult : source.read tick with
    | error failure => rfl
    | ok samples => exact polls_measured (h tick samples hresult)
  rw [Source.events, polls_append, hread, Nat.zero_add]

theorem Source.Measures.mem_events (h : source.Measures) {tick : Nat} {event : Sample}
    (hevent : event ∈ source.events tick) : Measured event ∨ event ∈ source.cycleEvents tick := by
  obtain hread | hcycle := List.mem_append.1 hevent
  · cases hresult : source.read tick with
    | error failure =>
      rw [hresult] at hread
      cases hread
    | ok samples =>
      rw [hresult] at hread
      exact .inl (h tick samples hresult event hread)
  · exact .inr hcycle

section

variable {random : Nat → Binary64}

theorem Source.Measures.measured (h : source.Measures) (hcycle : source.cycle = none) {tick : Nat}
    {event : Sample} (hevent : event ∈ source.events tick) : Measured event := by
  obtain hmeasured | hmarks := h.mem_events hevent
  · exact hmeasured
  · rw [Source.cycleEvents, hcycle] at hmarks
    cases hmarks

theorem Source.cycleEvents_eq (hcycle : source.cycle = some random) (tick : Nat) :
    source.cycleEvents tick = [.counter pollCount 1, .gauge randomValue (random tick)] := by
  rw [cycleEvents, hcycle]

/-- A source that marks the cycle has measured gauges, and an increase of the counter at each tick. -/
theorem Source.Measures.collected (h : source.Measures) (hcycle : source.cycle = some random)
    (hrandom : ∀ tick, (random tick).isFinite = true) {tick : Nat} {event : Sample}
    (hevent : event ∈ source.events tick) : Collected event := by
  obtain hmeasured | hmarked := h.mem_events hevent
  · exact .measured hmeasured
  · rw [source.cycleEvents_eq hcycle, List.mem_cons, List.mem_singleton] at hmarked
    obtain rfl | rfl := hmarked
    · exact .poll
    · exact .measured (.gauge _ _ (by decide) (by decide) (hrandom tick)
        fun hshare => absurd hshare (by decide))

theorem Source.Measures.polls_cycle (h : source.Measures) (hcycle : source.cycle = some random)
    (tick : Nat) : polls (source.events tick) = 1 := by
  rw [h.polls_events, source.cycleEvents_eq hcycle]
  rfl

theorem Source.Measures.polls_eventsUpTo (h : source.Measures) (hcycle : source.cycle = some random)
    (ticks : Nat) : polls (source.eventsUpTo ticks) = ticks := by
  induction ticks with
  | zero => rfl
  | succ ticks ih => rw [Source.eventsUpTo_succ, polls_append, ih, h.polls_cycle hcycle]

theorem Source.Measures.emits (h : source.Measures) (hcycle : source.cycle = none)
    (hemits : Emits source ticks emitted pending) : ∀ event ∈ emitted, Measured event := by
  intro event hevent
  obtain ⟨tick, htick⟩ := hemits.mem hevent
  exact h.measured hcycle htick

/-- Every tick but one that is not emitted yet has told of its cycle. -/
theorem Source.Measures.emits_cycle (h : source.Measures) (hcycle : source.cycle = some random)
    (hrandom : ∀ tick, (random tick).isFinite = true) (hemits : Emits source ticks emitted pending) :
    (∀ event ∈ emitted, Collected event) ∧ polls emitted + polls pending = ticks := by
  constructor
  · intro event hevent
    obtain ⟨tick, htick⟩ := hemits.mem hevent
    exact h.collected hcycle hrandom htick
  · rw [← polls_append, hemits.eventsUpTo, h.polls_eventsUpTo hcycle]

end

/-! ### What events come to -/

def lastNumber (name : String) (events : List Sample) : Option Binary64 :=
  (named name events).getLast?.bind Sample.value

/-- The contents are the number of cycles and the last number of each gauge. -/
structure Tallies (c : Contents) (events : List Sample) : Prop where
  cycles : ∃ total : Int64, total.toInt = polls events ∧
    c pollCount = if polls events = 0 then none else some (.counter total)
  gauges : ∀ name, name ≠ pollCount → c name = (lastNumber name events).map .gauge

variable {c : Contents} {events : List Sample}

theorem tallies_empty : Tallies Contents.empty [] := ⟨⟨0, rfl, rfl⟩, fun _ _ => rfl⟩

theorem polls_gauge (events : List Sample) {id : String} (x : Binary64) (hother : id ≠ pollCount) :
    polls (events ++ [.gauge id x]) = polls events := by
  have hnone : polls [.gauge id x] = 0 := congrArg List.length (named_cons_of_ne hother [])
  rw [polls_append, hnone, Nat.add_zero]

theorem lastNumber_of_ne {name : String} {event : Sample} (hne : event.id ≠ name)
    (events : List Sample) : lastNumber name (events ++ [event]) = lastNumber name events := by
  have hnone : named name [event] = [] := named_cons_of_ne hne []
  rw [lastNumber, named_append, hnone, List.append_nil, lastNumber]

theorem lastNumber_gauge (id : String) (x : Binary64) (events : List Sample) :
    lastNumber id (events ++ [.gauge id x]) = some x := by
  have hone : named id [.gauge id x] = [Sample.gauge id x] := named_cons_self (.gauge id x) []
  rw [lastNumber, named_append, hone, List.getLast?_concat]
  rfl

theorem Tallies.poll (h : Tallies c events) (hfits : polls events + 1 < 2 ^ 63) :
    ∃ after, c.settle .memory (.counter pollCount 1) = (true, after) ∧
      Tallies after (events ++ [.counter pollCount 1]) := by
  obtain ⟨⟨total, htotal, hstored⟩, hgauges⟩ := h
  have hrecord : (Sample.counter pollCount 1).toRecord = .ok ⟨pollCount, .counter 1⟩ := rfl
  have hpolls : polls (events ++ [.counter pollCount 1]) = polls events + 1 := polls_append _ _
  have hnext : ∃ sum : Int64, sum.toInt = (polls events + 1 : Nat) ∧
      Medium.memory.next ⟨pollCount, .counter 1⟩ (c pollCount) = .ok (.counter sum) := by
    by_cases hzero : polls events = 0
    · rw [hstored, if_pos hzero, hzero]
      exact ⟨1, rfl, rfl⟩
    · have hone : (1 : Int64).toInt = 1 := rfl
      have hsum : fitsInt64 (total.toInt + (1 : Int64).toInt) = true := by
        rw [htotal, hone, fitsInt64_iff]
        omega
      obtain ⟨hlow, hhigh⟩ := fitsInt64_iff.1 hsum
      refine ⟨Int64.ofInt (total.toInt + (1 : Int64).toInt), ?_, ?_⟩
      · rw [Int64.toInt_ofInt_of_le hlow hhigh, htotal, hone]
        rfl
      · rw [hstored, if_neg hzero]
        simp only [Medium.next, Record.apply, addExact?, hsum, if_true]
        rfl
  obtain ⟨sum, hsum, hnext⟩ := hnext
  refine ⟨_, Contents.settle_of_next hrecord hnext, ⟨sum, ?_, ?_⟩, ?_⟩
  · rw [hpolls, hsum]
  · rw [Contents.set_self, hpolls, if_neg (Nat.succ_ne_zero _)]
  · intro name hname
    rw [Contents.set_of_ne _ _ hname, lastNumber_of_ne (Ne.symm hname), hgauges name hname]

theorem Tallies.gauge (h : Tallies c events) {id : String} {x : Binary64} (hnamed : id ≠ "")
    (hother : id ≠ pollCount) (hfinite : x.isFinite = true) :
    ∃ after, c.settle .memory (.gauge id x) = (true, after) ∧
      Tallies after (events ++ [.gauge id x]) := by
  obtain ⟨⟨total, htotal, hstored⟩, hgauges⟩ := h
  have hrecord : (Sample.ofRecord ⟨id, .gauge x⟩).toRecord = .ok ⟨id, .gauge x⟩ :=
    Service.Update.toRecord_ofRecord hnamed hfinite
  have hnext : Medium.memory.next ⟨id, .gauge x⟩ (c id) = .ok (.gauge x) := by
    rw [hgauges id hother]
    cases lastNumber id events <;> rfl
  refine ⟨_, Contents.settle_of_next hrecord hnext, ⟨total, ?_, ?_⟩, ?_⟩
  · rw [polls_gauge events x hother, htotal]
  · rw [polls_gauge events x hother, Contents.set_of_ne _ _ (Ne.symm hother), hstored]
  · intro name hname
    by_cases hsame : name = id
    · rw [hsame, Contents.set_self, lastNumber_gauge]
      rfl
    · rw [Contents.set_of_ne _ _ hsame, lastNumber_of_ne (Ne.symm hsame), hgauges name hname]

/-- No event is refused. -/
theorem settleAll_collected (hcollected : ∀ event ∈ events, Collected event)
    (hfits : polls events < 2 ^ 63) :
    (Contents.empty.settleAll .memory events).1 = events.map (·, true) ∧
      Tallies (Contents.empty.settleAll .memory events).2 events := by
  induction events using List.reverseRecOn with
  | nil => exact ⟨rfl, tallies_empty⟩
  | append_singleton events event ih =>
    have hpolls := polls_append events [event]
    obtain ⟨hall, htallies⟩ :=
      ih (fun other hother => hcollected other (List.mem_append_left _ hother)) (by omega)
    have hstep : ∃ after, (Contents.empty.settleAll .memory events).2.settle .memory event
        = (true, after) ∧ Tallies after (events ++ [event]) := by
      cases hcollected event List.mem_concat_self with
      | poll =>
        have hone : polls [.counter pollCount 1] = 1 := rfl
        exact htallies.poll (by omega)
      | measured h =>
        obtain ⟨id, x, hnamed, hother, hfinite⟩ := h
        exact htallies.gauge hnamed hother hfinite
    obtain ⟨after, hsettle, hafter⟩ := hstep
    rw [Contents.settleAll_append, hall, Contents.settleAll, hsettle, Contents.settleAll,
      List.map_append]
    exact ⟨rfl, hafter⟩

/-! ### The store of an agent -/

/-- The store has a metric of its kind for each event, the counter of the cycles tells how many there
were, and the shares are shares. -/
structure Reflects (store : MemoryStore) (events : List Sample) : Prop where
  kinds : ∀ event ∈ events, ∃ record, store.get? event.id = some record ∧ record.kind = event.kind
  cycles : ∃ total : Int64, total.toInt = polls events ∧
    store.get? pollCount = if polls events = 0 then none else some ⟨pollCount, .counter total⟩
  shares : ∀ name ∈ shareNames, ∀ record, store.get? name = some record →
    ∃ x, record.value = .gauge x ∧ Within 100 x

theorem Collected.toRecord {event : Sample} (h : Collected event) :
    ∃ record, event.toRecord = .ok record := by
  cases h with
  | poll => exact ⟨⟨pollCount, .counter 1⟩, rfl⟩
  | measured h =>
    obtain ⟨id, x, hnamed, -, hfinite⟩ := h
    have hrecord : (Sample.ofRecord ⟨id, .gauge x⟩).toRecord = .ok ⟨id, .gauge x⟩ :=
      Service.Update.toRecord_ofRecord hnamed hfinite
    exact ⟨_, hrecord⟩

theorem Collected.kind {event : Sample} (h : Collected event) :
    event.kind = if event.id = pollCount then .counter else .gauge := by
  cases h with
  | poll => rfl
  | measured h =>
    obtain ⟨id, x, -, hother⟩ := h
    exact (if_neg hother).symm

/-- The last number of a gauge is one of those that were collected. -/
theorem lastNumber_collected (hcollected : ∀ event ∈ events, Collected event) {name : String}
    (hother : name ≠ pollCount) (hsome : named name events ≠ []) :
    ∃ x, lastNumber name events = some x ∧ (name ∈ shareNames → Within 100 x) := by
  obtain ⟨last, hlast⟩ := Option.ne_none_iff_exists'.1 (mt List.getLast?_eq_none_iff.1 hsome)
  obtain ⟨hmem, hname⟩ := List.mem_filter.1 (List.mem_of_getLast? hlast)
  rw [beq_iff_eq] at hname
  rw [lastNumber, hlast, Option.bind_some]
  cases hcollected last hmem with
  | poll => exact absurd hname.symm hother
  | measured h =>
    obtain ⟨id, x, -, -, -, hshare⟩ := h
    exact ⟨x, rfl, hname ▸ hshare⟩

theorem Tallies.reflects {store : MemoryStore} (hshows : store.Shows c) (h : Tallies c events)
    (hcollected : ∀ event ∈ events, Collected event) : Reflects store events := by
  obtain ⟨⟨total, htotal, hstored⟩, hgauges⟩ := h
  refine ⟨?_, ⟨total, htotal, ?_⟩, ?_⟩
  · intro event hevent
    have hmem : event ∈ named event.id events := List.mem_filter.2 ⟨hevent, beq_self_eq_true _⟩
    rw [hshows.get?, Contents.record?, (hcollected event hevent).kind]
    by_cases hpoll : event.id = pollCount
    · rw [hpoll] at hmem ⊢
      have hpositive : polls events ≠ 0 := (List.length_pos_of_mem hmem).ne'
      rw [hstored, if_neg hpositive, if_pos rfl]
      exact ⟨_, rfl, rfl⟩
    · obtain ⟨x, hx, -⟩ := lastNumber_collected hcollected hpoll (List.ne_nil_of_mem hmem)
      rw [hgauges _ hpoll, hx, if_neg hpoll]
      exact ⟨_, rfl, rfl⟩
  · rw [hshows.get?, Contents.record?, hstored]
    split <;> rfl
  · intro name hname record hrecord
    have hother : name ≠ pollCount := fun hsame => absurd (hsame ▸ hname) (by decide)
    rw [hshows.get?, Contents.record?, hgauges name hother] at hrecord
    obtain ⟨value, hvalue, rfl⟩ := Option.map_eq_some_iff.1 hrecord
    obtain ⟨y, hy, rfl⟩ := Option.map_eq_some_iff.1 hvalue
    have hsome : named name events ≠ [] := by
      intro hnone
      rw [lastNumber, hnone] at hy
      cases hy
    obtain ⟨x, hx, hshare⟩ := lastNumber_collected hcollected hother hsome
    obtain rfl : y = x := Option.some.inj (hy.symm.trans hx)
    exact ⟨y, rfl, hshare hname⟩

theorem aggregate_collected (hcollected : ∀ event ∈ events, Collected event)
    (hfits : polls events < 2 ^ 63) (host : Host) :
    ∃ after, aggregate events ⟨MemoryStore.empty, host⟩ = (.ok events.length, after) ∧
      Reflects after.store events := by
  have hempty : MemoryStore.empty.Shows Contents.empty := ⟨List.nodup_nil, rfl⟩
  obtain ⟨haccepted, htallies⟩ := settleAll_collected hcollected hfits
  obtain ⟨after, haggregate, hafter⟩ :=
    @aggregate_apply _ _ _ MemoryStore.faithful ⟨MemoryStore.empty, host⟩ _ hempty events
  refine ⟨after, ?_, htallies.reflects hafter hcollected⟩
  rw [haggregate, haccepted, List.countP_map]
  congr 2
  exact List.countP_eq_length.2 fun _ _ => rfl

section

variable {readings : Nat → Except Missing ProcessReading} {random : Nat → Binary64}
  {sizes : Nat → UInt64 × UInt64} {shares : Nat → Option Binary64}

/-- What an agent has stored at a time reflects all its sources were read for until then. -/
theorem storedBefore_reflects (hrandom : ∀ tick, (random tick).isFinite = true) (poll time : Nat)
    (hpolls : pollsBefore poll time < 2 ^ 63) (host : Host) :
    let sources := [processSource readings random, memorySource sizes, processorSource shares]
    Reflects (storedBefore sources poll host time) (eventsOf sources (pollsBefore poll time)) := by
  intro sources
  have hmeasures := processSource_measures readings random
  have hround (tick : Nat) : sources.flatMap (·.events tick) = (processSource readings random).events
      tick ++ ((memorySource sizes).events tick ++ (processorSource shares).events tick) := by
    rw [List.flatMap_cons, List.flatMap_cons, List.flatMap_singleton]
  have hmemory (tick : Nat) : ∀ event ∈ (memorySource sizes).events tick, Measured event :=
    fun event hevent => (memorySource_measures sizes).measured rfl hevent
  have hloads (tick : Nat) : ∀ event ∈ (processorSource shares).events tick, Measured event :=
    fun event hevent => (processorSource_measures shares).measured rfl hevent
  have hcount (ticks : Nat) : polls (eventsOf sources ticks) = ticks := by
    induction ticks with
    | zero => rfl
    | succ ticks ih =>
      rw [eventsOf, List.range_succ, List.flatMap_append, List.flatMap_singleton, polls_append,
        ← eventsOf, ih, hround, polls_append, polls_append, hmeasures.polls_cycle rfl,
        polls_measured (hmemory ticks), polls_measured (hloads ticks)]
  have hall : ∀ event ∈ eventsOf sources (pollsBefore poll time), Collected event := by
    intro event hevent
    obtain ⟨tick, -, htick⟩ := List.mem_flatMap.1 hevent
    rw [hround, List.mem_append, List.mem_append] at htick
    obtain hevent | hevent | hevent := htick
    · exact hmeasures.collected rfl hrandom hevent
    · exact .measured (hmemory tick event hevent)
    · exact .measured (hloads tick event hevent)
  obtain ⟨after, haggregate, hreflects⟩ := aggregate_collected hall (hcount _ ▸ hpolls) host
  rw [storedBefore, haggregate]
  exact hreflects

/-- However the readings of the process, of the memory and of the processors turn out, wherever their
collectors are cancelled and however their queues are merged, what was emitted and what was still to be
emitted are the events of the ticks, and every event that was emitted is in order and accepted. At every
moment the store reflects what was applied so far; each name keeps its kind, and every tick of the
process but one that is not emitted yet has been counted. -/
theorem nothing_is_dropped (hrandom : ∀ tick, (random tick).isFinite = true)
    {ticks memoryTicks processorTicks : Nat}
    {process memory processors pending memoryPending processorsPending events : List Sample}
    (hprocess : Emits (processSource readings random) ticks process pending)
    (hticks : ticks < 2 ^ 63) (hmemory : Emits (memorySource sizes) memoryTicks memory memoryPending)
    (hprocessors : Emits (processorSource shares) processorTicks processors processorsPending)
    (hmerged : Merged [process, memory, processors] events) (host : Host) :
    (∀ event ∈ events, event.validate = .ok ()) ∧
    (∀ left ∈ events, ∀ right ∈ events, left.id = right.id → left.kind = right.kind) ∧
    polls events + polls pending = ticks ∧
    (process ++ pending = (processSource readings random).eventsUpTo ticks ∧
      memory ++ memoryPending = (memorySource sizes).eventsUpTo memoryTicks ∧
      processors ++ processorsPending = (processorSource shares).eventsUpTo processorTicks) ∧
    ∀ first last, events = first ++ last →
      ∃ after, aggregate first ⟨MemoryStore.empty, host⟩ = (.ok first.length, after) ∧
        Reflects after.store first := by
  obtain ⟨hcollected, hpolls⟩ :=
    (processSource_measures readings random).emits_cycle rfl hrandom hprocess
  have hgauges := (memorySource_measures sizes).emits rfl hmemory
  have hloads := (processorSource_measures shares).emits rfl hprocessors
  have hqueues : [process, memory, processors].flatten = process ++ (memory ++ processors) := by
    rw [List.flatten_cons, List.flatten_cons, List.flatten_singleton]
  have hall : ∀ event ∈ events, Collected event := by
    intro event hevent
    rw [hmerged.perm.mem_iff, hqueues, List.mem_append, List.mem_append] at hevent
    obtain hevent | hevent | hevent := hevent
    · exact hcollected event hevent
    · exact .measured (hgauges event hevent)
    · exact .measured (hloads event hevent)
  have hcount : polls events = polls process := by
    have hsame : polls events = polls (process ++ (memory ++ processors)) :=
      hqueues ▸ (hmerged.perm.filter _).length_eq
    rw [hsame, polls_append, polls_append, polls_measured hgauges, polls_measured hloads]
    rfl
  refine ⟨?_, ?_, hcount ▸ hpolls,
    ⟨hprocess.eventsUpTo, hmemory.eventsUpTo, hprocessors.eventsUpTo⟩, ?_⟩
  · intro event hevent
    obtain ⟨record, hrecord⟩ := (hall event hevent).toRecord
    rw [Sample.validate, hrecord]
    rfl
  · intro left hleft right hright hsame
    rw [(hall left hleft).kind, (hall right hright).kind, hsame]
  · rintro first last rfl
    have hfirst : ∀ event ∈ first, Collected event :=
      fun event hevent => hall event (List.mem_append_left _ hevent)
    have hfits : polls first < 2 ^ 63 := by
      rw [polls_append] at hcount
      omega
    exact aggregate_collected hfirst hfits host

end

/-- The process is read once; at the second tick it cannot be read, and its collector is cancelled within
that tick. The shares are not numbers. -/
theorem nothing_is_dropped_unread :
    let readings : Nat → Except Missing ProcessReading := fun tick =>
      if tick = 0 then .ok ⟨4096, 8192, .nan, 1, 2, 3⟩ else .error .statistics
    let process : List Sample := [.gauge "ResidentMemory" (.ofNat 4096),
      .gauge "VirtualMemory" (.ofNat 8192), .gauge "ProcessCPUUsage" .zero,
      .gauge "DiskReadBytes" (.ofNat 1), .gauge "DiskWrittenBytes" (.ofNat 2),
      .gauge "RunTimeSeconds" (.ofNat 3), .counter pollCount 1, .gauge randomValue .zero]
    let memory : List Sample := [.gauge "TotalMemory" (.ofNat 8), .gauge "FreeMemory" (.ofNat 3)]
    let events := [.gauge "CPUutilization1" .zero] ++ (process ++ (memory ++ [.counter pollCount 1]))
    process ++ [.counter pollCount 1] ++ [.gauge randomValue .zero]
        = (processSource readings fun _ => .zero).eventsUpTo 2 ∧
      memory ++ [] = (memorySource fun _ => (8, 3)).eventsUpTo 1 ∧
      ∃ after, aggregate events ⟨MemoryStore.empty, ⟨[], Counters.empty, 0⟩⟩ = (.ok 12, after) ∧
        Reflects after.store events := by
  intro readings process memory events
  have hread : Emits (processSource readings fun _ => .zero) 1 process [] :=
    @Emits.sendAll _ _ [] [] process (.tick .start)
  have hprocess : Emits (processSource readings fun _ => .zero) 2
      (process ++ [.counter pollCount 1]) [.gauge randomValue .zero] := .send (.tick hread)
  have hmemory : Emits (memorySource fun _ => (8, 3)) 1 memory [] :=
    @Emits.sendAll _ _ [] [] memory (.tick .start)
  have hprocessors : Emits (processorSource fun _ => some .nan) 1
      [.gauge "CPUutilization1" .zero] [] := @Emits.send _ _ [] _ _ (.tick .start)
  have hmerged : Merged [process ++ [.counter pollCount 1], memory, [.gauge "CPUutilization1" .zero]]
      events := by
    have hdone : Merged ([] ++ ([] : List Sample) :: [[], []]) [] := .done (by simp)
    have hpoll : Merged ([[.counter pollCount 1]] ++ ([] : List Sample) :: [[]])
        [.counter pollCount 1] := hdone.takeAll [.counter pollCount 1]
    have hsizes : Merged ([] ++ [.counter pollCount 1] :: [memory, []])
        (memory ++ [.counter pollCount 1]) := hpoll.takeAll memory
    have hrest : Merged ([process ++ [.counter pollCount 1], memory] ++ ([] : List Sample) :: [])
        (process ++ (memory ++ [.counter pollCount 1])) := hsizes.takeAll process
    exact hrest.takeAll [.gauge "CPUutilization1" .zero]
  obtain ⟨-, -, -, ⟨hsampled, hsizes, -⟩, hprefixes⟩ := nothing_is_dropped (fun _ => rfl) hprocess
    (by decide) hmemory hprocessors hmerged ⟨[], Counters.empty, 0⟩
  exact ⟨hsampled, hsizes, hprefixes events [] (List.append_nil events).symm⟩

end Telemetry.Agent
