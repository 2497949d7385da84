import Telemetry.Proofs.Agent.Moves
import Telemetry.Proofs.Retry

/-!
# What is done with one event of a pool

The deeds about one event tell the same story as its place: an event in the queue was not touched;
one in the hands of a worker was taken by that worker and no other, who has made as many attempts as
the delays that are left say; and one that is finished has its fate from the run under the retry
schedule. `replay` makes that last word exact: it is the attempt whose outcomes are known
beforehand, so that the run of the schedule over the outcomes of an event is what the pool did with
it.
-/

namespace Telemetry.Agent

/-! ### Histories -/

def acceptedIn (history : List Deed) : List Parcel := history.filterMap fun deed => match deed with
  | .accepted parcel => some parcel
  | _ => none

def reportedIn (history : List Deed) : List Sample := history.flatMap fun deed => match deed with
  | .reported metrics => metrics
  | _ => []

def takers (history : List Deed) : List Nat := history.filterMap fun deed => match deed with
  | .taken worker _ => some worker
  | _ => none

/-- The workers that began an attempt, once for each. -/
def callers (history : List Deed) : List Nat := history.filterMap fun deed => match deed with
  | .called worker _ => some worker
  | _ => none

def outcomes (history : List Deed) : List (Except Failure Unit) := history.filterMap fun deed =>
  match deed with
  | .answered _ outcome => some outcome
  | _ => none

def dealings (parcel : Parcel) (history : List Deed) : List Deed :=
  history.filter fun deed => deed.parcel? = some parcel

/-! ### One event -/

/-- The attempt whose outcomes are known beforehand. -/
def replay : Action (List (Except Failure Unit)) Unit := fun world => match world.store with
  | [] => (.error .cancelled, world)
  | outcome :: outcomes => (outcome, { world with store := outcomes })

def Stage.delays : Stage → List Nat
  | .ready _ delays => delays
  | .calling _ delays => delays
  | .waiting _ _ delays => delays

/-- The number of attempts that have no outcome yet. -/
def Stage.pending : Stage → Nat
  | .calling _ _ => 1
  | _ => 0

/-- The rest of the run under the retry schedule. -/
def Stage.rest : Stage → Action (List (Except Failure Unit)) Unit
  | .ready last delays => Schedule.runFrom none replay last delays
  | .calling delay delays => Schedule.runFrom none replay .cancelled (delay :: delays)
  | .waiting _ last delays => Schedule.runFrom none replay last delays

/-- What the deeds about an event are while a worker sends it. -/
structure Sending (schedule : Schedule) (worker : Nat) (stage : Stage) (past : List Deed) :
    Prop where
  taken : takers past = [worker]
  called : callers past = List.replicate ((outcomes past).length + stage.pending) worker
  attempts : (outcomes past).length + stage.pending + stage.delays.length = schedule.attempts
  refused : .ok () ∉ outcomes past
  replays : ∀ host more, ∃ later, schedule.run none replay ⟨outcomes past ++ more, host⟩ =
    stage.rest ⟨more, later⟩

/-- What the deeds about an event are once it is finished. -/
structure Sent (schedule : Schedule) (fate : Fate) (past : List Deed) : Prop where
  sender : ∃ worker, takers past = [worker] ∧
    callers past = List.replicate (outcomes past).length worker
  attempts : (outcomes past).length ≤ schedule.attempts
  delivered : fate = .delivered ↔ .ok () ∈ outcomes past
  once : (outcomes past).count (.ok ()) ≤ 1
  replays : fate ≠ .abandoned → ∀ host, ∃ result later,
    schedule.run none replay ⟨outcomes past, host⟩ = (result, ⟨[], later⟩) ∧ fate = .of result

/-- What the deeds about an event are, by its place. -/
def Status.Fits (schedule : Schedule) (past : List Deed) : Status → Prop
  | .queued => takers past = [] ∧ callers past = [] ∧ outcomes past = []
  | .held worker stage => Sending schedule worker stage past
  | .settled fate => Sent schedule fate past

variable {schedule : Schedule} {worker : Nat} {stage : Stage} {past later history deeds : List Deed}
  {parcel : Parcel} {delay : Nat} {delays : List Nat} {last failure : Failure}
  {outcome result : Except Failure Unit} {fate : Fate} {cancelled : Bool} {progress : Progress}

@[simp] theorem acceptedIn_append :
    acceptedIn (past ++ later) = acceptedIn past ++ acceptedIn later := List.filterMap_append

@[simp] theorem reportedIn_append :
    reportedIn (past ++ later) = reportedIn past ++ reportedIn later := List.flatMap_append

@[simp] theorem takers_append : takers (past ++ later) = takers past ++ takers later :=
  List.filterMap_append

@[simp] theorem callers_append : callers (past ++ later) = callers past ++ callers later :=
  List.filterMap_append

@[simp] theorem outcomes_append : outcomes (past ++ later) = outcomes past ++ outcomes later :=
  List.filterMap_append

@[simp] theorem dealings_append :
    dealings parcel (past ++ later) = dealings parcel past ++ dealings parcel later :=
  List.filter_append _ _

/-! ### The run that the outcomes are -/

theorem replay_cons (outcome : Except Failure Unit) (more : List (Except Failure Unit))
    (host : Host) : replay ⟨outcome :: more, host⟩ = (outcome, ⟨more, host⟩) := rfl

theorem rest_stop (hverdict : Verdict.of delay outcome = .stop result)
    (more : List (Except Failure Unit)) (host : Host) :
    (Stage.calling delay delays).rest ⟨outcome :: more, host⟩ = (result, ⟨more, host⟩) := by
  rw [Stage.rest]
  exact Schedule.runFrom_stop rfl (replay_cons outcome more host) hverdict

theorem rest_again (hverdict : Verdict.of delay outcome = .again delay failure)
    (more : List (Except Failure Unit)) (host : Host) :
    (Stage.calling delay delays).rest ⟨outcome :: more, host⟩ =
      Schedule.runFrom none replay failure delays
        ⟨more, { host with now := host.now + delay }⟩ := by
  have hnever : ¬ Schedule.Interrupted none (delay :: delays)
      [(⟨host.now, outcome, host.now⟩ : Attempt Unit)] := by
    rintro ⟨_, _, _, _, hcancel, _⟩
    cases hcancel
  rw [Stage.rest]
  exact Schedule.runFrom_waited rfl (replay_cons outcome more host) hverdict rfl hnever

/-! ### What becomes of an event -/

theorem Sending.start (h : Status.queued.Fits schedule past) :
    Sending schedule worker (.ready .cancelled schedule.delays)
      (past ++ [.taken worker parcel]) := by
  obtain ⟨htakers, hcallers, houtcomes⟩ := h
  have hnone : outcomes (past ++ [.taken worker parcel]) = [] := by
    rw [outcomes_append, houtcomes]
    rfl
  refine ⟨?_, ?_, ?_, ?_, ?_⟩
  · rw [takers_append, htakers]
    rfl
  · rw [callers_append, hcallers, hnone]
    rfl
  · rw [hnone]
    exact Nat.zero_add _
  · rw [hnone]
    exact List.not_mem_nil
  · intro host more
    rw [hnone]
    exact ⟨host, rfl⟩

/-- No attempt is open when the sending ends without a further outcome. -/
theorem Sending.ended (h : Sending schedule worker stage past) (hpending : stage.pending = 0)
    (hfate : fate ≠ .delivered) (hreplays : fate ≠ .abandoned → ∀ host, ∃ result later,
      schedule.run none replay ⟨outcomes past, host⟩ = (result, ⟨[], later⟩) ∧ fate = .of result) :
    Sent schedule fate past where
  sender := ⟨worker, h.taken, by rw [h.called, hpending, Nat.add_zero]⟩
  attempts := by
    rw [← h.attempts, Nat.add_assoc]
    exact Nat.le_add_right _ _
  delivered := iff_of_false hfate h.refused
  once := by
    rw [List.count_eq_zero.2 h.refused]
    exact Nat.zero_le 1
  replays := hreplays

theorem Sending.abandoned (h : Sending schedule worker stage past) (hpending : stage.pending = 0) :
    Sent schedule .abandoned past :=
  h.ended hpending nofun fun hfate => absurd rfl hfate

theorem Sending.decided (h : Sending schedule worker (.calling delay delays) past)
    (hverdict : Verdict.of delay outcome = .stop result) :
    Sent schedule (.of result) (past ++ [.answered parcel outcome]) := by
  have hresult : result = outcome := by
    obtain ⟨hstop, -⟩ | ⟨_, -, -, hagain⟩ := Schedule.verdict_cases delay outcome
    · rw [hverdict] at hstop
      exact Verdict.stop.inj hstop
    · rw [hverdict] at hagain
      cases hagain
  subst hresult
  have houtcomes : outcomes (past ++ [.answered parcel result]) = outcomes past ++ [result] :=
    outcomes_append
  refine ⟨⟨worker, ?_, ?_⟩, ?_, ?_, ?_, ?_⟩
  · rw [takers_append, h.taken]
    rfl
  · rw [callers_append, h.called, houtcomes, List.length_append]
    exact List.append_nil _
  · rw [houtcomes, List.length_append, ← h.attempts]
    exact Nat.le_add_right _ _
  · rw [houtcomes, List.mem_append, List.mem_singleton, or_iff_right h.refused]
    cases result <;> simp [Fate.of]
  · rw [houtcomes, List.count_append, List.count_eq_zero.2 h.refused, Nat.zero_add]
    exact List.count_le_length
  · intro _ host
    obtain ⟨later, hrun⟩ := h.replays host [result]
    rw [houtcomes, hrun]
    exact ⟨result, later, rest_stop hverdict [] later, rfl⟩

theorem Sending.failed (h : Sending schedule worker (.calling delay delays) past)
    (hverdict : Verdict.of delay outcome = .again delay failure) (hpending : stage.pending = 0)
    (hdelays : stage.delays = delays)
    (hrest : stage.rest = Schedule.runFrom none replay failure delays)
    (houtcome : outcome ≠ .ok ()) :
    Sending schedule worker stage (past ++ [.answered parcel outcome]) := by
  have houtcomes : outcomes (past ++ [.answered parcel outcome]) = outcomes past ++ [outcome] :=
    outcomes_append
  refine ⟨?_, ?_, ?_, ?_, ?_⟩
  · rw [takers_append, h.taken]
    rfl
  · rw [callers_append, h.called, houtcomes, List.length_append, hpending]
    exact List.append_nil _
  · rw [houtcomes, List.length_append, hpending, hdelays]
    exact h.attempts
  · rw [houtcomes, List.mem_append, List.mem_singleton, not_or]
    exact ⟨h.refused, houtcome.symm⟩
  · intro host more
    obtain ⟨later, hrun⟩ := h.replays host (outcome :: more)
    rw [houtcomes, List.append_assoc, hrest]
    exact ⟨_, hrun.trans (rest_again hverdict more later)⟩

theorem Sending.next (h : Sending schedule worker stage past)
    (hnext : stage.Next cancelled worker parcel deeds progress) :
    (progress.status worker).Fits schedule (past ++ deeds) := by
  cases hnext with
  | exhausted last =>
    rw [List.append_nil]
    refine h.ended rfl nofun ?_
    intro _ host
    obtain ⟨later, hrun⟩ := h.replays host []
    rw [List.append_nil] at hrun
    exact ⟨.error last, later, hrun, rfl⟩
  | refused =>
    rw [List.append_nil]
    exact h.abandoned rfl
  | called _ last delay delays =>
    have houtcomes : outcomes (past ++ [.called worker parcel]) = outcomes past :=
      outcomes_append.trans (List.append_nil _)
    refine ⟨?_, ?_, ?_, ?_, ?_⟩
    · rw [takers_append, h.taken]
      rfl
    · rw [callers_append, h.called, houtcomes]
      exact List.replicate_succ'.symm
    · rw [houtcomes, ← h.attempts]
      exact Nat.add_right_comm _ _ _
    · rw [houtcomes]
      exact h.refused
    · rw [houtcomes]
      exact h.replays
  | decided hverdict => exact h.decided hverdict
  | @failed delay after outcome failure stage hverdict delays hstage =>
    obtain ⟨hstop, -⟩ | ⟨_, houtcome, -, hagain⟩ := Schedule.verdict_cases delay outcome
    · rw [hverdict] at hstop
      cases hstop
    · rw [hverdict] at hagain
      cases hagain
      obtain rfl | ⟨wake, rfl⟩ := hstage
      · exact h.failed hverdict rfl rfl rfl (by simp [houtcome])
      · exact h.failed hverdict rfl rfl rfl (by simp [houtcome])
  | woken wake last delays =>
    rw [List.append_nil]
    exact ⟨h.taken, h.called, h.attempts, h.refused, h.replays⟩
  | gaveUp =>
    rw [List.append_nil]
    exact h.abandoned rfl

theorem Status.Next.fits {old new : Status} (h : old.Next schedule cancelled parcel deeds new)
    (hold : old.Fits schedule past) : new.Fits schedule (past ++ deeds) := by
  cases h with
  | taken worker => exact Sending.start hold
  | moved h => exact Sending.next hold h

theorem Status.Next.concerns {old new : Status} (h : old.Next schedule cancelled parcel deeds new) :
    acceptedIn deeds = [] ∧ ∀ deed ∈ deeds, deed.parcel? = some parcel := by
  cases h with
  | taken worker => exact ⟨rfl, List.forall_mem_singleton.2 rfl⟩
  | moved h => cases h <;> exact ⟨rfl, by simp [Deed.parcel?]⟩

theorem dealings_append_self (h : ∀ deed ∈ deeds, deed.parcel? = some parcel) :
    dealings parcel (past ++ deeds) = dealings parcel past ++ deeds := by
  have hall : dealings parcel deeds = deeds := by
    rw [dealings, List.filter_eq_self]
    intro deed hdeed
    exact decide_eq_true (h deed hdeed)
  rw [dealings_append, hall]

theorem dealings_eq_nil (h : ∀ deed ∈ deeds, deed.parcel? ≠ some parcel) :
    dealings parcel deeds = [] := by
  rw [dealings, List.filter_eq_nil_iff]
  intro deed hdeed
  rw [decide_eq_true_iff]
  exact h deed hdeed

theorem dealings_append_of_ne (h : ∀ deed ∈ deeds, deed.parcel? ≠ some parcel) :
    dealings parcel (past ++ deeds) = dealings parcel past := by
  rw [dealings_append, dealings_eq_nil h, List.append_nil]

theorem acceptedIn_eq_nil (h : ∀ deed ∈ deeds, deed.parcel? = none) : acceptedIn deeds = [] := by
  rw [acceptedIn, List.filterMap_eq_nil_iff]
  intro deed hdeed
  have hnone := h deed hdeed
  cases deed with
  | accepted => cases hnone
  | _ => rfl

theorem mem_acceptedIn : parcel ∈ acceptedIn history ↔ .accepted parcel ∈ history := by
  rw [acceptedIn, List.mem_filterMap]
  constructor
  · rintro ⟨deed, hdeed, hparcel⟩
    cases deed with
    | accepted =>
      cases hparcel
      exact hdeed
    | _ => cases hparcel
  · intro h
    exact ⟨_, h, rfl⟩

end Telemetry.Agent
