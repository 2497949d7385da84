import Telemetry.Retry
import Mathlib.Data.List.Basic

/-!
# The course of a run under a schedule

The attempts of a run are written down beside the state on which they work: when each started, how it
ended, and when. The delays start each attempt where the waits before it say, no attempt starts after
cancellation, and a run ends in one of four ways: an attempt decides it, the delays are used up,
cancellation is noticed where an attempt would start, or it comes in a wait.
-/

namespace Telemetry

variable {σ α : Type}

structure Attempt (α : Type) where
  start : Nat
  outcome : Except Failure α
  finish : Nat

/-- The attempt failed for a transient reason. -/
def Attempt.Failed (a : Attempt α) : Prop :=
  ∃ failure, a.outcome = .error failure ∧ failure.isTransient = true

/-- An action that is written down whenever it is done. -/
def Action.logged (action : Action σ α) : Action (σ × List (Attempt α)) α := fun world =>
  let (outcome, after) := action ⟨world.store.1, world.host⟩
  (outcome,
    ⟨(after.store, world.store.2 ++ [⟨world.host.now, outcome, after.host.now⟩]), after.host⟩)

namespace Schedule

/-- The attempts of a run. -/
def made (schedule : Schedule) (cancel : Cancellation) (attempt : Action σ α) (world : World σ) :
    List (Attempt α) :=
  (schedule.run cancel attempt.logged ⟨(world.store, []), world.host⟩).2.store.2

/-! ### What is said of the attempts -/

/-- From a time on, each attempt starts when the one before is over and the delay after it has
passed. -/
def Paced : Nat → List Nat → List (Attempt α) → Prop
  | now, delay :: delays, a :: made => a.start = now ∧ Paced (a.finish + delay) delays made
  | _, _, made => made = []

/-- The time at which the attempt after these is due. -/
def dueAfter : Nat → List Nat → List (Attempt α) → Nat
  | _, delay :: delays, a :: made => dueAfter (a.finish + delay) delays made
  | now, _, _ => now

/-- Cancellation comes in the wait after the last of these attempts. -/
def Interrupted (cancel : Cancellation) (delays : List Nat) (made : List (Attempt α)) : Prop :=
  ∃ moment before a delay, cancel = some moment ∧ made = before ++ [a] ∧
    delays[before.length]? = some delay ∧ delay ≠ 0 ∧ moment < a.finish + delay

/-- How a run ends that made these attempts: its result and its time. -/
inductive Ending (cancel : Cancellation) (now : Nat) (last : Failure) (delays : List Nat)
    (made : List (Attempt α)) : Except Failure α → Nat → Prop
  | decided (before : List (Attempt α)) (a : Attempt α) (hmade : made = before ++ [a])
    (hbefore : ∀ b ∈ before, b.Failed) (ha : ¬ a.Failed) :
    Ending cancel now last delays made a.outcome a.finish
  | exhausted (hfailed : ∀ a ∈ made, a.Failed) (hlength : made.length = delays.length)
    (hwaited : ¬ Interrupted cancel delays made) :
    Ending cancel now last delays made ((made.getLast?.map Attempt.outcome).getD (.error last))
      (dueAfter now delays made)
  | refused (hfailed : ∀ a ∈ made, a.Failed) (hlength : made.length < delays.length)
    (hreached : cancel.reached (dueAfter now delays made) = true) :
    Ending cancel now last delays made (.error .cancelled) (dueAfter now delays made)
  | interrupted (hfailed : ∀ a ∈ made, a.Failed) (h : Interrupted cancel delays made)
    (finish : Nat) : Ending cancel now last delays made (.error .cancelled) finish

/-- The course of a run: the attempts start in time and before cancellation, and they are followed by
one of the endings. -/
structure Course (cancel : Cancellation) (now : Nat) (last : Failure) (delays : List Nat)
    (made : List (Attempt α)) (result : Except Failure α) (finish : Nat) : Prop where
  paced : Paced now delays made
  starts : ∀ a ∈ made, cancel.reached a.start = false
  ending : Ending cancel now last delays made result finish

variable {cancel : Cancellation} {now : Nat} {last failure : Failure} {delay : Nat}
  {delays : List Nat} {made : List (Attempt α)} {a : Attempt α} {result : Except Failure α}
  {finish : Nat}

theorem Paced.length_le (h : Paced now delays made) : made.length ≤ delays.length := by
  induction delays generalizing now made with
  | nil =>
    cases made with
    | nil => exact Nat.le_refl _
    | cons a made => cases h
  | cons delay delays ih =>
    cases made with
    | nil => exact Nat.zero_le _
    | cons a made => exact Nat.succ_le_succ (ih h.2)

theorem interrupted_singleton : Interrupted cancel (delay :: delays) [a] ↔
    ∃ moment, cancel = some moment ∧ delay ≠ 0 ∧ moment < a.finish + delay := by
  constructor
  · rintro ⟨moment, before, b, delay', hcancel, hmade, hdelay, hpositive, hmoment⟩
    obtain ⟨rfl, rfl⟩ : before = [] ∧ a = b := by
      cases before with
      | nil => exact ⟨rfl, List.singleton_inj.1 hmade⟩
      | cons c before => simp at hmade
    cases hdelay
    exact ⟨moment, hcancel, hpositive, hmoment⟩
  · rintro ⟨moment, hcancel, hpositive, hmoment⟩
    exact ⟨moment, [], a, delay, hcancel, rfl, rfl, hpositive, hmoment⟩

theorem interrupted_cons (hmade : made ≠ []) :
    Interrupted cancel (delay :: delays) (a :: made) ↔ Interrupted cancel delays made := by
  constructor
  · rintro ⟨moment, before, b, delay', hcancel, hcons, hdelay, hpositive, hmoment⟩
    cases before with
    | nil =>
      cases hcons
      exact absurd rfl hmade
    | cons c before =>
      cases hcons
      exact ⟨moment, before, b, delay', hcancel, rfl, hdelay, hpositive, hmoment⟩
  · rintro ⟨moment, before, b, delay', hcancel, rfl, hdelay, hpositive, hmoment⟩
    exact ⟨moment, a :: before, b, delay', hcancel, rfl, hdelay, hpositive, hmoment⟩

/-! ### One attempt more in front -/

theorem Ending.again (hfailed : a.outcome = .error failure) (htransient : failure.isTransient = true)
    (hwaited : ¬ Interrupted cancel (delay :: delays) [a])
    (h : Ending cancel (a.finish + delay) failure delays made result finish) :
    Ending cancel now last (delay :: delays) (a :: made) result finish := by
  have hall (hmade : ∀ b ∈ made, b.Failed) : ∀ b ∈ a :: made, b.Failed :=
    List.forall_mem_cons.2 ⟨⟨failure, hfailed, htransient⟩, hmade⟩
  cases h with
  | decided before b hmade hbefore hb =>
    rw [hmade]
    refine .decided (a :: before) b rfl ?_ hb
    exact List.forall_mem_cons.2 ⟨⟨failure, hfailed, htransient⟩, hbefore⟩
  | exhausted hmade hlength hrest =>
    have hlast : ((a :: made).getLast?.map Attempt.outcome).getD (.error last) =
        (made.getLast?.map Attempt.outcome).getD (.error failure) := by
      rw [List.getLast?_cons]
      cases made.getLast? with
      | none => exact hfailed
      | some b => rfl
    rw [← hlast]
    refine .exhausted (hall hmade) (congrArg (· + 1) hlength) ?_
    by_cases hnone : made = []
    · rw [hnone]
      exact hwaited
    · rw [interrupted_cons hnone]
      exact hrest
  | refused hmade hlength hreached =>
    exact .refused (hall hmade) (Nat.succ_lt_succ hlength) hreached
  | interrupted hmade hrest =>
    refine .interrupted (hall hmade) ?_ finish
    have hnone : made ≠ [] := by
      rintro rfl
      obtain ⟨_, before, b, _, _, hmade, _⟩ := hrest
      simp at hmade
    rw [interrupted_cons hnone]
    exact hrest

theorem Course.again (hstart : cancel.reached a.start = false)
    (hfailed : a.outcome = .error failure) (htransient : failure.isTransient = true)
    (hwaited : ¬ Interrupted cancel (delay :: delays) [a])
    (h : Course cancel (a.finish + delay) failure delays made result finish) :
    Course cancel a.start last (delay :: delays) (a :: made) result finish where
  paced := ⟨rfl, h.paced⟩
  starts := List.forall_mem_cons.2 ⟨hstart, h.starts⟩
  ending := h.ending.again hfailed htransient hwaited

theorem Course.single (hstart : cancel.reached a.start = false)
    (h : Ending cancel a.start last (delay :: delays) [a] result finish) :
    Course cancel a.start last (delay :: delays) [a] result finish where
  paced := by
    refine ⟨rfl, ?_⟩
    cases delays <;> rfl
  starts := by
    intro b hb
    rw [List.mem_singleton.1 hb]
    exact hstart
  ending := h

/-! ### Runs -/

theorem verdict_cases (delay : Nat) (outcome : Except Failure α) :
    (Verdict.of delay outcome = .stop outcome ∧
      ∀ failure, outcome = .error failure → failure.isTransient = false) ∨
    ∃ failure, outcome = .error failure ∧ failure.isTransient = true ∧
      Verdict.of delay outcome = .again delay failure := by
  cases outcome with
  | ok a => exact .inl ⟨rfl, nofun⟩
  | error failure =>
    by_cases htransient : failure.isTransient = true
    · exact .inr ⟨failure, rfl, htransient, if_pos htransient⟩
    · refine .inl ⟨if_neg htransient, ?_⟩
      intro other hother
      cases hother
      exact Bool.not_eq_true _ ▸ htransient

theorem wait_cases (cancel : Cancellation) (now delay : Nat) :
    ((∃ moment, cancel = some moment ∧ moment < now + delay) ∧ (cancel.wait now delay).2 = true) ∨
    (¬ ∃ moment, cancel = some moment ∧ moment < now + delay) ∧
      cancel.wait now delay = (now + delay, false) := by
  cases cancel with
  | none => exact .inr ⟨nofun, rfl⟩
  | some moment =>
    by_cases hmoment : moment < now + delay
    · exact .inl ⟨⟨moment, rfl, hmoment⟩, congrArg Prod.snd (if_pos hmoment)⟩
    · refine .inr ⟨?_, if_neg hmoment⟩
      rintro ⟨other, hother, hlater⟩
      cases hother
      exact hmoment hlater

section

variable {attempt : Action σ α} {world after : World σ} {outcome : Except Failure α}

theorem runFrom_reached (h : cancel.reached world.host.now = true) :
    runFrom cancel attempt last (delay :: delays) world = (.error .cancelled, world) := if_pos h

variable (hstart : cancel.reached world.host.now = false) (hattempt : attempt world = (outcome, after))

include hstart hattempt

theorem runFrom_stop (hverdict : Verdict.of delay outcome = .stop result) :
    runFrom cancel attempt last (delay :: delays) world = (result, after) := by
  simp only [runFrom, hstart, hattempt, hverdict, Bool.false_eq_true, if_false]

variable (hverdict : Verdict.of delay outcome = .again delay failure) (ha : a.finish = after.host.now)

include hverdict ha

theorem runFrom_interrupted (h : Interrupted cancel (delay :: delays) [a]) :
    runFrom cancel attempt last (delay :: delays) world =
      (.error .cancelled, after.setTime (cancel.wait after.host.now delay).1) := by
  obtain ⟨moment, hcancel, hpositive, hmoment⟩ := interrupted_singleton.1 h
  rw [ha] at hmoment
  obtain ⟨_, hwait⟩ | ⟨hnever, _⟩ := wait_cases cancel after.host.now delay
  · simp only [runFrom, hstart, hattempt, hverdict, Bool.false_eq_true, if_false, hpositive, hwait,
      if_true]
    rfl
  · exact absurd ⟨moment, hcancel, hmoment⟩ hnever

theorem runFrom_waited (h : ¬ Interrupted cancel (delay :: delays) [a]) :
    runFrom cancel attempt last (delay :: delays) world =
      runFrom cancel attempt failure delays (after.setTime (after.host.now + delay)) := by
  by_cases hzero : delay = 0
  · subst hzero
    simp only [runFrom, hstart, hattempt, hverdict, Bool.false_eq_true, if_false, if_true]
    rfl
  · obtain ⟨⟨moment, hcancel, hmoment⟩, _⟩ | ⟨_, hwait⟩ := wait_cases cancel after.host.now delay
    · rw [← ha] at hmoment
      exact absurd (interrupted_singleton.2 ⟨moment, hcancel, hzero, hmoment⟩) h
    · simp only [runFrom, hstart, hattempt, hverdict, Bool.false_eq_true, if_false, hzero, hwait]
      rfl

end

/-- What is written down changes nothing, and it is the course of the run. -/
theorem runFrom_logged (cancel : Cancellation) (attempt : Action σ α) (last : Failure)
    (delays : List Nat) (store : σ) (host : Host) (log : List (Attempt α)) :
    ∃ made, runFrom cancel attempt.logged last delays ⟨(store, log), host⟩ =
        ((runFrom cancel attempt last delays ⟨store, host⟩).1,
          ⟨((runFrom cancel attempt last delays ⟨store, host⟩).2.store, log ++ made),
            (runFrom cancel attempt last delays ⟨store, host⟩).2.host⟩) ∧
      Course cancel host.now last delays made (runFrom cancel attempt last delays ⟨store, host⟩).1
        (runFrom cancel attempt last delays ⟨store, host⟩).2.host.now := by
  induction delays generalizing last store host log with
  | nil =>
    refine ⟨[], by simp [runFrom], rfl, nofun, .exhausted nofun rfl ?_⟩
    rintro ⟨_, before, a, _, _, hmade, _⟩
    simp at hmade
  | cons delay delays ih =>
    by_cases hreached : cancel.reached host.now = true
    · have hplain : runFrom cancel attempt last (delay :: delays) ⟨store, host⟩ =
          (.error .cancelled, ⟨store, host⟩) := runFrom_reached hreached
      have hlogged : runFrom cancel attempt.logged last (delay :: delays) ⟨(store, log), host⟩ =
          (.error .cancelled, ⟨(store, log), host⟩) := runFrom_reached hreached
      refine ⟨[], ?_⟩
      rw [hplain, hlogged, List.append_nil]
      exact ⟨rfl, rfl, nofun, .refused nofun (Nat.succ_pos _) hreached⟩
    · have hstart : cancel.reached host.now = false := Bool.not_eq_true _ ▸ hreached
      obtain ⟨outcome, after, hattempt⟩ :
          ∃ outcome after, attempt ⟨store, host⟩ = (outcome, after) := ⟨_, _, rfl⟩
      set a : Attempt α := ⟨host.now, outcome, after.host.now⟩ with ha
      have hlogged : attempt.logged ⟨(store, log), host⟩ =
          (outcome, ⟨(after.store, log ++ [a]), after.host⟩) := by
        simp only [Action.logged, hattempt, ha]
      obtain ⟨hverdict, hfinal⟩ | ⟨failure, hfailed, htransient, hverdict⟩ :=
        verdict_cases delay outcome
      · refine ⟨[a], ?_⟩
        rw [runFrom_stop hstart hattempt hverdict, runFrom_stop hstart hlogged hverdict]
        refine ⟨rfl, Course.single (a := a) hstart (.decided [] a rfl nofun ?_)⟩
        rintro ⟨failure, hfailure, htransient⟩
        rw [hfinal failure hfailure] at htransient
        cases htransient
      · by_cases hinterrupted : Interrupted cancel (delay :: delays) [a]
        · refine ⟨[a], ?_⟩
          rw [runFrom_interrupted hstart hattempt hverdict rfl hinterrupted,
            runFrom_interrupted hstart hlogged hverdict rfl hinterrupted]
          refine ⟨rfl, Course.single (a := a) hstart (.interrupted ?_ hinterrupted _)⟩
          exact List.forall_mem_singleton.2 ⟨failure, hfailed, htransient⟩
        · rw [runFrom_waited hstart hattempt hverdict rfl hinterrupted,
            runFrom_waited hstart hlogged hverdict rfl hinterrupted]
          obtain ⟨made, hrun, hcourse⟩ := ih failure after.store
            { after.host with now := after.host.now + delay } (log ++ [a])
          refine ⟨a :: made, hrun.trans (by rw [List.append_assoc]; rfl), ?_⟩
          exact hcourse.again (a := a) hstart hfailed htransient hinterrupted

/-! ### What an ending says -/

theorem Ending.result_of_not_failed (h : Ending cancel now last delays made result finish)
    (ha : a ∈ made) (hdecides : ¬ a.Failed) : result = a.outcome := by
  cases h with
  | decided before b hmade hbefore hb =>
    rw [hmade, List.mem_append, List.mem_singleton] at ha
    obtain hbefore' | rfl := ha
    · exact absurd (hbefore a hbefore') hdecides
    · rfl
  | exhausted hfailed => exact absurd (hfailed a ha) hdecides
  | refused hfailed => exact absurd (hfailed a ha) hdecides
  | interrupted hfailed => exact absurd (hfailed a ha) hdecides

/-- Cancellation is noticed where the attempt after these would start, or in the wait before it. -/
def Noticed (cancel : Cancellation) (now : Nat) (delays : List Nat) (made : List (Attempt α)) :
    Prop :=
  (∀ a ∈ made, a.Failed) ∧
    (made.length < delays.length ∧ cancel.reached (dueAfter now delays made) = true ∨
      Interrupted cancel delays made)

/-- A run that used up its delays made an attempt, and the last one gives its result. -/
theorem last_of_exhausted (last : Failure) (hdelays : delays ≠ []) (hlength : made.length = delays.length) :
    ∃ before a, made = before ++ [a] ∧
      (made.getLast?.map Attempt.outcome).getD (.error last) = a.outcome := by
  cases hlast : made.getLast? with
  | none =>
    rw [List.getLast?_eq_none_iff.1 hlast] at hlength
    exact absurd (List.length_eq_zero_iff.1 hlength.symm) hdelays
  | some a =>
    obtain ⟨before, hmade⟩ := List.getLast?_eq_some_iff.1 hlast
    exact ⟨before, a, hmade, rfl⟩

theorem Ending.cancelled_iff (h : Ending cancel now last delays made result finish)
    (hdelays : delays ≠ []) (hnever : ∀ a ∈ made, a.outcome ≠ .error .cancelled) :
    result = .error .cancelled ↔ Noticed cancel now delays made := by
  constructor
  · intro hcancelled
    cases h with
    | decided before a hmade =>
      rw [hmade] at hnever
      exact absurd hcancelled (hnever a (List.mem_append_right _ (List.mem_singleton_self a)))
    | exhausted hfailed hlength =>
      obtain ⟨before, a, hmade, houtcome⟩ := last_of_exhausted last hdelays hlength
      rw [houtcome] at hcancelled
      rw [hmade] at hnever
      exact absurd hcancelled (hnever a (List.mem_append_right _ (List.mem_singleton_self a)))
    | refused hfailed hlength hreached => exact ⟨hfailed, .inl ⟨hlength, hreached⟩⟩
    | interrupted hfailed hinterrupted => exact ⟨hfailed, .inr hinterrupted⟩
  · rintro ⟨hfailed, hnoticed⟩
    cases h with
    | decided before a hmade hbefore ha =>
      refine absurd (hfailed a ?_) ha
      rw [hmade]
      exact List.mem_append_right _ (List.mem_singleton_self a)
    | exhausted _ hlength hwaited =>
      obtain ⟨hless, _⟩ | hinterrupted := hnoticed
      · exact absurd hlength (Nat.ne_of_lt hless)
      · exact absurd hinterrupted hwaited
    | refused => rfl
    | interrupted => rfl

/-- Without cancellation a run ends with the first attempt that is not to be repeated, or with the
last one that the delays allow. -/
theorem Ending.of_none (h : Ending none now last delays made result finish) (hdelays : delays ≠ []) :
    ∃ before a, made = before ++ [a] ∧ (∀ b ∈ before, b.Failed) ∧ result = a.outcome ∧
      (¬ a.Failed ∧ finish = a.finish ∨
        a.Failed ∧ made.length = delays.length ∧ finish = dueAfter now delays made) := by
  cases h with
  | decided before a hmade hbefore ha => exact ⟨before, a, hmade, hbefore, rfl, .inl ⟨ha, rfl⟩⟩
  | exhausted hfailed hlength =>
    obtain ⟨before, a, hmade, houtcome⟩ := last_of_exhausted last hdelays hlength
    rw [hmade, List.forall_mem_append, List.forall_mem_singleton] at hfailed
    exact ⟨before, a, hmade, hfailed.1, houtcome, .inr ⟨hfailed.2, hlength, rfl⟩⟩
  | refused _ _ hreached => cases hreached
  | interrupted _ hinterrupted =>
    obtain ⟨_, _, _, _, hcancel, _⟩ := hinterrupted
    cases hcancel

/-! ### Whole runs -/

variable (schedule : Schedule) (cancel : Cancellation) (attempt : Action σ α) (world : World σ)

/-- The run whose attempts are written down is the run itself, and they are its course. -/
theorem run_logged :
    schedule.run cancel attempt.logged ⟨(world.store, []), world.host⟩ =
      ((schedule.run cancel attempt world).1,
        ⟨((schedule.run cancel attempt world).2.store, schedule.made cancel attempt world),
          (schedule.run cancel attempt world).2.host⟩) ∧
    Course cancel world.host.now .cancelled schedule.delays (schedule.made cancel attempt world)
      (schedule.run cancel attempt world).1 (schedule.run cancel attempt world).2.host.now := by
  obtain ⟨made, hrun, hcourse⟩ := runFrom_logged cancel attempt .cancelled schedule.delays
    world.store world.host []
  have hmade : schedule.made cancel attempt world = made := congrArg (·.2.store.2) hrun
  rw [hmade]
  exact ⟨hrun, hcourse⟩

/-- **What a run under a schedule does.** It makes at most one attempt for each delay, and each when
the attempt before has failed and the delay after it has passed. Without cancellation the first
attempt that is not to be repeated gives the result, and if all fail the last one does, after all
delays. With cancellation no attempt starts from then on; one that is in progress still decides if it
is not to be repeated; and if no attempt itself reports cancellation, the result is cancellation
exactly when it is noticed where an attempt would start or in a wait. -/
theorem run_keeps_schedule (hdelays : schedule.delays ≠ []) :
    let made := schedule.made cancel attempt world
    let result := (schedule.run cancel attempt world).1
    let finish := (schedule.run cancel attempt world).2.host.now
    made.length ≤ schedule.attempts ∧ Paced world.host.now schedule.delays made ∧
    (cancel = none → ∃ before a, made = before ++ [a] ∧ (∀ b ∈ before, b.Failed) ∧
      result = a.outcome ∧ (¬ a.Failed ∧ finish = a.finish ∨
        a.Failed ∧ made.length = schedule.attempts ∧
          finish = dueAfter world.host.now schedule.delays made)) ∧
    ∀ moment, cancel = some moment →
      (∀ a ∈ made, a.start < moment) ∧ (∀ a ∈ made, ¬ a.Failed → result = a.outcome) ∧
      ((∀ a ∈ made, a.outcome ≠ .error .cancelled) →
        (result = .error .cancelled ↔ Noticed cancel world.host.now schedule.delays made)) := by
  intro made result finish
  obtain ⟨_, hcourse⟩ := run_logged schedule cancel attempt world
  refine ⟨hcourse.paced.length_le, hcourse.paced, ?_, ?_⟩
  · rintro rfl
    exact hcourse.ending.of_none hdelays
  · rintro moment rfl
    refine ⟨?_, ?_, ?_⟩
    · intro a ha
      have hstart := hcourse.starts a ha
      exact Nat.lt_of_not_le (of_decide_eq_false hstart)
    · intro a ha hdecides
      exact hcourse.ending.result_of_not_failed ha hdecides
    · intro hnever
      exact hcourse.ending.cancelled_iff hdelays hnever

/-- Attempts that always fail are made at once, after one second and after three more; cancellation
after a second and a half comes in the second wait. -/
theorem run_keeps_schedule_standard :
    let attempt : Action Unit Unit := Action.fail (.transport "timeout")
    let world : World Unit := ⟨(), ⟨[], Counters.empty, 0⟩⟩
    standard.delays ≠ [] ∧ (standard.run (some 1500) attempt world).1 = .error .cancelled ∧
      (standard.run (some 1500) attempt world).2.host.now = 1500 ∧
      Noticed (some 1500) 0 standard.delays (standard.made (some 1500) attempt world) ∧
      (standard.made (some 1500) attempt world).map Attempt.start = [0, 1000] ∧
      (standard.made none attempt world).map Attempt.start = [0, 1000, 4000, 9000] ∧
      ∃ before a, standard.made none attempt world = before ++ [a] ∧
        (standard.run none attempt world).1 = a.outcome := by
  intro attempt world
  have hdelays : standard.delays ≠ [] := by decide
  have hcancelled : (standard.run (some 1500) attempt world).1 = .error .cancelled := by
    decide +kernel
  have hnever : ∀ a ∈ standard.made (some 1500) attempt world, a.outcome ≠ .error .cancelled := by
    decide +kernel
  obtain ⟨_, _, _, hcancel⟩ := run_keeps_schedule standard (some 1500) attempt world hdelays
  obtain ⟨_, _, hiff⟩ := hcancel 1500 rfl
  obtain ⟨_, _, hnone, _⟩ := run_keeps_schedule standard none attempt world hdelays
  obtain ⟨before, a, hmade, _, hresult, _⟩ := hnone rfl
  exact ⟨hdelays, hcancelled, by decide +kernel, (hiff hnever).1 hcancelled, by decide +kernel,
    by decide +kernel, before, a, hmade, hresult⟩

end Schedule

end Telemetry
