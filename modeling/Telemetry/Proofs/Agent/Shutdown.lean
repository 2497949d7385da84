import Telemetry.Proofs.Agent.Pool

/-!
# A pool that is closed returns

Every move of the work that there is takes away from `movesLeft`, so that only so many can come
between two reports. And a closed pool is never stuck: some worker can always move until all are
gone. Hence it returns however its workers take turns, if only every attempt is answered. `Pool.run`
takes turns in one such order: what is proved of all runs holds of it, and it has returned at its
end.
-/

namespace Telemetry.Agent

variable {σ : Type}

namespace Pool

variable {schedule : Schedule} {pool after last : Pool} {worker : Nat} {work : Worker} {move : Move}
  {moves : List Move} {deeds history : List Deed} {parcel : Parcel} {stage : Stage}
  {progress : Progress} {cancelled : Bool}

/-! ### The moves that are left -/

theorem allMovesLeft_append (front back : List Worker) :
    Worker.allMovesLeft (front ++ work :: back) =
      work.movesLeft + (Worker.allMovesLeft front + Worker.allMovesLeft back) := by
  induction front with
  | nil => exact congrArg _ (Nat.zero_add _).symm
  | cons first front ih =>
    simp only [List.cons_append, Worker.allMovesLeft, ih]
    omega

theorem allMovesLeft_set {workers : List Worker} (h : workers[worker]? = some work) :
    ∃ rest, Worker.allMovesLeft workers = work.movesLeft + rest ∧
      ∀ next : Worker, Worker.allMovesLeft (workers.set worker next) = next.movesLeft + rest := by
  obtain ⟨front, back, rfl, hworkers, hset⟩ := exists_eq_append h
  refine ⟨_, hworkers ▸ allMovesLeft_append front back, ?_⟩
  intro next
  rw [hset, allMovesLeft_append]

theorem Stage.Next.movesLeft_lt (h : stage.Next cancelled worker parcel deeds progress) :
    (progress.work parcel).movesLeft < (Worker.sending ⟨parcel, stage⟩).movesLeft := by
  cases h with
  | failed _ _ hstage =>
    obtain rfl | ⟨wake, rfl⟩ := hstage <;> simp [Progress.work, Worker.movesLeft]
  | _ =>
    simp only [Progress.work, Worker.movesLeft, List.length_cons]
    omega

theorem movesLeft_assign {next : Worker} (h : pool.workers[worker]? = some work)
    (hlt : next.movesLeft < work.movesLeft) :
    (pool.assign worker next).movesLeft schedule < pool.movesLeft schedule := by
  obtain ⟨rest, hbefore, hafter⟩ := allMovesLeft_set h
  simp only [movesLeft, assign, hbefore, hafter]
  omega

theorem Step.movesLeft_lt (h : Step schedule pool move deeds after) (hmove : move.works = true) :
    after.movesLeft schedule < pool.movesLeft schedule := by
  cases h with
  | report | stop | close => cases hmove
  | accept hoffered =>
    simp only [movesLeft, hoffered, List.length_append, List.length_cons, List.length_nil,
      Nat.add_one_mul]
    omega
  | lock hworker => exact movesLeft_assign hworker (by decide)
  | take hworker hqueue =>
    obtain ⟨rest, hbefore, hafter⟩ := allMovesLeft_set hworker
    simp only [movesLeft, carry_offered, carry_queue, carry_workers, hqueue, hbefore, hafter,
      List.length_cons, Nat.add_one_mul, Progress.work, Worker.movesLeft, Schedule.attempts]
    omega
  | leave hworker => exact movesLeft_assign hworker (by decide)
  | proceed _ hworker hnext =>
    obtain ⟨rest, hbefore, hafter⟩ := allMovesLeft_set hworker
    have hlt := Stage.Next.movesLeft_lt hnext
    simp only [movesLeft, carry_offered, carry_queue, carry_workers, hbefore, hafter]
    omega

/-- Only so many moves can come before the next report. -/
theorem length_add_movesLeft_le (hworks : ∀ move ∈ moves, move.works = true)
    (hrun : pool.follow? schedule moves = some (last, history)) :
    moves.length + last.movesLeft schedule ≤ pool.movesLeft schedule := by
  induction moves generalizing pool history with
  | nil =>
    cases hrun
    exact Nat.le_of_eq (Nat.zero_add _)
  | cons move moves ih =>
    obtain ⟨next, hnext, hrest⟩ := Option.bind_eq_some_iff.1 hrun
    obtain ⟨⟨_, later⟩, hlater, hlast⟩ := Option.map_eq_some_iff.1 hrest
    cases hlast
    obtain ⟨hfirst, hothers⟩ := List.forall_mem_cons.1 hworks
    have hlt := (step_of_move hnext).movesLeft_lt hfirst
    have hle := ih hothers hlater
    rw [List.length_cons]
    omega

/-! ### A closed pool is never stuck -/

theorem isSome_proceed? {next : Stage → Option Progress}
    (hworker : pool.workers[worker]? = some (.sending ⟨parcel, stage⟩)) :
    (pool.proceed? worker next).isSome = (next stage).isSome := by
  rw [proceed?, hworker]
  exact Option.isSome_map

theorem isSome_take?_or_leave? (hworker : pool.workers[worker]? = some .receiving)
    (hready : pool.queue ≠ [] ∨ pool.closed = true) :
    (if pool.queue.isEmpty then pool.leave? worker else pool.take? schedule worker).isSome := by
  cases hqueue : pool.queue with
  | nil =>
    have hclosed := hready.resolve_left (absurd hqueue)
    simp [leave?, hworker, hqueue, hclosed]
  | cons parcel queue => simp [take?, hworker, hqueue]

/-- As long as a closed pool has not returned, some move is possible. -/
theorem exists_move (schedule : Schedule) (hclosed : pool.closed = true) (h : ¬ pool.Returned) :
    ∃ move, move.works = true ∧ (pool.move? schedule move).isSome := by
  have hreceiving {worker : Nat} (hworker : pool.workers[worker]? = some .receiving) :
      ∃ move, move.works = true ∧ (pool.move? schedule move).isSome := by
    have hsome := @isSome_take?_or_leave? schedule _ _ hworker (.inr hclosed)
    split at hsome
    · exact ⟨.leave worker, rfl, hsome⟩
    · exact ⟨.take worker, rfl, hsome⟩
  obtain ⟨work, hmem, hwork⟩ : ∃ work ∈ pool.workers, work ≠ .gone := by
    by_contra hall
    push Not at hall
    exact h ⟨hclosed, hall⟩
  obtain ⟨worker, hworker⟩ := List.mem_iff_getElem?.1 hmem
  cases work with
  | gone => exact absurd rfl hwork
  | receiving => exact hreceiving hworker
  | idle =>
    by_cases hfree : .receiving ∈ pool.workers
    · obtain ⟨other, hother⟩ := List.mem_iff_getElem?.1 hfree
      exact hreceiving hother
    · exact ⟨.lock worker, rfl, by simp [move?, lock?, hworker, hfree]⟩
  | sending job =>
    obtain ⟨parcel, stage⟩ := job
    cases stage with
    | ready last delays =>
      refine ⟨.call worker, rfl, ?_⟩
      rw [move?, isSome_proceed? hworker]
      cases delays <;> rfl
    | calling delay delays =>
      refine ⟨.answer worker 0 (.ok ()), rfl, ?_⟩
      rw [move?, isSome_proceed? hworker]
      rfl
    | waiting wake last delays =>
      refine ⟨.wake worker, rfl, ?_⟩
      rw [move?, isSome_proceed? hworker]
      rfl

theorem Step.closed (h : Step schedule pool move deeds after) (hclosed : pool.closed = true) :
    after.closed = true := by
  cases h with
  | close => rfl
  | take => rwa [carry_closed]
  | proceed => rwa [carry_closed]
  | _ => exact hclosed

theorem follow_closed (hclosed : pool.closed = true)
    (hrun : pool.follow? schedule moves = some (last, history)) : last.closed = true := by
  apply @follow_invariant _ _ _ (fun pool _ => pool.closed = true) ?_ _ [] _ hclosed hrun
  exact fun _ _ _ _ _ h hstep => hstep.closed h

theorem follow_stopping (hstopping : pool.stopping = true)
    (hrun : pool.follow? schedule moves = some (last, history)) : last.stopping = true := by
  apply @follow_invariant _ _ _ (fun pool _ => pool.stopping = true) ?_ _ [] _ hstopping hrun
  exact fun _ _ _ _ _ h hstep => hstep.stopping.2 (.inl h)

/-- **A pool that is closed returns.** However its workers take turns, only so many moves can come,
and as long as the pool has not returned there is a next one. -/
theorem returns (hclosed : pool.closed = true) (hworks : ∀ move ∈ moves, move.works = true)
    (hrun : pool.follow? schedule moves = some (last, history)) :
    moves.length ≤ pool.movesLeft schedule ∧
      (last.Returned ∨ ∃ move, move.works = true ∧ (last.move? schedule move).isSome) := by
  have hlast := follow_closed hclosed hrun
  refine ⟨Nat.le_of_add_right_le (length_add_movesLeft_le hworks hrun), ?_⟩
  by_cases h : last.Returned
  · exact .inl h
  · exact .inr (exists_move schedule hlast h)

/-! ### The order in which everything happens as soon as it can -/

/-- Moves lead from a pool to another. -/
def Reaches (schedule : Schedule) (pool last : Pool) : Prop :=
  ∃ moves history, pool.follow? schedule moves = some (last, history)

theorem Reaches.refl (schedule : Schedule) (pool : Pool) : Reaches schedule pool pool :=
  ⟨[], [], rfl⟩

theorem Reaches.trans (hfirst : Reaches schedule pool after) (hrest : Reaches schedule after last) :
    Reaches schedule pool last := by
  obtain ⟨moves, history, hrun⟩ := hfirst
  obtain ⟨more, later, hmore⟩ := hrest
  refine ⟨moves ++ more, history ++ later, ?_⟩
  induction moves generalizing pool history with
  | nil =>
    cases hrun
    exact hmore
  | cons move moves ih =>
    obtain ⟨next, hnext, hrest⟩ := Option.bind_eq_some_iff.1 hrun
    obtain ⟨⟨_, past⟩, hpast, hlast⟩ := Option.map_eq_some_iff.1 hrest
    cases hlast
    rw [List.cons_append, follow?, hnext, Option.bind_some, ih past hpast, Option.map_some,
      List.append_assoc]

theorem reaches_of_move (h : pool.move? schedule move = some after) : Reaches schedule pool after :=
  ⟨[move], _, by rw [follow?, h]; rfl⟩

theorem reaches_getD (schedule : Schedule) (pool : Pool) (move : Move) :
    Reaches schedule pool ((pool.move? schedule move).getD pool) := by
  cases h : pool.move? schedule move with
  | none => exact .refl schedule pool
  | some after => exact reaches_of_move h

variable {sender : Sender σ} {now : Nat} {world later : World σ}

theorem works_turn (work : Worker) : (pool.turn sender now worker world work).1.works = true := by
  unfold turn
  split
  · rfl
  · split <;> rfl
  · rfl
  · split <;> rfl

theorem works_pause : pool.pause.works = true := by
  unfold pause
  split
  · split <;> rfl
  · rfl

theorem works_next : (pool.next sender now world).1.works = true := by
  unfold next
  split
  · exact works_turn _
  · exact works_pause

theorem move_of_step (h : pool.step? sender now world = some (after, later)) :
    ∃ move, move.works = true ∧ pool.move? sender.schedule move = some after := by
  obtain ⟨_, hmove, hafter⟩ := Option.map_eq_some_iff.1 h
  cases hafter
  exact ⟨_, works_next, hmove⟩

theorem reaches_settleFor (steps : Nat) (pool : Pool) (world : World σ) :
    Reaches sender.schedule pool (pool.settleFor sender now steps world).1 := by
  induction steps generalizing pool world with
  | zero => exact .refl _ pool
  | succ steps ih =>
    rw [settleFor]
    split
    next after later hstep =>
      obtain ⟨move, -, hmove⟩ := move_of_step hstep
      exact (reaches_of_move hmove).trans (ih after later)
    next => exact .refl _ pool

/-- Everything that can happen at a time does: the bound on the moves is no limit. -/
theorem settleFor_stuck (steps : Nat) (pool : Pool) (world : World σ)
    (hsteps : pool.movesLeft sender.schedule ≤ steps) :
    (pool.settleFor sender now steps world).1.step? sender now
      (pool.settleFor sender now steps world).2 = none := by
  induction steps generalizing pool world with
  | zero =>
    rw [settleFor]
    cases hstep : pool.step? sender now world with
    | none => rfl
    | some result =>
      obtain ⟨move, hworks, hmove⟩ := move_of_step hstep
      have hlt := (step_of_move hmove).movesLeft_lt hworks
      omega
  | succ steps ih =>
    rw [settleFor]
    split
    next after later hstep =>
      obtain ⟨move, hworks, hmove⟩ := move_of_step hstep
      have hlt := (step_of_move hmove).movesLeft_lt hworks
      exact ih after later (by omega)
    next hstep => exact hstep

theorem isSome_turn (sender : Sender σ) (world : World σ)
    (hworker : pool.workers[worker]? = some work) (hproceeds : pool.canProceed now work = true) :
    (pool.move? sender.schedule (pool.turn sender now worker world work).1).isSome := by
  cases work with
  | idle => cases hproceeds
  | gone => cases hproceeds
  | receiving =>
    have hready : pool.queue ≠ [] ∨ pool.closed = true := by
      simpa [canProceed] using hproceeds
    have hsome := @isSome_take?_or_leave? sender.schedule _ _ hworker hready
    simp only [turn]
    split at hsome
    next hqueue => rwa [if_pos hqueue]
    next hqueue => rwa [if_neg hqueue]
  | sending job =>
    obtain ⟨parcel, stage⟩ := job
    cases stage with
    | ready last delays =>
      simp only [turn, move?, isSome_proceed? hworker]
      cases delays <;> rfl
    | calling delay delays =>
      simp only [turn, move?, isSome_proceed? hworker]
      rfl
    | waiting wake last delays =>
      by_cases hstopping : pool.stopping = true
      · simp only [turn, if_pos hstopping, move?, isSome_proceed? hworker]
        simp [Stage.giveUp?, hstopping]
      · simp only [turn, if_neg hstopping, move?, isSome_proceed? hworker]
        rfl

theorem returned_of_stuck (hclosed : pool.closed = true) (hstopping : pool.stopping = true)
    (h : pool.step? sender now world = none) : pool.Returned := by
  have hnone : pool.move? sender.schedule (pool.next sender now world).1 = none :=
    Option.map_eq_none_iff.1 h
  unfold next at hnone
  split at hnone
  next worker hfound =>
    obtain ⟨hlt, hproceeds, -⟩ := List.findIdx?_eq_some_iff_getElem.1 hfound
    have hworker : pool.workers[worker]? = some pool.workers[worker] := List.getElem?_eq_getElem hlt
    have hsome := isSome_turn sender world hworker hproceeds
    rw [List.getD_eq_getElem?_getD, hworker, Option.getD_some] at hnone
    rw [hnone] at hsome
    cases hsome
  next hnobody =>
    rw [List.findIdx?_eq_none_iff] at hnobody
    have hfree : .receiving ∉ pool.workers := by
      intro hmem
      have hproceeds := hnobody _ hmem
      rw [canProceed, hclosed, Bool.or_true] at hproceeds
      cases hproceeds
    cases hidle : pool.workers.findIdx? (· = .idle) with
    | some worker =>
      obtain ⟨hlt, hwork, -⟩ := List.findIdx?_eq_some_iff_getElem.1 hidle
      have hworker : pool.workers[worker]? = some .idle := by
        rw [List.getElem?_eq_getElem hlt, of_decide_eq_true hwork]
      simp [pause, hidle, hclosed, move?, lock?, hworker, hfree] at hnone
    | none =>
      rw [List.findIdx?_eq_none_iff] at hidle
      refine ⟨hclosed, ?_⟩
      intro work hwork
      have hwaits := hnobody work hwork
      cases work with
      | idle => cases hidle _ hwork
      | receiving => exact absurd hwork hfree
      | sending job =>
        obtain ⟨parcel, stage⟩ := job
        cases stage <;> simp [canProceed, hstopping] at hwaits
      | gone => rfl

theorem reaches_settle (h : pool.settle sender now world = (after, later)) :
    Reaches sender.schedule pool after := by
  have hreaches : Reaches sender.schedule pool (pool.settle sender now world).1 :=
    reaches_settleFor _ pool world
  rwa [h] at hreaches

theorem reaches_runFrom (sender : Sender σ) (now : Nat) (ticker : Ticker) (pool : Pool)
    (world : World σ) :
    Reaches sender.schedule pool (pool.runFrom sender now ticker world).1 := by
  induction now, ticker, pool, world using runFrom.induct sender with
  | case1 now ticker pool world settled later hsettle hdue reported ih =>
    have hsettled : Reaches sender.schedule pool settled := reaches_settle hsettle
    rw [runFrom, hsettle]
    dsimp only
    rw [if_pos hdue]
    exact (hsettled.trans (reaches_getD _ _ _)).trans ih
  | case2 now ticker pool world settled later hsettle hdue next hnext ih =>
    have hsettled : Reaches sender.schedule pool settled := reaches_settle hsettle
    rw [runFrom, hsettle]
    dsimp only
    rw [if_neg hdue, if_pos hnext]
    exact hsettled.trans ih
  | case3 now ticker pool world settled later hsettle hdue next hnext =>
    have hsettled : Reaches sender.schedule pool settled := reaches_settle hsettle
    rw [runFrom, hsettle]
    dsimp only
    rw [if_neg hdue, if_neg hnext]
    exact hsettled

theorem reaches_halt (sender : Sender σ) (pool : Pool) (world : World σ) :
    Reaches sender.schedule pool (pool.halt sender world).1 ∧
      (pool.halt sender world).1.Returned := by
  set closed : Pool := { pool with offered := [], stopping := true, closed := true } with hdef
  have hclosing : Reaches sender.schedule pool closed :=
    (reaches_getD _ pool .stop).trans (reaches_getD _ { pool with stopping := true } .close)
  have hhalt : pool.halt sender world = closed.settle sender sender.stop world := rfl
  rw [hhalt]
  have hsettled : Reaches sender.schedule closed (closed.settle sender sender.stop world).1 :=
    reaches_settle rfl
  obtain ⟨moves, history, hrun⟩ := hsettled
  refine ⟨hclosing.trans ⟨moves, history, hrun⟩, ?_⟩
  apply returned_of_stuck (follow_closed rfl hrun) (follow_stopping rfl hrun)
  exact settleFor_stuck _ closed world (Nat.le_refl _)

/-- **The pool that runs has returned at its end**, after moves that a pool can make. -/
theorem run_returns (sender : Sender σ) (workers : Nat) (ticker : Ticker) (world : World σ) :
    Reaches sender.schedule (start workers) (run sender workers ticker world).1 ∧
      (run sender workers ticker world).1.Returned := by
  have hrun := reaches_runFrom sender world.host.now ticker (start workers) world
  obtain ⟨hhalt, hreturned⟩ := reaches_halt sender
    ((start workers).runFrom sender world.host.now ticker world).1
    ((start workers).runFrom sender world.host.now ticker world).2
  exact ⟨hrun.trans hhalt, hreturned⟩

end Pool

end Telemetry.Agent
