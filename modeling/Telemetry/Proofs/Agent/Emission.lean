import Telemetry.Agent.Collector

/-!
# What a collector emits

A collector reads its source tick by tick and puts the events of a tick into its queue one by one; it
goes on to the next tick when all of them are there, and it may be cancelled at any moment. So what it
has put into its queue and what it still has to put there are the events of the ticks so far. The queue
holds back a collector that is ahead of its reader, and the reader looks only at certain times; neither
changes what is emitted, and a reader that finds the queue closed has received all of it.
-/

namespace Telemetry.Agent

/-- What a collector has put into its queue after a number of ticks, and what it still has to put
there. A cancellation ends the run at any of these moments. -/
inductive Emits (source : Source) : Nat → List Sample → List Sample → Prop where
  | start : Emits source 0 [] []
  | tick {ticks : Nat} {emitted : List Sample} (h : Emits source ticks emitted []) :
    Emits source (ticks + 1) emitted (source.events ticks)
  | send {ticks : Nat} {emitted pending : List Sample} {event : Sample}
    (h : Emits source ticks emitted (event :: pending)) :
    Emits source ticks (emitted ++ [event]) pending

variable {source : Source} {ticks : Nat} {emitted pending : List Sample}

theorem Source.eventsUpTo_succ (source : Source) (ticks : Nat) :
    source.eventsUpTo (ticks + 1) = source.eventsUpTo ticks ++ source.events ticks := by
  rw [eventsUpTo, List.range_succ, List.flatMap_append, List.flatMap_singleton, eventsUpTo]

/-- Nothing is lost or made up between the source and the queue. -/
theorem Emits.eventsUpTo (h : Emits source ticks emitted pending) :
    emitted ++ pending = source.eventsUpTo ticks := by
  induction h with
  | start => rfl
  | tick _ ih => rw [Source.eventsUpTo_succ, ← ih, List.append_nil]
  | send _ ih => rw [← ih, List.append_assoc, List.singleton_append]

theorem Emits.mem (h : Emits source ticks emitted pending) {event : Sample}
    (hevent : event ∈ emitted) : ∃ tick, event ∈ source.events tick := by
  have hall : event ∈ source.eventsUpTo ticks := h.eventsUpTo ▸ List.mem_append_left pending hevent
  obtain ⟨tick, -, htick⟩ := List.mem_flatMap.1 hall
  exact ⟨tick, htick⟩

theorem Emits.sendAll {events : List Sample} (h : Emits source ticks emitted (events ++ pending)) :
    Emits source ticks (emitted ++ events) pending := by
  induction events generalizing emitted with
  | nil => rwa [List.append_nil]
  | cons event events ih =>
    have hrest := ih (Emits.send h)
    rwa [List.append_assoc, List.singleton_append] at hrest

/-! ### Collectors with queues of bounded length -/

/-- What was taken from the queue of a collector and what is in it have been emitted; what is pending
is still to be emitted, unless the collector was stopped. -/
def Collector.Emitted (source : Source) (collector : Collector) (taken : List Sample) : Prop :=
  ∃ pending, Emits source collector.ticks (taken ++ collector.queue) pending ∧
    (collector.pending = pending ∨ collector.isOpen = false ∧ collector.pending = [])

namespace Collector.Emitted

variable {collector : Collector} {taken : List Sample}

theorem start (source : Source) (ticker : Ticker) :
    (Collector.start ticker).Emitted source [] := ⟨[], .start, .inl rfl⟩

theorem fill (h : collector.Emitted source taken) : collector.fill.Emitted source taken := by
  obtain ⟨pending, hemits, rfl | ⟨hclosed, hnone⟩⟩ := h
  · generalize hroom : queueCapacity - collector.queue.length = room
    refine ⟨collector.pending.drop room, ?_, .inl ?_⟩
    · rw [← List.take_append_drop room collector.pending] at hemits
      have hsent := hemits.sendAll
      rw [List.append_assoc] at hsent
      rw [Collector.fill, hroom]
      exact hsent
    · rw [Collector.fill, hroom]
  · have hfill : collector.fill = collector := by
      rw [Collector.fill, hnone, List.drop_nil, List.take_nil, List.append_nil, ← hnone]
    rw [hfill]
    exact ⟨pending, hemits, .inr ⟨hclosed, hnone⟩⟩

theorem tick (h : collector.Emitted source taken) (hopen : collector.isOpen = true)
    (hnone : collector.pending = []) (now : Nat) :
    (collector.tick source now).Emitted source taken := by
  obtain ⟨pending, hemits, rfl | ⟨hclosed, -⟩⟩ := h
  · rw [hnone] at hemits
    exact ⟨source.events collector.ticks, hemits.tick, .inl rfl⟩
  · rw [hopen] at hclosed
    cases hclosed

theorem stop (h : collector.Emitted source taken) : collector.stop.Emitted source taken := by
  obtain ⟨pending, hemits, -⟩ := h
  exact ⟨pending, hemits, .inr ⟨rfl, rfl⟩⟩

theorem advance (h : collector.Emitted source taken) (cancel : Cancellation) (target : Nat) :
    (collector.advance source cancel target).Emitted source taken := by
  fun_induction Collector.advance source cancel target collector with
  | case1 collector filled hclosed => exact h.fill
  | case2 collector filled hopen hnext ih =>
    have hisOpen : filled.isOpen = true := by simpa using hopen
    exact ih (h.fill.tick hisOpen hnext.1 _)
  | case3 collector filled hopen hnext hreached => exact h.fill.stop
  | case4 collector filled hopen hnext hreached => exact h.fill

theorem take {event : Sample} {rest : List Sample} (h : collector.Emitted source taken)
    (hqueue : collector.queue = event :: rest) (now : Nat) :
    (collector.take now rest).Emitted source (taken ++ [event]) := by
  obtain ⟨pending, hemits, hpending⟩ := h
  refine ⟨pending, ?_, hpending⟩
  rw [hqueue] at hemits
  rw [List.append_assoc, List.singleton_append]
  exact hemits

end Collector.Emitted

/-! ### Readers of a queue -/

def eventsIn (received : List (Nat × Received)) : List Sample := received.filterMap fun p =>
  match p.2 with
  | .event event => some event
  | .closed => none

theorem eventsIn_append (received more : List (Nat × Received)) :
    eventsIn (received ++ more) = eventsIn received ++ eventsIn more := List.filterMap_append

/-- What was received is what was taken, and a queue that was found closed is empty. -/
def Delivers (source : Source) (collector : Collector) (taken : List Sample)
    (received : List (Nat × Received)) : Prop :=
  collector.Emitted source (taken ++ eventsIn received) ∧
    (endsClosed received = true → collector.queue = [])

theorem Delivers.nothing {collector : Collector} {taken : List Sample}
    (h : collector.Emitted source taken) : Delivers source collector taken [] :=
  ⟨(List.append_nil taken).symm ▸ h, nofun⟩

theorem receive_delivers {collector : Collector} {taken : List Sample}
    (h : collector.Emitted source taken) (cancel : Cancellation) (last limit now : Nat) :
    Delivers source (receive source cancel last limit now collector).2.2 taken
      (receive source cancel last limit now collector).1 := by
  fun_induction receive source cancel last limit now collector generalizing taken with
  | case1 limit now collector _ current event rest hqueue received after hrest =>
    rename_i ih
    obtain ⟨hemitted, hclosed⟩ := ih ((h.advance cancel now).take hqueue now)
    rw [hrest, List.append_assoc] at hemitted
    rw [hrest] at hclosed
    exact ⟨hemitted, hclosed⟩
  | case2 limit now collector _ current hqueue =>
    refine ⟨?_, fun _ => hqueue⟩
    show current.Emitted source (taken ++ [])
    rw [List.append_nil]
    exact h.advance cancel now
  | case3 limit now collector =>
    rename_i ih
    exact ih (h.advance cancel now)
  | case4 limit now collector => exact .nothing (h.advance cancel now)
  | case5 => exact .nothing h

theorem readWindows_delivers {collector : Collector} {taken : List Sample}
    (h : collector.Emitted source taken) (cancel : Cancellation) (now : Nat)
    (windows : List Window) :
    ∃ last, Delivers source last taken (readWindows source cancel now collector windows) := by
  induction windows generalizing now collector taken with
  | nil => exact ⟨collector, .nothing h⟩
  | cons window windows ih =>
    have hreceive := receive_delivers h cancel window.last window.limit (max now window.first)
    rw [readWindows]
    generalize receive source cancel window.last window.limit (max now window.first) collector
      = outcome at hreceive
    obtain ⟨received, after, middle⟩ := outcome
    dsimp only at hreceive ⊢
    cases hclosed : endsClosed received with
    | true => exact ⟨middle, hreceive⟩
    | false =>
      obtain ⟨last, hemitted, hlast⟩ := ih hreceive.1 after
      refine ⟨last, ?_, ?_⟩
      · rw [List.append_assoc, ← eventsIn_append] at hemitted
        exact hemitted
      · rw [if_neg Bool.false_ne_true, endsClosed, List.any_append, ← endsClosed, hclosed,
          Bool.false_or]
        exact hlast

/-- Whoever reads the queue of a collector receives what the collector has emitted, from its first event
on, and all of it once the queue was found closed. -/
theorem emits_readWindows (source : Source) (ticker : Ticker) (cancel : Cancellation)
    (windows : List Window) :
    let received := readWindows source cancel 0 (Collector.start ticker) windows
    ∃ ticks pending left, Emits source ticks (eventsIn received ++ left) pending ∧
      (endsClosed received = true → left = []) := by
  obtain ⟨last, ⟨pending, hemits, -⟩, hclosed⟩ :=
    readWindows_delivers (.start source ticker) cancel 0 windows
  exact ⟨last.ticks, pending, last.queue, hemits, hclosed⟩

end Telemetry.Agent
