/-!
# Interleaved calls

Calls that are in progress at one time share a world, and a schedule says which of them takes its next
step. A call is known by the stage it has reached, and a step is a function of the stage and of the
world. What is said of every schedule is proved of one step: a property of the calls, the world and
the notes that were taken of the steps so far is carried along a run when each step carries it.
-/

namespace Telemetry

/-- Calls in progress, and the world that they share. -/
structure Scene (κ ω : Type) where
  calls : List κ
  world : ω

namespace Scene

variable {κ ω γ : Type} (step : κ → ω → κ × ω)

/-- One of the calls takes its next step. -/
def advance (scene : Scene κ ω) (i : Nat) : Scene κ ω :=
  match scene.calls[i]? with
  | none => scene
  | some call => ⟨scene.calls.set i (step call scene.world).1, (step call scene.world).2⟩

def run : Scene κ ω → List Nat → Scene κ ω
  | scene, [] => scene
  | scene, i :: schedule => run (scene.advance step i) schedule

def notes (note : Nat → κ → ω → List γ) : Scene κ ω → List Nat → List γ
  | _, [] => []
  | scene, i :: schedule => (match scene.calls[i]? with
    | none => []
    | some call => note i call scene.world) ++ notes note (scene.advance step i) schedule

variable {step} {note : Nat → κ → ω → List γ} {scene : Scene κ ω}

theorem advance_of_none {i : Nat} (h : scene.calls[i]? = none) : scene.advance step i = scene := by
  rw [advance, h]

theorem advance_of_some {i : Nat} {call : κ} (h : scene.calls[i]? = some call) :
    scene.advance step i
      = ⟨scene.calls.set i (step call scene.world).1, (step call scene.world).2⟩ := by
  rw [advance, h]

theorem run_append (scene : Scene κ ω) (earlier later : List Nat) :
    scene.run step (earlier ++ later) = (scene.run step earlier).run step later := by
  induction earlier generalizing scene with
  | nil => rfl
  | cons i earlier ih => exact ih _

theorem notes_append (scene : Scene κ ω) (earlier later : List Nat) :
    scene.notes step note (earlier ++ later)
      = scene.notes step note earlier ++ (scene.run step earlier).notes step note later := by
  induction earlier generalizing scene with
  | nil => rfl
  | cons i earlier ih => rw [List.cons_append, notes, notes, ih, run, List.append_assoc]

theorem mem_notes {schedule : List Nat} {a : γ} (h : a ∈ scene.notes step note schedule) :
    ∃ earlier i later call, schedule = earlier ++ i :: later ∧
      (scene.run step earlier).calls[i]? = some call ∧
      a ∈ note i call (scene.run step earlier).world := by
  induction schedule generalizing scene with
  | nil => cases h
  | cons i schedule ih =>
    rw [notes, List.mem_append] at h
    rcases h with h | h
    · cases hcall : scene.calls[i]? with
      | none =>
        rw [hcall] at h
        cases h
      | some call =>
        rw [hcall] at h
        exact ⟨[], i, schedule, call, rfl, hcall, h⟩
    · obtain ⟨earlier, j, later, call, rfl, hcall, hmem⟩ := ih h
      exact ⟨i :: earlier, j, later, call, rfl, hcall, hmem⟩

theorem run_invariant {P : Scene κ ω → List γ → Prop}
    (hstep : ∀ scene seen i call, P scene seen → scene.calls[i]? = some call →
      P ⟨scene.calls.set i (step call scene.world).1, (step call scene.world).2⟩
        (seen ++ note i call scene.world))
    {seen : List γ} (h : P scene seen) (schedule : List Nat) :
    P (scene.run step schedule) (seen ++ scene.notes step note schedule) := by
  induction schedule generalizing scene seen with
  | nil =>
    rw [notes, List.append_nil]
    exact h
  | cons i schedule ih =>
    rw [run, notes, ← List.append_assoc]
    apply ih
    cases hcall : scene.calls[i]? with
    | none =>
      rw [advance_of_none hcall, List.append_nil]
      exact h
    | some call =>
      rw [advance_of_some hcall]
      exact hstep scene seen i call h hcall

/-- What no step changes of a call and its world, a run of the call alone does not change either. -/
theorem run_alone {δ : Type} {f : κ → ω → δ}
    (hstep : ∀ call world, f (step call world).1 (step call world).2 = f call world)
    {call last : κ} {world after : ω} {schedule : List Nat}
    (hrun : (⟨[call], world⟩ : Scene κ ω).run step schedule = ⟨[last], after⟩) :
    f last after = f call world := by
  induction schedule generalizing call world with
  | nil =>
    cases hrun
    rfl
  | cons i schedule ih =>
    rw [run] at hrun
    cases i with
    | zero =>
      rw [advance_of_some rfl] at hrun
      exact (ih hrun).trans (hstep call world)
    | succ i =>
      rw [advance_of_none rfl] at hrun
      exact ih hrun

/-! ### One call of many -/

variable {calls : List κ} {i : Nat} {call : κ}

theorem getElem?_set_of_some (hcall : calls[i]? = some call) (after : κ) :
    (calls.set i after)[i]? = some after := by
  rw [List.getElem?_set_self', hcall]
  rfl

theorem mem_set_self (hcall : calls[i]? = some call) (after : κ) : after ∈ calls.set i after :=
  List.mem_of_getElem? (getElem?_set_of_some hcall after)

theorem exists_mem_set (hcall : calls[i]? = some call) {P : κ → Prop} {after : κ}
    (h : ∃ other ∈ calls, P other) (hafter : P call → P after) :
    ∃ other ∈ calls.set i after, P other := by
  obtain ⟨other, hmem, hother⟩ := h
  obtain ⟨j, hj⟩ := List.mem_iff_getElem?.1 hmem
  by_cases hij : i = j
  · subst hij
    cases hcall.symm.trans hj
    exact ⟨after, mem_set_self hcall after, hafter hother⟩
  · rw [← List.getElem?_set_ne hij] at hj
    exact ⟨other, List.mem_of_getElem? hj, hother⟩

theorem forall_mem_set {P : κ → Prop} {after : κ} (h : ∀ other ∈ calls, P other) (hafter : P after) :
    ∀ other ∈ calls.set i after, P other := by
  intro other hmem
  obtain hmem | rfl := List.mem_or_eq_of_mem_set hmem
  · exact h other hmem
  · exact hafter

/-- A step moves one call among those that are counted or out of them. -/
theorem countP_set (p : κ → Bool) (hcall : calls[i]? = some call) (after : κ) :
    (calls.set i after).countP p + (p call).toNat = calls.countP p + (p after).toNat := by
  induction calls generalizing i with
  | nil => cases hcall
  | cons first rest ih =>
    cases i with
    | zero =>
      cases hcall
      rw [List.set_cons_zero, List.countP_cons, List.countP_cons]
      cases p call <;> cases p after <;> simp
    | succ i =>
      rw [List.set_cons_succ, List.countP_cons, List.countP_cons]
      have hrest := ih hcall
      omega

theorem forall_set {P : Nat → κ → Prop} (hcall : calls[i]? = some call) {after : κ}
    (hhere : P i after) (hothers : ∀ j other, i ≠ j → calls[j]? = some other → P j other) :
    ∀ j other, (calls.set i after)[j]? = some other → P j other := by
  intro j other hother
  by_cases hij : i = j
  · subst hij
    rw [getElem?_set_of_some hcall] at hother
    cases hother
    exact hhere
  · rw [List.getElem?_set_ne hij] at hother
    exact hothers j other hij hother

theorem mem_set_of_fixed (hcall : calls[i]? = some call) {other after : κ} (hmem : other ∈ calls)
    (hfixed : call = other → after = other) : other ∈ calls.set i after := by
  obtain ⟨j, hj⟩ := List.mem_iff_getElem?.1 hmem
  rw [List.mem_iff_getElem?]
  refine ⟨j, ?_⟩
  by_cases hij : i = j
  · subst hij
    rw [hcall, Option.some.injEq] at hj
    rw [getElem?_set_of_some hcall, hfixed hj]
  · rw [List.getElem?_set_ne hij]
    exact hj

end Scene

end Telemetry
