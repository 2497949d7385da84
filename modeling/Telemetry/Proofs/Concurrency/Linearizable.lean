import Mathlib.Data.List.Nodup
import Telemetry.Proofs.Concurrency.SqlCalls

/-!
# Updates of a database are linearizable

An update is decided by the statement that writes, or by the look-up when that refuses it. Whatever a
call has read before, its statement does to the table what the whole update would do at that moment:
the statement that inserts a record adds to a row that has come to be there, and no row ever goes or
changes its kind. So calls in progress together leave the table, and give the results, of the same
calls done one after the other in the order in which they are decided.
-/

namespace Telemetry

open Service

/-- Every name that is stored is stored with a value of the same kind. -/
def Contents.Persists (earlier later : Contents) : Prop :=
  ∀ name stored, earlier name = some stored →
    ∃ stored', later name = some stored' ∧ stored'.kind = stored.kind

theorem Contents.Persists.refl (c : Contents) : c.Persists c :=
  fun _ stored hstored => ⟨stored, hstored, rfl⟩

theorem Contents.persists_write (m : Medium) (c : Contents) (record : Record) :
    c.Persists (c.write m record).2 := by
  rw [write]
  cases hnext : m.next record (c record.name) with
  | error failure => exact .refl c
  | ok value =>
    intro name stored hstored
    by_cases hname : name = record.name
    · subst hname
      rw [hstored] at hnext
      exact ⟨value, set_self c record.name value, (Medium.kind_next hnext).2⟩
    · exact ⟨stored, (set_of_ne c value hname).trans hstored, rfl⟩

namespace SqlStore

variable {world : World SqlStore} {c : Contents} {record : Record}

/-! ### One statement -/

theorem write_apply (hopen : world.store.isOpen = true) (operation : DatabaseOperation)
    (statement : Database → Except DatabaseFault (Bool × Database)) :
    Stage.write operation statement world = execute operation statement world := by
  rw [Stage.write, Action.bind_apply, requireOpen_apply hopen]

/-! ### One whole update -/

/-- What an update gives and leaves, apart from the surroundings of the store. -/
def Yields (outcome : Except Failure Unit × World SqlStore) (result : Except Failure Unit)
    (store : SqlStore) : Prop :=
  outcome.1 = result ∧ outcome.2.store = store

theorem yields_countIf {action : Action SqlStore Unit} {result : Except Failure Unit}
    {store : SqlStore} (h : Yields (action world) result store) (counts : Bool) (kind : Kind) :
    Yields ((do action; Stage.countIf counts kind : Action SqlStore Unit) world) result store := by
  rw [Action.bind_apply]
  obtain ⟨rfl, rfl⟩ := h
  rcases action world with ⟨failure | ⟨⟨⟩⟩, after⟩
  · exact ⟨rfl, rfl⟩
  · cases counts <;> exact ⟨rfl, rfl⟩

theorem yields_diagnosed (h : world.store.Shows c) (hfinite : record.value.isFinite = true)
    (operation : DatabaseOperation) {statement : Database → Except DatabaseFault (Bool × Database)}
    (hsame : statement world.store.database = Database.upsert record world.store.database) :
    Yields ((do
        requireOpen .acquire
        Stage.diagnosed record.name record.kind (execute operation statement)
          : Action SqlStore Unit) world)
      (c.write .table record).1 (upserted record world.store) := by
  rw [Action.bind_apply, requireOpen_apply h.isOpen]
  exact h.diagnosed_apply hfinite operation hsame

theorem Call.isFinite_record {call : Call} (h : call.record = .ok record) :
    record.value.isFinite = true := by
  cases call with
  | upsert sample => exact (Sample.toRecord_ok h).2.2.2
  | text kind name raw => exact (Update.recordOfText_ok h).2.2

/-- A whole update gives the result of writing its record to the contents, and leaves the store that
its statement leaves. -/
theorem Call.yields (h : world.store.Shows c) {call : Call} (hrecord : call.record = .ok record) :
    Yields (call.perform world) (c.write .table record).1 (upserted record world.store) := by
  have hfinite := Call.isFinite_record hrecord
  rw [Stage.perform_call, hrecord, Action.ofResult_ok_bind, Action.bind_apply, faithful.get h]
  apply yields_countIf
  cases hstored : c record.name with
  | none =>
    simp only [Contents.record?, hstored, Option.map_none]
    exact yields_diagnosed h hfinite .insert rfl
  | some stored =>
    simp only [Contents.record?, hstored, Option.map_some]
    have hsame := (h.table.upsert_eq_update hstored).symm
    change Yields ((if stored.kind ≠ record.kind then
        Action.fail (.kindMismatch record.name stored.kind record.kind)
      else do
        requireOpen .acquire
        updateRow record.name record.value : Action SqlStore Unit) world) _ _
    by_cases hkind : stored.kind = record.kind
    · rw [if_neg (not_not_intro hkind)]
      exact yields_diagnosed h hfinite .update hsame
    · have hwrite := congrArg Prod.fst (Contents.write_mismatch .table hstored hkind)
      rw [if_pos hkind, hwrite, h.upserted_of_error hfinite hwrite]
      exact ⟨rfl, rfl⟩

theorem Call.yields_of_store_eq (h : world.store.Shows c) {call : Call}
    (hrecord : call.record = .ok record) (other : World SqlStore)
    (hother : other.store = world.store) :
    Yields (call.perform other) (c.write .table record).1 (upserted record world.store) := by
  rw [← hother] at h ⊢
  exact Call.yields h hrecord

/-! ### Calls in progress together and calls in turn -/

def start (calls : List Call) (world : World SqlStore) : Scene Stage (World SqlStore) :=
  ⟨calls.map .waiting, world⟩

def Stage.isDecided : Stage → Bool
  | .explaining _ _ => true
  | .finished _ => true
  | _ => false

/-- The call is noted at the step that decides it. -/
def decision (i : Nat) (stage : Stage) (world : World SqlStore) : List Nat :=
  if !stage.isDecided && (stage.step world).1.isDecided then [i] else []

def decisions (scene : Scene Stage (World SqlStore)) (schedule : List Nat) : List Nat :=
  scene.notes Stage.step decision schedule

def doNext (calls : List Call) (state : List (Nat × Except Failure Unit) × World SqlStore) (i : Nat) :
    List (Nat × Except Failure Unit) × World SqlStore :=
  match calls[i]? with
  | none => state
  | some call => (state.1 ++ [(i, (call.perform state.2).1)], (call.perform state.2).2)

/-- The results of calls that are done one after the other, and the world after them. -/
def inTurn (calls : List Call) (order : List Nat) (world : World SqlStore) :
    List (Nat × Except Failure Unit) × World SqlStore :=
  order.foldl (doNext calls) ([], world)

/-- How far a call has come in a store with these contents, when the calls of an order are decided and
have these results in turn. -/
inductive Reached (c : Contents) (order : List Nat) (results : List (Nat × Except Failure Unit))
    (i : Nat) (call : Call) : Stage → Prop where
  | waiting (hnew : i ∉ order) : Reached c order results i call (.waiting call)
  | creating (record : Record) (counts : Bool) (hnew : i ∉ order)
    (hrecord : call.record = .ok record) :
    Reached c order results i call (.creating record counts)
  | changing (existing : Record) (value : Value) (counts : Bool) (stored : Value) (hnew : i ∉ order)
    (hrecord : call.record = .ok ⟨existing.name, value⟩)
    (hstored : c existing.name = some stored) :
    Reached c order results i call (.changing existing value counts)
  | explaining (name : String) (kind : Kind) (stored : Value) (hold : i ∈ order)
    (hstored : c name = some stored)
    (hresult : (i, .error (diagnosis name stored.kind kind)) ∈ results) :
    Reached c order results i call (.explaining name kind)
  | finished (result : Except Failure Unit) (hold : i ∈ order) (hresult : (i, result) ∈ results) :
    Reached c order results i call (.finished result)

/-- Calls in progress are as far as the decided ones done in turn. -/
structure Linearized (calls : List Call) (initial : World SqlStore)
    (scene : Scene Stage (World SqlStore)) (order : List Nat) : Prop where
  nodup : order.Nodup
  bounded : ∀ i ∈ order, i < calls.length
  length : scene.calls.length = calls.length
  results : (inTurn calls order initial).1.map Prod.fst = order
  store : (inTurn calls order initial).2.store = scene.world.store
  reached : ∃ c, scene.world.store.Shows c ∧ ∀ i stage, scene.calls[i]? = some stage →
    ∃ call, calls[i]? = some call ∧
      Reached c order (inTurn calls order initial).1 i call stage

variable {order more : List Nat} {results later : List (Nat × Except Failure Unit)} {i : Nat}
  {call : Call} {stage : Stage}

/-- Contents that change, and other calls that are decided, leave a call where it is. -/
theorem Reached.mono {c' : Contents} (h : Reached c order results i call stage)
    (hpersists : c.Persists c') (hmore : i ∉ more) :
    Reached c' (order ++ more) (results ++ later) i call stage := by
  have hnot (hnew : i ∉ order) : i ∉ order ++ more := by
    rw [List.mem_append]
    exact not_or.2 ⟨hnew, hmore⟩
  cases h with
  | waiting hnew => exact .waiting (hnot hnew)
  | creating record counts hnew hrecord => exact .creating record counts (hnot hnew) hrecord
  | changing existing value counts stored hnew hrecord hstored =>
    obtain ⟨stored', hstored', _⟩ := hpersists existing.name stored hstored
    exact .changing existing value counts stored' (hnot hnew) hrecord hstored'
  | explaining name kind stored hold hstored hresult =>
    obtain ⟨stored', hstored', hkind⟩ := hpersists name stored hstored
    rw [← hkind] at hresult
    exact .explaining name kind stored' (List.mem_append_left _ hold) hstored'
      (List.mem_append_left _ hresult)
  | finished result hold hresult =>
    exact .finished result (List.mem_append_left _ hold) (List.mem_append_left _ hresult)

theorem Reached.not_mem (h : Reached c order results i call stage) (hstage : stage.isDecided = false) :
    i ∉ order := by
  cases h with
  | waiting hnew => exact hnew
  | creating record counts hnew => exact hnew
  | changing existing value counts stored hnew => exact hnew
  | explaining => cases hstage
  | finished => cases hstage

/-- A step decides its call: it leaves the store, and fixes the result, of the whole update. -/
structure Decides (c : Contents) (world : World SqlStore) (i : Nat) (call : Call)
    (next : Stage × World SqlStore) : Prop where
  decided : next.1.isDecided = true
  outcome : ∃ result c', next.2.store.Shows c' ∧ c.Persists c' ∧
    (∀ other : World SqlStore, other.store = world.store →
      Yields (call.perform other) result next.2.store) ∧
    ∀ order results, i ∈ order → (i, result) ∈ results → Reached c' order results i call next.1

theorem refused_decides (h : world.store.Shows c) (i : Nat) {failure : Failure}
    (hyields : ∀ other : World SqlStore, other.store = world.store →
      Yields (call.perform other) (.error failure) world.store) :
    Decides c world i call (.finished (.error failure), world) :=
  ⟨rfl, .error failure, c, h, .refl c, hyields,
    fun _ _ hold hresult => .finished (.error failure) hold hresult⟩

theorem wrote_decides (h : world.store.Shows c) (i : Nat) (hrecord : call.record = .ok record)
    (counts : Bool) (operation : DatabaseOperation)
    {statement : Database → Except DatabaseFault (Bool × Database)}
    (hsame : statement world.store.database = Database.upsert record world.store.database) :
    Decides c world i call
      (Stage.wrote record.name record.kind counts (Stage.write operation statement world)) := by
  obtain ⟨hwrote, hstore, hshows, _⟩ :=
    h.statement_apply (Call.isFinite_record hrecord) operation hsame
  have hyields := Call.yields_of_store_eq h hrecord
  have hpersists := Contents.persists_write .table c record
  rw [write_apply h.isOpen]
  generalize execute operation statement world = outcome at hwrote hstore
  obtain ⟨result, after⟩ := outcome
  change after.store = _ at hstore
  rw [← hstore] at hshows hyields
  cases hwrote with
  | done hwrite =>
    rw [hwrite] at hyields
    have hsameStore : (if counts then after.count (.updated record.kind) 1 else after).store
        = after.store := by cases counts <;> rfl
    refine ⟨rfl, .ok (), _, ?_, hpersists, ?_, fun _ _ hold hresult => .finished _ hold hresult⟩
    · simp only [Stage.wrote, hsameStore]
      exact hshows
    · simp only [Stage.wrote, hsameStore]
      exact hyields
  | refused failure hwrite =>
    rw [hwrite] at hyields
    exact ⟨rfl, .error failure, _, hshows, hpersists, hyields,
      fun _ _ hold hresult => .finished _ hold hresult⟩
  | untouched stored hstored hwrite =>
    rw [hwrite] at hyields
    exact ⟨rfl, _, _, hshows, hpersists, hyields,
      fun _ _ hold hresult => .explaining record.name record.kind stored hold hstored hresult⟩

/-- A step decides its call, or leaves the store and the decisions as they were. -/
theorem Reached.step (hreached : Reached c order results i call stage) (h : world.store.Shows c) :
    ((stage.step world).1.isDecided = stage.isDecided ∧ (stage.step world).2.store = world.store ∧
        Reached c order results i call (stage.step world).1) ∨
      stage.isDecided = false ∧ Decides c world i call (stage.step world) := by
  cases hreached with
  | waiting hnew =>
    cases hrecord : call.record with
    | error failure =>
      right
      simp only [Stage.step, hrecord]
      refine ⟨rfl, refused_decides h i fun other hother => ?_⟩
      rw [Stage.perform_call, hrecord]
      exact ⟨rfl, hother⟩
    | ok record =>
      simp only [Stage.step, hrecord, faithful.get h, Contents.record?]
      cases hstored : c record.name with
      | none => exact .inl ⟨rfl, rfl, .creating record call.isCounted hnew hrecord⟩
      | some stored =>
        simp only [Option.map_some, Stage.found]
        by_cases hkind : (⟨record.name, stored⟩ : Record).kind = record.kind
        · rw [if_neg (not_not_intro hkind)]
          exact .inl ⟨rfl, rfl, .changing ⟨record.name, stored⟩ record.value call.isCounted stored
            hnew hrecord hstored⟩
        · right
          rw [if_pos hkind]
          have hwrite := congrArg Prod.fst (Contents.write_mismatch .table hstored hkind)
          have hyields := Call.yields_of_store_eq h hrecord
          rw [hwrite, h.upserted_of_error (Call.isFinite_record hrecord) hwrite] at hyields
          exact ⟨rfl, refused_decides h i hyields⟩
  | creating record counts hnew hrecord =>
    -- The name may be stored by now; the statement then writes to its row.
    exact .inr ⟨rfl, wrote_decides h i hrecord counts .insert rfl⟩
  | changing existing value counts stored hnew hrecord hstored =>
    -- The name is still stored, but not with the value that the call has seen.
    have hstored' : c (⟨existing.name, value⟩ : Record).name = some stored := hstored
    have hsame := (h.table.upsert_eq_update hstored').symm
    exact .inr ⟨rfl, wrote_decides h i hrecord counts .update hsame⟩
  | explaining name kind stored hold hstored hresult =>
    have hstep : (Stage.explaining name kind).step world
        = (.finished (.error (diagnosis name stored.kind kind)), world) := by
      simp only [Stage.step, refuse_apply h.table hstored]
    rw [hstep]
    exact .inl ⟨rfl, rfl, .finished _ hold hresult⟩
  | finished result hold hresult => exact .inl ⟨rfl, rfl, .finished result hold hresult⟩

variable {calls : List Call} {initial : World SqlStore} {scene : Scene Stage (World SqlStore)}

theorem inTurn_append (hcall : calls[i]? = some call) (order : List Nat) (world : World SqlStore) :
    inTurn calls (order ++ [i]) world
      = ((inTurn calls order world).1 ++ [(i, (call.perform (inTurn calls order world).2).1)],
        (call.perform (inTurn calls order world).2).2) := by
  rw [inTurn, List.foldl_append]
  simp only [List.foldl_cons, List.foldl_nil, doNext, hcall]
  rfl

theorem Linearized.start (hshows : initial.store.Shows c) (calls : List Call) :
    Linearized calls initial (start calls initial) [] := by
  refine ⟨List.nodup_nil, nofun, List.length_map .., rfl, rfl, c, hshows, fun i stage hstage => ?_⟩
  obtain ⟨call, hcall, rfl⟩ := Option.map_eq_some_iff.1 ((List.getElem?_map ..).symm.trans hstage)
  exact ⟨call, hcall, .waiting nofun⟩

theorem Linearized.step (h : Linearized calls initial scene order) (hstage : scene.calls[i]? = some stage) :
    Linearized calls initial
      ⟨scene.calls.set i (stage.step scene.world).1, (stage.step scene.world).2⟩
      (order ++ decision i stage scene.world) := by
  obtain ⟨c, hshows, hreached⟩ := h.reached
  obtain ⟨call, hcall, hhere⟩ := hreached i stage hstage
  have hlength : (scene.calls.set i (stage.step scene.world).1).length = calls.length :=
    List.length_set.trans h.length
  rcases hhere.step hshows with ⟨hdecided, hstore, hnext⟩ | ⟨hundecided, hdecided, houtcome⟩
  -- A step that decides nothing leaves the store and the calls done in turn as they were.
  · have hdecision : decision i stage scene.world = [] := by
      rw [decision, hdecided]
      cases stage.isDecided <;> rfl
    rw [hdecision, List.append_nil]
    refine ⟨h.nodup, h.bounded, hlength, h.results, h.store.trans hstore.symm, c, hstore ▸ hshows,
      Scene.forall_set hstage ?_ fun j other _ hother => hreached j other hother⟩
    exact ⟨call, hcall, hnext⟩
  -- A step that decides its call does what the whole call does next in turn, because the store it
  -- starts from is the one that the calls before have left.
  · obtain ⟨result, c', hshows', hpersists, hyields, hnext⟩ := houtcome
    have hdecision : decision i stage scene.world = [i] := by
      rw [decision, hundecided, hdecided]
      rfl
    obtain ⟨hresult, hstore⟩ := hyields (inTurn calls order initial).2 h.store
    have hnew : i ∉ order := hhere.not_mem hundecided
    rw [hdecision]
    have hturn := inTurn_append hcall order initial
    rw [hresult] at hturn
    refine ⟨?_, ?_, hlength, ?_, ?_, c', hshows',
      Scene.forall_set hstage ?_ fun j other hij hother => ?_⟩
    · rw [List.nodup_append]
      refine ⟨h.nodup, by simp, fun j hj k hk heq => hnew ?_⟩
      rw [← List.mem_singleton.1 hk, ← heq]
      exact hj
    · intro j hj
      rcases List.mem_append.1 hj with hj | hj
      · exact h.bounded j hj
      · rw [List.mem_singleton.1 hj]
        exact (List.getElem?_eq_some_iff.1 hcall).1
    · rw [hturn, List.map_append, h.results]
      rfl
    · rw [hturn]
      exact hstore
    · refine ⟨call, hcall, hnext _ _ (by simp) ?_⟩
      rw [hturn]
      exact List.mem_append_right _ List.mem_cons_self
    · obtain ⟨otherCall, hotherCall, hotherReached⟩ := hreached j other hother
      refine ⟨otherCall, hotherCall, ?_⟩
      rw [hturn]
      exact hotherReached.mono hpersists fun hj => hij (List.mem_singleton.1 hj).symm

theorem eq_of_mem_of_nodup (hdistinct : (results.map Prod.fst).Nodup)
    {result result' : Except Failure Unit} (hmem : (i, result) ∈ results)
    (hmem' : (i, result') ∈ results) : result = result' :=
  congrArg Prod.snd (List.inj_on_of_nodup_map hdistinct hmem hmem' rfl)

/-- Calls that are all finished leave the store, and have the results, of the same calls done one after
the other in the order in which they were decided. -/
theorem upserts_linearizable {world : World SqlStore} {c : Contents} (hshows : world.store.Shows c)
    (calls : List Call) {schedule : List Nat}
    (hdone : ∀ stage ∈ ((SqlStore.start calls world).run Stage.step schedule).calls,
      ∃ result, stage = .finished result) :
    let final := (SqlStore.start calls world).run Stage.step schedule
    let order := decisions (SqlStore.start calls world) schedule
    order.Perm (List.range calls.length) ∧
      final.world.store = (inTurn calls order world).2.store ∧
      ∀ i result, final.calls[i]? = some (.finished result) ↔
        (i, result) ∈ (inTurn calls order world).1 := by
  intro final order
  have h : Linearized calls world final order :=
    Scene.run_invariant (P := Linearized calls world) (fun _ _ _ _ h hstage => h.step hstage)
      (Linearized.start hshows calls) schedule
  obtain ⟨c', _, hreached⟩ := h.reached
  have hfinished {i : Nat} (hi : i < calls.length) : ∃ result,
      final.calls[i]? = some (.finished result) ∧ i ∈ order ∧
        (i, result) ∈ (inTurn calls order world).1 := by
    have hbound : i < final.calls.length := h.length ▸ hi
    have hstage : final.calls[i]? = some final.calls[i] := List.getElem?_eq_getElem hbound
    obtain ⟨result, hresult⟩ := hdone final.calls[i] (List.getElem_mem hbound)
    rw [hresult] at hstage
    obtain ⟨call, _, hcall⟩ := hreached i _ hstage
    cases hcall with
    | finished _ hold hmem => exact ⟨result, hstage, hold, hmem⟩
  refine ⟨?_, h.store.symm, fun i result => ⟨fun hresult => ?_, fun hresult => ?_⟩⟩
  · rw [List.perm_ext_iff_of_nodup h.nodup List.nodup_range]
    intro i
    rw [List.mem_range]
    constructor
    · exact h.bounded i
    · intro hi
      obtain ⟨_, _, hold, _⟩ := hfinished hi
      exact hold
  · obtain ⟨call, _, hcall⟩ := hreached i _ hresult
    cases hcall with
    | finished _ _ hmem => exact hmem
  · have hi : i ∈ (inTurn calls order world).1.map Prod.fst := List.mem_map.2 ⟨_, hresult, rfl⟩
    have hdistinct : ((inTurn calls order world).1.map Prod.fst).Nodup := by
      rw [h.results]
      exact h.nodup
    rw [h.results] at hi
    obtain ⟨result', hfinal, _, hmem⟩ := hfinished (h.bounded i hi)
    rw [hfinal, eq_of_mem_of_nodup hdistinct hresult hmem]

/-- Two updates that both find no counter are as good as one after the other. -/
theorem upserts_linearizable_two_creations :
    let world : World SqlStore :=
      ⟨⟨⟨some [], none⟩, none, false, true⟩, ⟨[], Counters.empty, 0⟩⟩
    let calls : List Call := [.upsert (Sample.counter "a" 1), .upsert (Sample.counter "a" 2)]
    let final := (SqlStore.start calls world).run Stage.step [0, 1, 1, 0]
    world.store.Shows Contents.empty ∧ (∀ stage ∈ final.calls, ∃ result, stage = .finished result) ∧
      final.world.store.database.metrics = some [⟨"a", .counter, none, .integer 3⟩] ∧
      final.world.store = (inTurn calls [1, 0] world).2.store := by
  intro world calls final
  have hshows : world.store.Shows Contents.empty :=
    ⟨rfl, rfl, MemoryStore.empty, rfl, ⟨List.nodup_nil, rfl⟩, nofun⟩
  have hcalls : final.calls = [.finished (.ok ()), .finished (.ok ())] := rfl
  have hdone : ∀ stage ∈ final.calls, ∃ result, stage = .finished result := by
    intro stage hmem
    rw [hcalls] at hmem
    simp only [List.mem_cons, List.not_mem_nil, or_false] at hmem
    rcases hmem with rfl | rfl <;> exact ⟨_, rfl⟩
  have horder : decisions (SqlStore.start calls world) [0, 1, 1, 0] = [1, 0] := rfl
  obtain ⟨_, hstore, _⟩ := upserts_linearizable hshows calls hdone
  rw [horder] at hstore
  exact ⟨hshows, hdone, rfl, hstore⟩

end SqlStore

end Telemetry
