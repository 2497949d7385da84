import Telemetry.Proofs.Http.Demand
import Telemetry.Proofs.Metric.Sample
import Telemetry.Proofs.Store.Refusal

/-!
# Requests that fail

A request fails before the store is reached, in the store, or not at all: once the store has taken an
update, nothing that follows can fail. A request that fails therefore leaves behind what the store
does. A failure is the fault of the client with one exception: a new name that is in order, but that
a table does not admit, is reported by the database and passes for a fault of the server.
-/

namespace Telemetry

namespace Service.Update

variable {m : Medium} (kind : Store.Refusing m) {world after : World Store} {c : Contents}

theorem performRecord_refused (h : kind.Shows world.store c) {record : Record}
    (hfinite : record.value.isFinite = true) {shows : Bool} {failure : Failure}
    (hrefused : performRecord (.ok record) shows world = (.error failure, after)) :
    world.store.Keeps after.store := by
  rw [performRecord_eq, Action.bind_apply] at hrefused
  rcases (write_settles kind.toFaithful h hfinite).cases with
    ⟨middle, c', hdone, hwrite, hshows⟩ | ⟨refusal, middle, c', hdone, _, _⟩ <;>
    rw [hdone] at hrefused
  -- The metric that was written is found again.
  · obtain ⟨value, _, rfl⟩ := Contents.write_ok_iff.1 hwrite
    have hstored := Contents.set_self c record.name value
    simp only [conclude_apply kind.toFaithful hshows hstored] at hrefused
    cases hrefused
  · cases hrefused
    rw [Action.bind_apply, kind.get h] at hdone
    exact kind.write_refused h hfinite hdone

/-- An update that is refused before the store is reached, or that is no batch, leaves the records as
they were. -/
theorem perform_refused (h : kind.Shows world.store c) {update : Update} {failure : Failure}
    (hrefused : update.perform world = (.error failure, after))
    (hbatch : ∀ samples, update = .batch samples → checkBatch samples ≠ .ok ()) :
    world.store.Keeps after.store := by
  cases update with
  | one sample =>
    rw [perform_one] at hrefused
    cases hrecord : recordOfSample sample with
    | error failure =>
      rw [hrecord] at hrefused
      cases hrefused
      exact .refl _
    | ok record =>
      rw [hrecord] at hrefused
      have hfinite := (Sample.toRecord_ok (recordOfSample_ok hrecord)).2.2.2
      exact performRecord_refused kind h hfinite hrefused
  | text kind' name raw =>
    rw [perform_text] at hrefused
    cases hrecord : recordOfText kind' name raw with
    | error failure =>
      rw [hrecord] at hrefused
      cases hrefused
      exact .refl _
    | ok record =>
      rw [hrecord] at hrefused
      exact performRecord_refused kind h (recordOfText_ok hrecord).2.2 hrefused
  | batch samples =>
    simp only [perform, applyBatch, Action.bind_apply, Action.ofResult_apply] at hrefused
    cases hcheck : checkBatch samples with
    | error failure =>
      simp only [hcheck] at hrefused
      cases hrefused
      exact .refl _
    | ok done => exact absurd hcheck (hbatch samples rfl)

theorem perform_batch_refused {samples : List Sample} (h : kind.Shows world.store c)
    (hcheck : checkBatch samples = .ok ()) {failure : Failure}
    (hrefused : (batch samples).perform world = (.error failure, after)) :
    world.store.StopsIn samples after.store := by
  simp only [perform, applyBatch, Action.bind_apply, Action.ofResult_apply, hcheck] at hrefused
  rcases hbatch : (Repository.batch samples : Action Store Unit) world with ⟨refusal | done, middle⟩
    <;> simp only [hbatch] at hrefused
  · cases hrefused
    exact kind.batch_refused h hbatch
  · obtain ⟨hcount, _⟩ := countUpdates_apply samples middle
    generalize countUpdates samples middle = counted at hcount hrefused
    obtain ⟨result, last⟩ := counted
    cases hcount
    cases hrefused

/-! ### Whose fault a refusal is -/

open Http (statusOf IsClientFault isClientFault_badRequest bind_error map_error)

theorem requireName_error {name : String} {failure : Failure}
    (h : requireName name = .error failure) : IsClientFault (statusOf failure) := by
  unfold requireName at h
  split at h <;> cases h
  decide

theorem finiteGauge_error {x : Number.Binary64} {failure : Failure}
    (h : finiteGauge x = .error failure) : IsClientFault (statusOf failure) := by
  unfold finiteGauge at h
  split at h <;> cases h
  exact isClientFault_badRequest

theorem toRecord_error {sample : Sample} {failure : Failure}
    (h : sample.toRecord = .error failure) : IsClientFault (statusOf failure) := by
  unfold Sample.toRecord at h
  split at h
  · cases h
    decide
  · have hcontent := map_error h
    unfold Sample.content at hcontent
    split at hcontent
    · cases hcontent
    · exact finiteGauge_error (map_error hcontent)
    · cases hcontent
      exact isClientFault_badRequest

theorem read_error {kind : Kind} {raw : String} {failure : Failure}
    (h : Value.read kind raw = .error failure) : IsClientFault (statusOf failure) := by
  cases kind with
  | gauge =>
    simp only [Value.read] at h
    split at h
    · exact finiteGauge_error (map_error h)
    · cases h
      exact isClientFault_badRequest
  | counter =>
    simp only [Value.read] at h
    split at h <;> cases h
    exact isClientFault_badRequest

theorem ofName_error {name : String} {failure : Failure} (h : Kind.ofName name = .error failure) :
    IsClientFault (statusOf failure) := by
  unfold Kind.ofName at h
  split at h <;> cases h
  exact isClientFault_badRequest

theorem checkBatch_error {samples : List Sample} {failure : Failure}
    (h : checkBatch samples = .error failure) : IsClientFault (statusOf failure) := by
  induction samples with
  | nil => cases h
  | cons sample samples ih =>
    unfold checkBatch at h
    split at h
    · rename_i hname
      cases h
      exact requireName_error hname
    · split at h
      · rename_i hvalidate
        cases h
        exact toRecord_error (map_error hvalidate)
      · exact ih h

theorem records_error {update : Update} {failure : Failure}
    (h : update.records = .error failure) : IsClientFault (statusOf failure) := by
  cases update with
  | one sample =>
    obtain h | ⟨record, _, h⟩ := bind_error h
    · obtain hname | ⟨_, _, hrecord⟩ := bind_error h
      · exact requireName_error hname
      · exact toRecord_error hrecord
    · cases h
  | text kind name raw =>
    obtain h | ⟨record, _, h⟩ := bind_error h
    · obtain hkind | ⟨kind, _, h⟩ := bind_error h
      · exact ofName_error hkind
      · obtain hname | ⟨_, _, h⟩ := bind_error h
        · exact requireName_error hname
        · obtain hraw | ⟨_, _, h⟩ := bind_error h
          · exact requireName_error hraw
          · obtain hvalue | ⟨value, _, h⟩ := bind_error h
            · exact read_error hvalue
            · cases h
    · cases h
  | batch samples =>
    obtain hcheck | ⟨done, hcheck, h⟩ := bind_error h
    · exact checkBatch_error hcheck
    · obtain ⟨records, hmapM, _⟩ := checkBatch_ok hcheck
      rw [hmapM] at h
      cases h

/-- The update comes to a new name that the table does not admit. -/
def Oversteps (update : Update) (world : World Store) : Prop :=
  world.store.isTransactional = true ∧ ∃ done entry rest moment,
    update.records = .ok (done ++ entry :: rest) ∧
    Repository.batch (done.map Sample.ofRecord) world = (.ok (), moment) ∧
    Repository.get entry.name moment = (.ok none, moment) ∧ Database.admits entry.name = false

theorem statusOf_conflict {entry : Record} {failure : Failure}
    (h : Conflicts world entry failure) :
    IsClientFault (statusOf failure) ∨ world.store.isTransactional = true ∧
      Repository.get entry.name world = (.ok none, world) ∧
      Database.admits entry.name = false := by
  cases h with
  | kind stored hstored hkind => exact .inl isClientFault_badRequest
  | sum n delta hstored hvalue hsum => exact .inl isClientFault_badRequest
  | name hsql habsent hname => exact .inr ⟨hsql, habsent, hname⟩

theorem statusOf_refused (h : kind.Shows world.store c) {update : Update} {failure : Failure}
    (hrefused : (update.perform world).1 = .error failure) :
    IsClientFault (statusOf failure) ∨ update.Oversteps world := by
  obtain ⟨hresult, _⟩ := performs kind.toFaithful h update
  rw [hrefused] at hresult
  have heffect : (update.effect m c).1 = .error failure := map_error hresult.symm
  unfold effect at heffect
  cases hrecords : update.records with
  | error refusal =>
    rw [hrecords] at heffect
    cases heffect
    exact .inl (records_error hrecords)
  | ok records =>
    simp only [hrecords, Contents.enterBatch] at heffect
    rcases henter : c.enterAll m (records.map .ok) with ⟨refusal | done, after⟩ <;>
      rw [henter] at heffect <;> cases heffect
    obtain ⟨done, entry, rest, rfl, hdone, hnext⟩ := Contents.enterAll_error henter
    have hwritten : ∀ record ∈ done, record.name ≠ "" ∧ record.value.isFinite = true :=
      fun record hmem => records_wellFormed hrecords record (List.mem_append_left _ hmem)
    obtain ⟨moment, hmoment, hthen⟩ := batch_ofRecords kind.toBackend h hwritten hdone
    obtain hclient | ⟨hsql, habsent, hname⟩ :=
      statusOf_conflict (conflicts_of_next kind.toBackend hthen hnext)
    · exact .inl hclient
    · refine .inr ⟨?_, done, entry, rest, moment, hrecords, hmoment, habsent, hname⟩
      rw [kind.transactional h, ← kind.transactional hthen, hsql]

theorem refused_of_oversteps (h : kind.Shows world.store c) {update : Update}
    (hoversteps : update.Oversteps world) :
    (update.perform world).1 = .error DatabaseFault.nameLength.failure := by
  obtain ⟨hsql, done, entry, rest, moment, hrecords, hmoment, habsent, hname⟩ := hoversteps
  have hwritten : ∀ record ∈ done, record.name ≠ "" ∧ record.value.isFinite = true :=
    fun record hmem => records_wellFormed hrecords record (List.mem_append_left _ hmem)
  obtain ⟨after, hdone, hthen⟩ := enterAll_of_batch kind.toBackend h hwritten hmoment
  have hnew : after entry.name = none := by
    have hget := kind.get hthen entry.name
    rw [habsent] at hget
    exact Option.map_eq_none_iff.1 (Except.ok.inj (congrArg Prod.fst hget)).symm
  have hnext : m.next entry (after entry.name) = .error DatabaseFault.nameLength.failure := by
    rw [hnew]
    simp only [Medium.next, kind.inadmissible h hsql hname]
  have heffect : (update.effect m c).1 = .error DatabaseFault.nameLength.failure := by
    simp only [effect, hrecords, Contents.enterBatch, Contents.enterAll_stops hdone hnext]
  rw [(performs kind.toFaithful h update).1, heffect]
  rfl

end Service.Update

namespace Http

open Service (Update Query)

variable {m : Medium} {world : World Store} {c : Contents}

theorem Query.statusOf_refused (kind : Store.Refusing m) (h : kind.Shows world.store c)
    {query : Query} {failure : Failure} (hrefused : (query.perform world).1 = .error failure) :
    IsClientFault (statusOf failure) := by
  have hfound {kind : Kind} {name : String} {failure : Failure}
      (h : Query.found c kind name = .error failure) : IsClientFault (statusOf failure) := by
    obtain hname | ⟨_, _, h⟩ := bind_error h
    · exact Update.requireName_error hname
    · split at h
      · split at h <;> cases h
        exact isClientFault_notFound
      · cases h
        exact isClientFault_notFound
  cases query with
  | one query =>
    rw [Query.perform_one kind.toFaithful h] at hrefused
    exact hfound (map_error hrefused)
  | text kind' name =>
    rw [Query.perform_text kind.toFaithful h] at hrefused
    obtain hkind | ⟨_, _, h⟩ := bind_error hrefused
    · exact Update.ofName_error hkind
    · obtain hrecord | ⟨_, _, h⟩ := bind_error h
      · exact hfound hrecord
      · cases h
  | page =>
    obtain ⟨records, _, hpage⟩ := Query.perform_page kind.toFaithful h
    rw [hpage] at hrefused
    cases hrefused

namespace Server

/-- A request brings a batch to the store: it is admitted, its route, method, size and type are
those of a batch, its body can be read, and every sample of the batch is in order. -/
structure TakesBatch (server : Server) (request : Request) (samples : List Sample) : Prop where
  admitted : server.admits request = true
  route : Route.ofPath? request.path = some .updates
  method : request.method = "POST"
  fits : request.isTooLarge = false
  json : request.isJson = true
  body : ∃ content, server.content ⟨true, false⟩ request = .ok content ∧
    Sample.listOfBytes content = .ok samples
  checked : Service.checkBatch samples = .ok ()

/-- The worlds that a server comes to, from an empty store, by requests under any settings and by
whatever happens around it. -/
inductive Served : World Store → Prop where
  | start {world : World Store} (h : world.store.Fresh) : Served world
  | handled {world : World Store} (h : Served world) (server : Server) (request : Request) :
    Served (server.handle request world).2
  | elsewhere {world : World Store} (h : Served world) (host : Host) : Served { world with host }

theorem perform_shows (kind : Store.Refusing m) (h : kind.Shows world.store c) (demand : Demand) :
    ∃ c', kind.Shows (demand.perform world).2.store c' := by
  cases demand with
  | write update => exact ⟨_, (Update.performs kind.toFaithful h update).2⟩
  | read query =>
    refine ⟨c, ?_⟩
    rw [Demand.perform, Query.perform_world kind.toFaithful h]
    exact h
  | ping =>
    refine ⟨c, ?_⟩
    rw [Demand.perform, Action.bind_apply, kind.ping h]
    exact h

theorem Served.shows (h : Served world) :
    ∃ (m : Medium) (kind : Store.Refusing m) (c : Contents), kind.Shows world.store c := by
  induction h with
  | start h =>
    obtain ⟨m, kind, hshows⟩ := h.refusing
    exact ⟨m, kind, Contents.empty, hshows⟩
  | handled h server request ih =>
    obtain ⟨m, kind, c, hshows⟩ := ih
    rw [handle_world]
    cases server.asks request with
    | error response => exact ⟨m, kind, c, hshows⟩
    | ok demand =>
      obtain ⟨c', hafter⟩ := perform_shows kind hshows demand
      exact ⟨m, kind, c', hafter⟩
  | elsewhere h host ih => exact ih

/-! ### Batches that reach the store -/

theorem asksInBody_ok_iff {server : Server} {protection : Protection} {request : Request}
    {read : Bytes → Except Failure Demand} {demand : Demand} :
    server.asksInBody protection request read = .ok demand ↔
      request.isTooLarge = false ∧ request.isJson = true ∧
        ∃ content, server.content protection request = .ok content ∧ read content = .ok demand := by
  unfold asksInBody
  cases request.isTooLarge <;> cases request.isJson <;> simp
  cases server.content protection request with
  | error failure =>
    constructor
    · intro h
      cases h
    · rintro ⟨_, h, _⟩
      cases h
  | ok content =>
    simp only [Except.bind, Except.ok.injEq, exists_eq_left']
    cases read content with
    | error failure => constructor <;> intro h <;> cases h
    | ok asked =>
      change Except.ok asked = Except.ok demand ↔ _
      simp only [Except.ok.injEq]

/-- Only one route reads a batch. -/
theorem asksOn_batch {server : Server} {request : Request} {route : Route} {samples : List Sample}
    (h : server.asksOn request route = .ok (.write (.batch samples))) :
    route = .updates ∧ request.isTooLarge = false ∧ request.isJson = true ∧
      ∃ content, server.content ⟨true, false⟩ request = .ok content ∧
        Sample.listOfBytes content = .ok samples := by
  cases route with
  | index => cases h
  | ping => cases h
  | update =>
    obtain ⟨_, _, content, _, hread⟩ := asksInBody_ok_iff.1 h
    obtain ⟨sample, _, hother⟩ := Json.Numeral.map_ok hread
    cases hother
  | updates =>
    obtain ⟨hfits, hjson, content, hcontent, hread⟩ := asksInBody_ok_iff.1 h
    obtain ⟨read, hsamples, hsame⟩ := Json.Numeral.map_ok hread
    cases hsame
    exact ⟨rfl, hfits, hjson, content, hcontent, hsamples⟩
  | value =>
    obtain ⟨_, _, content, _, hread⟩ := asksInBody_ok_iff.1 h
    obtain ⟨sample, _, hother⟩ := Json.Numeral.map_ok hread
    cases hother
  | updateText kind name raw =>
    rw [asksOn] at h
    obtain ⟨kind, _, h⟩ := Update.bind_ok h
    obtain ⟨name, _, h⟩ := Update.bind_ok h
    obtain ⟨raw, _, h⟩ := Update.bind_ok h
    cases h
  | valueText kind name =>
    rw [asksOn] at h
    obtain ⟨kind, _, h⟩ := Update.bind_ok h
    obtain ⟨name, _, h⟩ := Update.bind_ok h
    cases h

theorem takesBatch_iff {server : Server} {request : Request} {samples : List Sample} :
    server.TakesBatch request samples ↔ server.asks request = .ok (.write (.batch samples)) ∧
      Service.checkBatch samples = .ok () := by
  have haccepts : Route.updates.accepts request.method = true ↔ request.method = "POST" := by
    simp [Route.accepts, Route.isReading]
  constructor
  · intro h
    obtain ⟨content, hcontent, hread⟩ := h.body
    refine ⟨?_, h.checked⟩
    rw [asks, if_pos h.admitted, h.route]
    simp only [haccepts.2 h.method, if_true]
    refine asksInBody_ok_iff.2 ⟨h.fits, h.json, content, hcontent, ?_⟩
    rw [hread]
    rfl
  · rintro ⟨hasks, hchecked⟩
    unfold asks at hasks
    split at hasks
    · rename_i hadmitted
      split at hasks
      · cases hasks
      · rename_i route hroute
        split at hasks
        · rename_i hmethod
          obtain ⟨rfl, hfits, hjson, hbody⟩ := asksOn_batch hasks
          exact ⟨hadmitted, hroute, haccepts.1 hmethod, hfits, hjson, hbody, hchecked⟩
        · cases hasks
    · cases hasks

/-! ### What a failed request leaves behind -/

variable (server : Server) (request : Request)

/-- What is demanded and refused is the fault of the client, or it is an update that oversteps. -/
theorem statusOf_perform (kind : Store.Refusing m) (h : kind.Shows world.store c) {demand : Demand}
    {failure : Failure} (hrefused : (demand.perform world).1 = .error failure) :
    IsClientFault (statusOf failure) ∨ ∃ update, demand = .write update ∧ update.Oversteps world := by
  cases demand with
  | write update =>
    obtain hclient | hoversteps := Update.statusOf_refused kind h hrefused
    · exact .inl hclient
    · exact .inr ⟨update, rfl, hoversteps⟩
  | read query => exact .inl (Query.statusOf_refused kind h hrefused)
  | ping =>
    rw [Demand.perform, Action.bind_apply, kind.ping h] at hrefused
    cases hrefused

theorem status_lt_or_oversteps (h : Served world) : (server.handle request world).1.status < 500 ∨
    ∃ update, server.asks request = .ok (.write update) ∧ update.Oversteps world := by
  obtain ⟨m, kind, c, hshows⟩ := h.shows
  rw [status_handle]
  cases hasks : server.asks request with
  | error response => exact .inl (asks_error hasks).2
  | ok demand =>
    cases hresult : (demand.perform world).1 with
    | ok served =>
      simp only [hresult]
      exact .inl (by decide)
    | error failure =>
      simp only [hresult]
      obtain hclient | ⟨update, rfl, hoversteps⟩ := statusOf_perform kind hshows hresult
      · exact .inl hclient.2
      · exact .inr ⟨update, rfl, hoversteps⟩

/-- The server is at fault exactly when a table does not admit a new name that is in order. -/
theorem server_at_fault_iff (h : Served world) :
    500 ≤ (server.handle request world).1.status ↔
      ∃ update, server.asks request = .ok (.write update) ∧ update.Oversteps world := by
  constructor
  · intro hstatus
    exact (status_lt_or_oversteps server request h).resolve_left (Nat.not_lt.2 hstatus)
  · rintro ⟨update, hasks, hoversteps⟩
    obtain ⟨m, kind, c, hshows⟩ := h.shows
    have hresult := Update.refused_of_oversteps kind hshows hoversteps
    rw [status_handle]
    simp only [hasks, Demand.perform, hresult]
    exact Nat.le_refl 500

/-- A name that begins with a null character has no length for the table. -/
theorem server_at_fault_for_null :
    let server : Server := ⟨none, none, none⟩
    let request : Request := ⟨"POST", "/update/counter/%00/1", [], []⟩
    let world : World Store := ⟨.sql ⟨⟨some [], none⟩, none, false, true⟩, ⟨[], Counters.empty, 0⟩⟩
    Served world ∧ (server.handle request world).1.status = 500 ∧
      ∃ update, server.asks request = .ok (.write update) ∧ update.Oversteps world := by
  intro server request world
  have hfresh : world.store.Fresh := ⟨rfl, rfl, rfl⟩
  have hserved : Served world := .start hfresh
  have hstatus : (server.handle request world).1.status = 500 := by decide +kernel
  exact ⟨hserved, hstatus, (server_at_fault_iff server request hserved).1 hstatus.ge⟩

def unguarded : Server := ⟨none, none, none⟩

def updateOf (sample : Sample) : Request :=
  ⟨"POST", "/update/", [("content-type", "application/json")], sample.toBytes⟩

theorem header?_updateOf (sample : Sample) :
    (updateOf sample).header? "content-type" = some "application/json" ∧
      (updateOf sample).header? "content-encoding" = none := by
  have htype : (lowered "content-type" == "content-type".toList) = true := by decide
  have hencoding : (lowered "content-type" == "content-encoding".toList) = false := by decide
  have hvalue : "application/json".toList.all isReadable = true := by decide
  constructor
  · simp only [Request.header?, updateOf, List.find?_cons, htype, hvalue, if_true]
  · simp only [Request.header?, updateOf, List.find?_cons, hencoding, List.find?_nil]

theorem asks_updateOf {sample : Sample} (hfits : (updateOf sample).isTooLarge = false) :
    unguarded.asks (updateOf sample) = .ok (.write (.one sample.reread)) := by
  obtain ⟨htype, hencoding⟩ := header?_updateOf sample
  have hadmitted : unguarded.admits (updateOf sample) = true := rfl
  have hroute : Route.ofPath? (updateOf sample).path = some .update :=
    (by decide : Route.ofPath? (pathOf "/update/".toList) = some .update)
  have haccepts : Route.update.accepts (updateOf sample).method = true := rfl
  have hjson : (updateOf sample).isJson = true := by
    rw [Request.isJson, htype]
    decide
  have hcontent : unguarded.content ⟨true, true⟩ (updateOf sample) = .ok sample.toBytes := by
    rw [content, hencoding]
    rfl
  simp only [asks, hadmitted, hroute, haccepts, if_true]
  refine asksInBody_ok_iff.2 ⟨hfits, hjson, sample.toBytes, hcontent, ?_⟩
  rw [Sample.ofBytes_toBytes]
  rfl

/-- A store without records refuses to create a metric of a name that it does not admit. -/
theorem oversteps_of_fresh (hfresh : world.store.Fresh) (hsql : world.store.isTransactional = true)
    {update : Update} {record : Record} (hrecords : update.records = .ok [record])
    (hname : Database.admits record.name = false) : update.Oversteps world := by
  obtain ⟨m, kind, hshows⟩ := hfresh.refusing
  have hnone : ∀ other ∈ ([] : List Record), other.name ≠ "" ∧ other.value.isFinite = true := nofun
  obtain ⟨moment, hmoment, hthen⟩ := Update.batch_ofRecords kind.toBackend hshows hnone rfl
  exact ⟨hsql, [], record, [], moment, hrecords, hmoment, kind.get hthen record.name, hname⟩

theorem records_counter {name : String} (hnamed : name ≠ "") (n : Int64) :
    (Update.one (Sample.counter name n)).records = .ok [⟨name, .counter n⟩] := by
  have hrequired : Service.requireName name = .ok () := if_neg hnamed
  have hrecord : (Sample.counter name n).toRecord = .ok ⟨name, .counter n⟩ := if_neg hnamed
  change (Service.requireName name >>= fun _ => (Sample.counter name n).toRecord) >>= _ = _
  rw [hrequired, hrecord]
  rfl

theorem status_updateOf_inadmissible (hfresh : world.store.Fresh)
    (hsql : world.store.isTransactional = true) {name : String} (hnamed : name ≠ "")
    (hadmits : Database.admits name = false) {n : Int64}
    (hfits : (updateOf (Sample.counter name n)).isTooLarge = false) :
    (unguarded.handle (updateOf (Sample.counter name n)) world).1.status = 500 := by
  obtain ⟨m, kind, hshows⟩ := hfresh.refusing
  have hoversteps := oversteps_of_fresh hfresh hsql (records_counter hnamed n) hadmits
  have hrefused := Update.refused_of_oversteps kind hshows hoversteps
  have hreread : (Sample.counter name n).reread = Sample.counter name n := rfl
  rw [status_handle, asks_updateOf hfits, hreread]
  simp only [Demand.perform, hrefused]
  rfl

theorem fits_of_letters {name : String} (hletters : name.toList = List.replicate 256 'a') :
    (updateOf (Sample.counter name 1)).isTooLarge = false := by
  have hwrite : (Sample.counter name 1).write = Json.writeObject
      [Json.writeMember "id" ('"' :: (name.toList.flatMap Json.writeChar ++ ['"'])),
        Json.writeMember "type" (Json.writeString "counter"),
        Json.writeMember "delta" (integerText 1)] := rfl
  unfold Request.isTooLarge updateOf
  rw [Sample.toBytes_eq, hwrite, hletters]
  decide +kernel

/-- An empty table answers the counter of a name of 256 letters with a fault of the server, though
the sample is in order. -/
theorem server_at_fault_for_long_name :
    let sample := Sample.counter (String.ofList (List.replicate 256 'a')) 1
    let world : World Store := ⟨.sql ⟨⟨some [], none⟩, none, false, true⟩, ⟨[], Counters.empty, 0⟩⟩
    Served world ∧ sample.validate = .ok () ∧
      (unguarded.handle (updateOf sample) world).1.status = 500 := by
  obtain ⟨name, hname⟩ : ∃ name, String.ofList (List.replicate 256 'a') = name := ⟨_, rfl⟩
  have hletters : name.toList = List.replicate 256 'a' := hname ▸ String.toList_ofList
  rw [hname]
  intro sample world
  have hnamed : name ≠ "" := by
    intro hempty
    rw [hempty] at hletters
    cases hletters
  have hadmits : Database.admits name = false := by
    rw [Database.admits, hletters]
    decide +kernel
  have hrecord : sample.toRecord = .ok ⟨name, .counter 1⟩ := if_neg hnamed
  have hfresh : world.store.Fresh := ⟨rfl, rfl, rfl⟩
  refine ⟨.start hfresh, by rw [Sample.validate, hrecord]; rfl, ?_⟩
  exact status_updateOf_inadmissible hfresh rfl hnamed hadmits (fits_of_letters hletters)

/-- What a request demands and is refused leaves the records as they were, unless it is a batch that
comes to the store. -/
theorem perform_keeps (kind : Store.Refusing m) (h : kind.Shows world.store c) {demand : Demand}
    (hbatch : ∀ samples, demand = .write (.batch samples) → Service.checkBatch samples ≠ .ok ())
    {failure : Failure} (hrefused : (demand.perform world).1 = .error failure) :
    world.store.Keeps (demand.perform world).2.store := by
  cases demand with
  | write update =>
    apply Update.perform_refused kind h (Prod.ext hrefused rfl)
    rintro samples rfl
    exact hbatch samples rfl
  | read query =>
    rw [Demand.perform, Query.perform_world kind.toFaithful h]
    exact .refl _
  | ping =>
    rw [Demand.perform, Action.bind_apply, kind.ping h] at hrefused
    cases hrefused

theorem refused_of_failed {demand : Demand} (hasks : server.asks request = .ok demand)
    (hfailed : (server.handle request world).1.status ≠ 200) :
    ∃ failure, (demand.perform world).1 = .error failure := by
  rw [status_handle, hasks] at hfailed
  cases hresult : (demand.perform world).1 with
  | error failure => exact ⟨failure, rfl⟩
  | ok served => simp [hresult] at hfailed

theorem handle_keeps (kind : Store.Refusing m) (h : kind.Shows world.store c)
    (hnone : ∀ samples, ¬ server.TakesBatch request samples)
    (hfailed : (server.handle request world).1.status ≠ 200) :
    world.store.Keeps (server.handle request world).2.store := by
  rw [handle_world]
  cases hasks : server.asks request with
  | error response => exact .refl _
  | ok demand =>
    obtain ⟨failure, hrefused⟩ := refused_of_failed server request hasks hfailed
    apply perform_keeps kind h ?_ hrefused
    rintro samples rfl hcheck
    exact hnone samples (takesBatch_iff.2 ⟨hasks, hcheck⟩)

theorem handle_stops (kind : Store.Refusing m) (h : kind.Shows world.store c)
    {samples : List Sample} (htakes : server.TakesBatch request samples)
    (hfailed : (server.handle request world).1.status ≠ 200) :
    world.store.StopsIn samples (server.handle request world).2.store := by
  obtain ⟨hasks, hcheck⟩ := takesBatch_iff.1 htakes
  obtain ⟨failure, hrefused⟩ := refused_of_failed server request hasks hfailed
  rw [handle_world, hasks]
  exact Update.perform_batch_refused kind h hcheck (Prod.ext hrefused rfl)

/-- **A request that fails leaves the store intact.** A database is left as it was. A map is left as
it was by a request that brings no batch to it, and by another one with the entries before the one
that was refused; and with a map the server is never at fault. -/
theorem failed_request_keeps (h : Served world) :
    ((server.handle request world).1.status ≠ 200 →
      ((∀ samples, ¬ server.TakesBatch request samples) →
        world.store.Keeps (server.handle request world).2.store) ∧
      ∀ samples, server.TakesBatch request samples →
        world.store.StopsIn samples (server.handle request world).2.store) ∧
    (world.store.isTransactional = false → (server.handle request world).1.status < 500) := by
  obtain ⟨m, kind, c, hshows⟩ := h.shows
  refine ⟨?_, ?_⟩
  · intro hfailed
    constructor
    · intro hnone
      exact handle_keeps server request kind hshows hnone hfailed
    · intro samples htakes
      exact handle_stops server request kind hshows htakes hfailed
  · intro hmap
    obtain hstatus | ⟨update, _, hsql, _⟩ := status_lt_or_oversteps server request h
    · exact hstatus
    · rw [hmap] at hsql
      cases hsql

/-- The second of two samples would overflow: the first one stays in a map. -/
theorem failed_request_keeps_overflow :
    let server : Server := ⟨none, none, none⟩
    let first : Request := ⟨"POST", "/update/counter/a/9223372036854775807", [], []⟩
    let samples := [Sample.counter "b" 1, Sample.counter "a" 1]
    let second : Request :=
      ⟨"POST", "/updates/", [("content-type", "application/json")], Sample.listToBytes samples⟩
    let world := (server.handle first ⟨.memory MemoryStore.empty, ⟨[], Counters.empty, 0⟩⟩).2
    Served world ∧ server.TakesBatch second samples ∧
      (server.handle second world).1.status = 400 ∧
      world.store.StopsIn samples (server.handle second world).2.store := by
  intro server first samples second world
  have hfresh : (Store.memory MemoryStore.empty).Fresh := rfl
  have hserved : Served world := .handled (.start hfresh) server first
  have htakes : server.TakesBatch second samples := by
    have hread : Sample.listOfBytes (Sample.listToBytes samples) = .ok samples := by
      with_unfolding_all rfl
    exact ⟨rfl, by decide, rfl, by decide +kernel, by decide, ⟨_, rfl, hread⟩, rfl⟩
  have hstatus : (server.handle second world).1.status = 400 := by decide +kernel
  have hfailed : (server.handle second world).1.status ≠ 200 := by
    rw [hstatus]
    decide
  obtain ⟨_, hstops⟩ := (failed_request_keeps server second hserved).1 hfailed
  exact ⟨hserved, htakes, hstatus, hstops samples htakes⟩

end Server

end Http

end Telemetry
