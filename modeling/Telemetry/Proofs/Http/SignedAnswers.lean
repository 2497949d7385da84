import Telemetry.Proofs.Http.Delivery
import Telemetry.Proofs.Http.SignatureGate
import Telemetry.Proofs.Store.Holdings

/-!
# What a secret puts on the answers

A server with a secret signs what it answers in JSON and nothing else: the metrics that it shows and
the empty answer to a batch. The bytes that are signed are those that are sent, since only the answer
to a request for the headers alone loses its body, and such a request is never answered in JSON. A
metric that is shown is the one that the store holds then, in whatever state the store was before.
-/

namespace Telemetry

namespace Http

open Service (Update Query Answer)

/-! ### Answers and their signatures -/

/-- The routes that answer in JSON. -/
def Route.IsInJson (route : Route) : Prop := route.TakesBody ∨ route = .value

theorem Response.mem_headers {response : Response} {value : String} :
    ("hashsha256", value) ∈ response.headers ↔ response.signature = some value := by
  obtain ⟨status, contentType, allow, signature, length, body⟩ := response
  cases contentType <;> cases allow <;> cases signature <;>
    simp [Response.headers, eq_comm]

/-- The answer to a demand shows a metric, gives a text or says that all is done. -/
inductive Demand.Answered : Demand → Answer → Prop where
  | updated (sample shown : Sample) : Demand.Answered (.write (.one sample)) (.shown shown)
  | taken (kind name raw : String) : Demand.Answered (.write (.text kind name raw)) .done
  | batched (samples : List Sample) : Demand.Answered (.write (.batch samples)) .done
  | found (query shown : Sample) : Demand.Answered (.read (.one query)) (.shown shown)
  | told (kind name text : String) : Demand.Answered (.read (.text kind name)) (.text text)
  | listed (page : String) : Demand.Answered (.read .page) (.text page)
  | reached : Demand.Answered .ping .done

theorem answer_of_done {σ α : Type} {action : Action σ α} {answer : α → Answer} {served : Answer}
    {world : World σ} (h : ((action >>= fun a => pure (answer a)) world).1 = .ok served) :
    ∃ a, served = answer a := by
  obtain ⟨a, after, -, hrest⟩ := Action.bind_done h
  rw [hrest] at h
  exact ⟨a, (Except.ok.inj h).symm⟩

theorem Demand.answered {σ : Type} [Repository σ] {demand : Demand} {served : Answer}
    {world : World σ} (h : (demand.perform world).1 = .ok served) : demand.Answered served := by
  cases demand with
  | write update =>
    cases update with
    | one sample =>
      obtain ⟨shown, rfl⟩ := answer_of_done h
      exact .updated sample shown
    | text kind name raw =>
      obtain ⟨_, rfl⟩ := answer_of_done h
      exact .taken kind name raw
    | batch samples =>
      obtain ⟨_, rfl⟩ := answer_of_done h
      exact .batched samples
  | read query =>
    cases query with
    | one query =>
      obtain ⟨shown, rfl⟩ := answer_of_done h
      exact .found query shown
    | text kind name =>
      obtain ⟨text, rfl⟩ := answer_of_done h
      exact .told kind name text
    | page =>
      obtain ⟨page, rfl⟩ := answer_of_done h
      exact .listed page
  | ping =>
    obtain ⟨_, rfl⟩ := answer_of_done h
    exact .reached

/-- The demands that are answered in JSON. -/
def Demand.IsInJson : Demand → Prop
  | .write (.text _ _ _) => False
  | .write _ => True
  | .read (.one _) => True
  | _ => False

namespace Server

variable {server : Server} {request : Request}

theorem reply_shown (server : Server) {demand : Demand} {shown : Sample}
    (h : demand.Answered (.shown shown)) :
    server.reply demand (.shown shown) = server.json shown.toBytes := by
  cases h with
  | updated sample =>
    rw [reply]
    all_goals nofun
  | found query =>
    rw [reply]
    all_goals nofun

theorem body_json (server : Server) (body : Bytes) : (server.json body).body = body := rfl

theorem signature_json (server : Server) (body : Bytes) : (server.json body).signature
    = server.secret.map (Signature.sign (server.json body).body) := rfl

/-- What is answered in JSON is signed as it is sent, and nothing else is. -/
theorem signature_reply (server : Server) {demand : Demand} {served : Answer}
    (h : demand.Answered served) :
    (demand.IsInJson ∧ (server.reply demand served).signature
      = server.secret.map (Signature.sign (server.reply demand served).body)) ∨
    (¬ demand.IsInJson ∧ (server.reply demand served).signature = none) := by
  cases h with
  | updated sample shown =>
    rw [reply_shown server (.updated sample shown)]
    exact .inl ⟨trivial, signature_json server _⟩
  | found query shown =>
    rw [reply_shown server (.found query shown)]
    exact .inl ⟨trivial, signature_json server _⟩
  | batched samples => exact .inl ⟨trivial, signature_json server []⟩
  | taken => exact .inr ⟨id, rfl⟩
  | told => exact .inr ⟨id, rfl⟩
  | listed => exact .inr ⟨id, rfl⟩
  | reached => exact .inr ⟨id, rfl⟩

theorem isInJson_of_asksOn {route : Route} {demand : Demand}
    (h : server.asksOn request route = .ok demand) : route.IsInJson ↔ demand.IsInJson := by
  cases route with
  | index =>
    cases h
    simp [Route.IsInJson, Route.TakesBody, Demand.IsInJson]
  | ping =>
    cases h
    simp [Route.IsInJson, Route.TakesBody, Demand.IsInJson]
  | update =>
    obtain ⟨-, -, content, -, hread⟩ := asksInBody_ok_iff.1 h
    obtain ⟨sample, -, rfl⟩ := Json.Numeral.map_ok hread
    simp [Route.IsInJson, Route.TakesBody, Demand.IsInJson]
  | updates =>
    obtain ⟨-, -, content, -, hread⟩ := asksInBody_ok_iff.1 h
    obtain ⟨samples, -, rfl⟩ := Json.Numeral.map_ok hread
    simp [Route.IsInJson, Route.TakesBody, Demand.IsInJson]
  | value =>
    obtain ⟨-, -, content, -, hread⟩ := asksInBody_ok_iff.1 h
    obtain ⟨query, -, rfl⟩ := Json.Numeral.map_ok hread
    simp [Route.IsInJson, Route.TakesBody, Demand.IsInJson]
  | updateText kind name raw =>
    obtain ⟨kind, -, h⟩ := Update.bind_ok h
    obtain ⟨name, -, h⟩ := Update.bind_ok h
    obtain ⟨raw, -, h⟩ := Update.bind_ok h
    cases h
    simp [Route.IsInJson, Route.TakesBody, Demand.IsInJson]
  | valueText kind name =>
    obtain ⟨kind, -, h⟩ := Update.bind_ok h
    obtain ⟨name, -, h⟩ := Update.bind_ok h
    cases h
    simp [Route.IsInJson, Route.TakesBody, Demand.IsInJson]

/-! ### Requests that are refused -/

theorem signature_asksInBody_error {protection : Protection} {read : Bytes → Except Failure Demand}
    {response : Response} (h : server.asksInBody protection request read = .error response) :
    response.signature = none := by
  rw [asksInBody] at h
  split at h
  · cases h
    rfl
  · split at h
    · cases h
      rfl
    · cases hread : (server.content protection request).bind read with
      | error failure =>
        rw [hread] at h
        cases h
        rfl
      | ok demand =>
        rw [hread] at h
        cases h

theorem signature_parameter_error {name segment : String} {response : Response}
    (h : parameter name segment = .error response) : response.signature = none := by
  rw [parameter] at h
  split at h
  · cases h
  · cases h
    rfl

theorem signature_asksOn_error {route : Route} {response : Response}
    (h : server.asksOn request route = .error response) : response.signature = none := by
  cases route with
  | index => cases h
  | ping => cases h
  | update => exact signature_asksInBody_error h
  | updates => exact signature_asksInBody_error h
  | value => exact signature_asksInBody_error h
  | updateText kind name raw =>
    obtain hkind | ⟨kind, -, h⟩ := bind_error h
    · exact signature_parameter_error hkind
    obtain hname | ⟨name, -, h⟩ := bind_error h
    · exact signature_parameter_error hname
    obtain hraw | ⟨raw, -, h⟩ := bind_error h
    · exact signature_parameter_error hraw
    · cases h
  | valueText kind name =>
    obtain hkind | ⟨kind, -, h⟩ := bind_error h
    · exact signature_parameter_error hkind
    obtain hname | ⟨name, -, h⟩ := bind_error h
    · exact signature_parameter_error hname
    · cases h

theorem signature_asks_error {response : Response} (h : server.asks request = .error response) :
    response.signature = none := by
  rw [asks] at h
  split at h
  · split at h
    · cases h
      rfl
    · split at h
      · exact signature_asksOn_error h
      · cases h
        rfl
  · cases h
    rfl

theorem signature_finish (route : Option Route) (method : String) (response : Response) :
    (finish route method response).signature = response.signature := by
  unfold finish
  cases route with
  | none => rfl
  | some route =>
    dsimp only
    split
    · split <;> rfl
    · rfl

theorem statusOf_ne_done (failure : Failure) : statusOf failure ≠ 200 := by
  unfold statusOf
  split <;> decide

/-- A request is refused without a signature, or what it asks for on its route is done. -/
theorem handle_cases {σ : Type} [Repository σ] (server : Server) (request : Request)
    (world : World σ) :
    ((server.handle request world).1.signature = none ∧
      (server.handle request world).1.status ≠ 200) ∨
    ∃ route demand served, Route.ofPath? request.path = some route ∧
      route.accepts request.method = true ∧ server.asksOn request route = .ok demand ∧
      (demand.perform world).1 = .ok served ∧
      server.handle request world = (finish (some route) request.method (server.reply demand served),
        (demand.perform world).2) := by
  rw [handle_apply]
  cases hasks : server.asks request with
  | error response =>
    left
    obtain ⟨hlow, -⟩ := asks_error hasks
    simp only [signature_finish, status_finish]
    exact ⟨signature_asks_error hasks, by omega⟩
  | ok demand =>
    simp only [serve_apply]
    rcases hperform : demand.perform world with ⟨failure | served, after⟩
    · left
      simp only [signature_finish, status_finish]
      exact ⟨rfl, statusOf_ne_done failure⟩
    · right
      obtain ⟨route, hroute, haccepts, hasksOn⟩ := asks_ok hasks
      exact ⟨route, demand, served, hroute, haccepts, hasksOn, by rw [hperform], by rw [hroute, hperform]⟩

end Server

/-! ### What is shown is what is stored -/

section

variable {σ : Type} [Repository σ] (holdings : Repository.Holdings σ) {world : World σ}
  {sample : Sample} {served : Answer}

/-- A store holds a record under the name and with the kind of a sample, and an answer shows it. -/
def ShowsHeld (store : σ) (sample : Sample) (served : Answer) : Prop :=
  ∃ record, holdings.held store sample.id = .ok (some record) ∧ record.kind = sample.kind ∧
    served = .shown (Sample.ofRecord record)

theorem showStored_done {name : String}
    (h : (Update.showStored name world).1 = .ok served) :
    ∃ record, holdings.held world.store name = .ok (some record) ∧
      (Update.showStored name world).2 = world ∧ served = .shown (Sample.ofRecord record) := by
  rw [Update.showStored] at h ⊢
  obtain ⟨found, after, hget, hrest⟩ := Action.bind_done h
  obtain ⟨hworld, hheld⟩ := holdings.get_eq (congrArg Prod.fst hget)
  cases hworld.symm.trans hget
  rw [hrest] at h ⊢
  cases found with
  | none => cases h
  | some record =>
    cases h
    exact ⟨record, hheld, rfl, rfl⟩

theorem updated_shows (h : ((Update.one sample).perform world).1 = .ok served) :
    ShowsHeld holdings ((Update.one sample).perform world).2.store sample served := by
  rw [Update.perform_one, Update.performRecord] at h ⊢
  obtain ⟨record, first, hrecord, hrest⟩ := Action.bind_done h
  obtain ⟨hread, rfl⟩ := Prod.mk.inj hrecord
  obtain ⟨hname, -, hkind, -⟩ := Sample.toRecord_ok (Update.recordOfSample_ok hread)
  rw [hrest] at h ⊢
  obtain ⟨existing, second, hget, hrest⟩ := Action.bind_done h
  obtain ⟨hworld, hexisting⟩ := holdings.get_eq (congrArg Prod.fst hget)
  cases hworld.symm.trans hget
  rw [hrest] at h ⊢
  obtain ⟨⟨⟩, written, hwrite, hrest⟩ := Action.bind_done h
  rw [hrest] at h ⊢
  -- The update is counted before the metric is looked up again, which the store does not see.
  change (Update.showStored record.name (written.count (.updated record.kind) 1)).1 = _ at h
  change ShowsHeld holdings
    (Update.showStored record.name (written.count (.updated record.kind) 1)).2.store sample served
  obtain ⟨stored, hstored, hlast, rfl⟩ := showStored_done holdings h
  have hstores : (Repository.write record.name record.value existing world).2.store = written.store := by
    rw [hwrite]
  rw [hlast, ShowsHeld, ← hname, ← hkind]
  refine ⟨stored, hstored, ?_, rfl⟩
  exact holdings.kind hexisting (congrArg Prod.fst hwrite) (hstores ▸ hstored)

theorem find_done {kind : Kind} {name : String} {record : Record}
    (h : (Service.find kind name world).1 = .ok record) :
    Service.find kind name world = (.ok record, world) ∧
      holdings.held world.store name = .ok (some record) ∧ record.kind = kind := by
  rw [Service.find] at h ⊢
  obtain ⟨⟨⟩, first, hnamed, hrest⟩ := Action.bind_done h
  obtain ⟨-, rfl⟩ := Prod.mk.inj hnamed
  rw [hrest] at h ⊢
  obtain ⟨found, second, hget, hrest⟩ := Action.bind_done h
  obtain ⟨hworld, hheld⟩ := holdings.get_eq (congrArg Prod.fst hget)
  cases hworld.symm.trans hget
  rw [hrest] at h ⊢
  cases found with
  | none => cases h
  | some stored =>
    dsimp only at h ⊢
    by_cases hkind : stored.kind = kind
    · rw [if_pos hkind] at h ⊢
      cases h
      exact ⟨rfl, hheld, hkind⟩
    · rw [if_neg hkind] at h
      cases h

theorem found_shows (h : ((Query.one sample).perform world).1 = .ok served) :
    ShowsHeld holdings ((Query.one sample).perform world).2.store sample served := by
  obtain ⟨shown, last, hlookup, hserved⟩ := Action.bind_done h
  obtain ⟨record, after, hfind, hshown⟩ := Action.bind_done (congrArg Prod.fst hlookup)
  obtain ⟨hdone, hheld, hkind⟩ := find_done holdings (congrArg Prod.fst hfind)
  cases hdone.symm.trans hfind
  cases hshown.symm.trans hlookup
  have hperform : (Query.one sample).perform world
      = (.ok (.shown (Sample.ofRecord record)), world) := hserved
  rw [hperform] at h ⊢
  cases h
  exact ⟨record, hheld, hkind, rfl⟩

end

namespace Server

/-- The answer to a request is the document of the record that is stored, after it was answered, under
the name and with the kind that its body asks for. -/
def ShowsStored (server : Server) (protection : Protection) (request : Request) (response : Response)
    (after : World Store) : Prop :=
  ∃ content sample record, server.content protection request = .ok content ∧
    Sample.ofBytes content = .ok sample ∧
    Repository.get sample.id after = (.ok (some record), after) ∧
    record.name = sample.id ∧ record.kind = sample.kind ∧
    response.body = (Sample.ofRecord record).toBytes

/-- What a client can rely on in an answer, given the store as it is after it. -/
structure Answers (server : Server) (request : Request) (response : Response) (after : World Store) :
    Prop where
  signed_iff : (∃ value, ("hashsha256", value) ∈ response.headers) ↔
    server.secret.isSome = true ∧ response.status = 200 ∧ request.method = "POST" ∧
      ∃ route, Route.ofPath? request.path = some route ∧ route.IsInJson
  verifies {value : String} (h : ("hashsha256", value) ∈ response.headers) :
    ∃ secret, server.secret = some secret ∧ Signature.verify value response.body secret = true
  updated (hroute : Route.ofPath? request.path = some .update) (hdone : response.status = 200) :
    server.ShowsStored ⟨true, true⟩ request response after
  found (hroute : Route.ofPath? request.path = some .value) (hdone : response.status = 200) :
    server.ShowsStored ⟨false, false⟩ request response after

variable {server : Server} {request : Request}

theorem isReading_of_isInJson {route : Route} (h : route.IsInJson) : route.isReading = false := by
  obtain h | rfl := h
  · exact isReading_of_takesBody h
  · rfl

theorem showsStored_of_held {protection : Protection} {after : World Store} {content : Bytes}
    {sample : Sample} {served : Answer} {response : Response}
    (hcontent : server.content protection request = .ok content)
    (hsample : Sample.ofBytes content = .ok sample)
    (h : ShowsHeld Store.holdings after.store sample served)
    (hbody : ∀ shown, served = .shown shown → response.body = shown.toBytes) :
    server.ShowsStored protection request response after := by
  obtain ⟨record, hheld, hkind, hserved⟩ := h
  exact ⟨content, sample, record, hcontent, hsample, Store.holdings.get_of_held hheld,
    Store.holdings.name hheld, hkind, hbody _ hserved⟩

theorem update_shows {world : World Store} {demand : Demand} {served : Answer}
    (hasks : server.asksOn request .update = .ok demand)
    (hperform : (demand.perform world).1 = .ok served) :
    server.ShowsStored ⟨true, true⟩ request (server.reply demand served) (demand.perform world).2 := by
  obtain ⟨-, -, content, hcontent, hread⟩ := asksInBody_ok_iff.1 hasks
  obtain ⟨sample, hsample, rfl⟩ := Json.Numeral.map_ok hread
  rw [Demand.perform] at hperform ⊢
  refine showsStored_of_held hcontent hsample (updated_shows Store.holdings hperform) ?_
  rintro shown rfl
  rw [reply_shown server (.updated sample shown), body_json]

theorem value_shows {world : World Store} {demand : Demand} {served : Answer}
    (hasks : server.asksOn request .value = .ok demand)
    (hperform : (demand.perform world).1 = .ok served) :
    server.ShowsStored ⟨false, false⟩ request (server.reply demand served) (demand.perform world).2 := by
  obtain ⟨-, -, content, hcontent, hread⟩ := asksInBody_ok_iff.1 hasks
  obtain ⟨query, hquery, rfl⟩ := Json.Numeral.map_ok hread
  rw [Demand.perform] at hperform ⊢
  refine showsStored_of_held hcontent hquery (found_shows Store.holdings hperform) ?_
  rintro shown rfl
  rw [reply_shown server (.found query shown), body_json]

theorem answers_unsigned {response : Response} {after : World Store}
    (hunsigned : response.signature = none)
    (hplain : ∀ route, Route.ofPath? request.path = some route → route.IsInJson →
      response.status ≠ 200) : server.Answers request response after := by
  have hnone (value : String) : ("hashsha256", value) ∉ response.headers := by
    rw [Response.mem_headers, hunsigned]
    exact nofun
  refine ⟨?signed, fun h => absurd h (hnone _), ?updated, ?found⟩
  case signed =>
    constructor
    · rintro ⟨value, h⟩
      exact absurd h (hnone value)
    · rintro ⟨-, hdone, -, route, hroute, hjson⟩
      exact absurd hdone (hplain route hroute hjson)
  case updated => exact fun hroute hdone => absurd hdone (hplain _ hroute (.inl (.inl rfl)))
  case found => exact fun hroute hdone => absurd hdone (hplain _ hroute (.inr rfl))

theorem answers_signed {response : Response} {after : World Store}
    (hsigned : response.signature = server.secret.map (Signature.sign response.body))
    (hdone : response.status = 200) (hmethod : request.method = "POST") {route : Route}
    (hroute : Route.ofPath? request.path = some route) (hjson : route.IsInJson)
    (hupdated : route = .update → server.ShowsStored ⟨true, true⟩ request response after)
    (hfound : route = .value → server.ShowsStored ⟨false, false⟩ request response after) :
    server.Answers request response after := by
  have hheader (value : String) : ("hashsha256", value) ∈ response.headers ↔
      ∃ secret, server.secret = some secret ∧ Signature.sign response.body secret = value := by
    rw [Response.mem_headers, hsigned, Option.map_eq_some_iff]
  refine ⟨?signed, ?verifies, ?updated, ?found⟩
  case signed =>
    simp only [hheader, hdone, hmethod, true_and, Option.isSome_iff_exists]
    constructor
    · rintro ⟨value, secret, hsecret, -⟩
      exact ⟨⟨secret, hsecret⟩, route, hroute, hjson⟩
    · rintro ⟨⟨secret, hsecret⟩, -⟩
      exact ⟨_, secret, hsecret, rfl⟩
  case verifies =>
    intro value h
    obtain ⟨secret, hsecret, rfl⟩ := (hheader value).1 h
    exact ⟨secret, hsecret, Signature.verify_sign response.body secret⟩
  case updated => exact fun hother _ => hupdated (Option.some.inj (hroute.symm.trans hother))
  case found => exact fun hother _ => hfound (Option.some.inj (hroute.symm.trans hother))

/-- **A signature says what was sent, and a shown metric what is stored.** Whatever the settings of
the server, the request and the state of the store, an answer is signed exactly when there is a secret
and the request was one for JSON that was done; the signature is that of the bytes that are sent; and
the metric that is shown is the one that is stored under the name and with the kind asked for. -/
theorem answer_signed_and_stored (server : Server) (request : Request) (world : World Store) :
    server.Answers request (server.handle request world).1 (server.handle request world).2 := by
  obtain ⟨hunsigned, hrefused⟩ | ⟨route, demand, served, hroute, haccepts, hasks, hperform, hhandle⟩ :=
    handle_cases server request world
  · exact answers_unsigned hunsigned fun _ _ _ => hrefused
  · have hsame := isInJson_of_asksOn hasks
    rw [hhandle]
    show server.Answers request (finish (some route) request.method (server.reply demand served))
      (demand.perform world).2
    obtain ⟨hjson, hsignature⟩ | ⟨hplain, hsignature⟩ := signature_reply server
      (Demand.answered hperform)
    · have hreading := isReading_of_isInJson (hsame.2 hjson)
      have hmethod := (accepts_iff hreading _).1 haccepts
      rw [hmethod, finish_accepted hreading]
      refine answers_signed hsignature (status_reply _ _ _) hmethod hroute (hsame.2 hjson) ?_ ?_
      · rintro rfl
        exact update_shows hasks hperform
      · rintro rfl
        exact value_shows hasks hperform
    · refine answers_unsigned (by rw [signature_finish, hsignature]) fun other hother hjson => ?_
      cases hroute.symm.trans hother
      exact absurd (hsame.1 hjson) hplain

/-- A counter that is increased is shown as it is stored then, under the signature of the bytes that
show it. -/
theorem answer_signed_and_stored_counter :
    let server : Server := ⟨some "k", none, none⟩
    let world : World Store := ⟨.memory ⟨[⟨"a", .counter 2⟩]⟩, ⟨[], Counters.empty, 0⟩⟩
    let request : Request := ⟨"POST", "/update/", [("content-type", "application/json"),
      ("HashSHA256", "f41c9a8c64161bb8eaf6966177a12cfe46c71d6d8f9cc62125b073eb655ca16b")],
      (Sample.counter "a" 1).toBytes⟩
    let response := (server.handle request world).1
    let signature := "6b0676d6c24335f809ef8470f54678516c9b8faf3969d93555edbada9d9d6c9e"
    response.status = 200 ∧
      response.body = Bytes.ofString "\x7b\"id\":\"a\",\"type\":\"counter\",\"delta\":3\x7d" ∧
      ("hashsha256", signature) ∈ response.headers ∧
      (∃ secret, server.secret = some secret ∧
        Signature.verify signature response.body secret = true) ∧
      server.ShowsStored ⟨true, true⟩ request response (server.handle request world).2 := by
  intro server world request response signature
  have hanswers : server.Answers request response (server.handle request world).2 :=
    answer_signed_and_stored server request world
  have hresponse : response = ⟨200, some Response.jsonType, none, some signature, 37,
      Bytes.ofString "\x7b\"id\":\"a\",\"type\":\"counter\",\"delta\":3\x7d"⟩ := by decide +kernel
  have hdone : response.status = 200 := by rw [hresponse]
  have hheader : ("hashsha256", signature) ∈ response.headers := by
    rw [hresponse]
    simp [Response.headers]
  have hroute : Route.ofPath? request.path = some .update := by decide
  exact ⟨hdone, by rw [hresponse], hheader, hanswers.verifies hheader, hanswers.updated hroute hdone⟩

end Server

end Http

end Telemetry
