import Telemetry.Http.Server
import Telemetry.Proofs.Service.Query

/-!
# What a request asks for

Everything that can go wrong with a request before the store is reached depends on the settings of
the server and on the request alone: who sends it, its route and method, its size and type, the
layers around its body, the document in it, and the parameters of its path. What is left is a demand
on the service, and the answer is then that of the service. A request is therefore handled in two
steps, of which only the second one sees the store.
-/

namespace Telemetry.Http

open Service (Update Query Answer)

/-- What a request asks of the service. -/
inductive Demand where
  | write (update : Update)
  | read (query : Query)
  | ping

section

variable {σ : Type} [Repository σ]

def Demand.perform : Demand → Action σ Answer
  | .write update => update.perform
  | .read query => query.perform
  | .ping => do
    Repository.ping
    pure .done

namespace Server

/-- What the body of a request asks for, as its content is read. -/
def asksInBody (server : Server) (protection : Protection) (request : Request)
    (read : Bytes → Except Failure Demand) : Except Response Demand :=
  if request.isTooLarge then
    .error (.plain 413 "Failed to buffer the request body: length limit exceeded")
  else if !request.isJson then .error (.refusal 415)
  else ((server.content protection request).bind read).mapError Response.ofFailure

/-- What a request asks for on a route, or the answer to one that asks for nothing. -/
def asksOn (server : Server) (request : Request) : Route → Except Response Demand
  | .index => .ok (.read .page)
  | .ping => .ok .ping
  | .update => server.asksInBody ⟨true, true⟩ request fun content =>
      (Sample.ofBytes content).map fun sample => .write (.one sample)
  | .updates => server.asksInBody ⟨true, false⟩ request fun content =>
      (Sample.listOfBytes content).map fun samples => .write (.batch samples)
  | .value => server.asksInBody ⟨false, false⟩ request fun content =>
      (Sample.ofBytes content).map fun query => .read (.one query)
  | .updateText kind name raw => do
    let kind ← parameter "type" kind
    let name ← parameter "name" name
    let raw ← parameter "value" raw
    pure (.write (.text kind name raw))
  | .valueText kind name => do
    let kind ← parameter "type" kind
    let name ← parameter "name" name
    pure (.read (.text kind name))

def asks (server : Server) (request : Request) : Except Response Demand :=
  if server.admits request then match Route.ofPath? request.path with
    | none => .error (.bare 404)
    | some route =>
      if route.accepts request.method then server.asksOn request route else .error (.bare 405)
  else .error (.refusal 403)

def reply (server : Server) : Demand → Answer → Response
  | .write (.batch _), _ => server.json []
  | .read .page, .text page => .withBody 200 Response.pageType (Bytes.ofString page)
  | _, .shown sample => server.json sample.toBytes
  | _, .text text => .plain 200 text
  | _, .done => .bare 200

def serve (server : Server) (demand : Demand) : Handler σ := answer do
  let served ← demand.perform
  pure (server.reply demand served)

/-! ### The two steps -/

theorem answerBody_apply (server : Server) (protection : Protection) (request : Request)
    {act : Bytes → Action σ Bytes} {read : Bytes → Except Failure Demand} (world : World σ)
    (hact : ∀ content, answer (act content >>= fun body => pure (server.json body)) world =
      match read content with
      | .error failure => (.ofFailure failure, world)
      | .ok demand => server.serve demand world) :
    server.answerBody protection request act world =
      match server.asksInBody protection request read with
      | .error response => (response, world)
      | .ok demand => server.serve demand world := by
  unfold answerBody asksInBody decode
  split
  · rfl
  · split
    · rfl
    · cases server.content protection request with
      | error failure => rfl
      | ok content =>
        refine (hact content).trans ?_
        simp only [Except.bind]
        cases read content <;> rfl

theorem serve_apply (server : Server) (demand : Demand) (world : World σ) :
    server.serve demand world = match demand.perform world with
      | (.ok served, after) => (server.reply demand served, after)
      | (.error failure, after) => (.ofFailure failure, after) := by
  unfold serve answer
  rw [Action.bind_apply]
  rcases demand.perform world with ⟨failure | served, after⟩ <;> rfl

theorem onRoute_apply (server : Server) (request : Request) (route : Route) (world : World σ) :
    server.onRoute request route world = match server.asksOn request route with
      | .error response => (response, world)
      | .ok demand => server.serve demand world := by
  cases route with
  | index =>
    simp only [onRoute, asksOn, serve_apply, Demand.perform, Query.perform, answer,
      Action.bind_apply]
    rcases (Service.indexPage : Action σ String) world with ⟨failure | page, after⟩ <;> rfl
  | ping =>
    simp only [onRoute, asksOn, serve_apply, Demand.perform, answer, Action.bind_apply]
    rcases (Repository.ping : Action σ Unit) world with ⟨failure | done, after⟩ <;> rfl
  | update =>
    apply answerBody_apply
    intro content
    simp only [updateBody, serve_apply, answer, Action.bind_apply, Action.ofResult_apply]
    cases Sample.ofBytes content with
    | error failure => rfl
    | ok sample =>
      simp only [Except.map, Demand.perform, Update.perform, Action.bind_apply]
      rcases (Service.applySample sample : Action σ Sample) world with ⟨failure | stored, after⟩ <;> rfl
  | updates =>
    apply answerBody_apply
    intro content
    simp only [updatesBody, serve_apply, answer, Action.bind_apply, Action.ofResult_apply]
    cases Sample.listOfBytes content with
    | error failure => rfl
    | ok samples =>
      simp only [Except.map, Demand.perform, Update.perform, Action.bind_apply]
      rcases (Service.applyBatch samples : Action σ Unit) world with ⟨failure | done, after⟩ <;> rfl
  | value =>
    apply answerBody_apply
    intro content
    simp only [valueBody, serve_apply, answer, Action.bind_apply, Action.ofResult_apply]
    cases Sample.ofBytes content with
    | error failure => rfl
    | ok query =>
      simp only [Except.map, Demand.perform, Query.perform, Action.bind_apply]
      rcases (Service.lookup query : Action σ Sample) world with ⟨failure | found, after⟩ <;> rfl
  | updateText kind name raw =>
    simp only [onRoute, asksOn, serve_apply, withParameters]
    cases parameter "type" kind with
    | error response => rfl
    | ok kind =>
      cases parameter "name" name with
      | error response => rfl
      | ok name =>
        cases parameter "value" raw with
        | error response => rfl
        | ok raw =>
          simp only [bind, Except.bind, pure, Except.pure, Demand.perform, Update.perform, answer]
          rcases (Service.applyText kind name raw : Action σ Unit) world
            with ⟨failure | done, after⟩ <;> rfl
  | valueText kind name =>
    simp only [onRoute, asksOn, serve_apply, withParameters]
    cases parameter "type" kind with
    | error response => rfl
    | ok kind =>
      cases parameter "name" name with
      | error response => rfl
      | ok name =>
        simp only [bind, Except.bind, pure, Except.pure, Demand.perform, Query.perform, answer]
        rcases (Service.lookupText kind name : Action σ String) world
          with ⟨failure | text, after⟩ <;> rfl

/-- A request that asks for nothing is answered at once, and what another one asks for is done. -/
theorem handle_apply (server : Server) (request : Request) (world : World σ) :
    server.handle request world =
      let outcome := match server.asks request with
        | .error response => (response, world)
        | .ok demand => server.serve demand world
      (finish (Route.ofPath? request.path) request.method outcome.1, outcome.2) := by
  unfold handle asks dispatch
  by_cases hadmits : server.admits request = true
  · simp only [hadmits, if_true]
    cases Route.ofPath? request.path with
    | none => rfl
    | some route =>
      by_cases haccepts : route.accepts request.method = true
      · simp only [haccepts, if_true, onRoute_apply]
      · simp only [haccepts]
        rfl
  · simp only [hadmits]
    rfl

/-! ### Statuses -/

@[simp] theorem status_finish (route : Option Route) (method : String) (response : Response) :
    (finish route method response).status = response.status := by
  unfold finish
  cases route with
  | none => rfl
  | some route =>
    dsimp only
    split
    · split <;> rfl
    · rfl

@[simp] theorem status_reply (server : Server) (demand : Demand) (served : Answer) :
    (server.reply demand served).status = 200 := by
  unfold reply
  split <;> rfl

/-- The status tells whether the request asked for something and whether that was done. -/
theorem status_handle (server : Server) (request : Request) (world : World σ) :
    (server.handle request world).1.status = match server.asks request with
      | .error response => response.status
      | .ok demand => match (demand.perform world).1 with
        | .ok _ => 200
        | .error failure => statusOf failure := by
  rw [handle_apply]
  simp only [status_finish]
  cases server.asks request with
  | error response => rfl
  | ok demand =>
    simp only [serve_apply]
    rcases demand.perform world with ⟨failure | served, after⟩
    · rfl
    · exact status_reply server demand served

theorem handle_world (server : Server) (request : Request) (world : World σ) :
    (server.handle request world).2 = match server.asks request with
      | .error _ => world
      | .ok demand => (demand.perform world).2 := by
  rw [handle_apply]
  cases server.asks request with
  | error response => rfl
  | ok demand =>
    simp only [serve_apply]
    rcases demand.perform world with ⟨failure | served, after⟩ <;> rfl

end Server

end

/-! ### A request that asks for nothing is at fault itself -/

def IsClientFault (status : Nat) : Prop := 400 ≤ status ∧ status < 500

instance (status : Nat) : Decidable (IsClientFault status) :=
  inferInstanceAs (Decidable (_ ∧ _))

theorem isClientFault_badRequest : IsClientFault 400 := by decide

theorem isClientFault_notFound : IsClientFault 404 := by decide

section

variable {ε α β : Type}

theorem map_error {result : Except ε α} {f : α → β} {error : ε}
    (h : result.map f = .error error) : result = .error error := by
  cases result <;> cases h
  rfl

theorem bind_error {result : Except ε α} {next : α → Except ε β} {error : ε}
    (h : (result >>= next) = .error error) :
    result = .error error ∨ ∃ a, result = .ok a ∧ next a = .error error := by
  cases result with
  | error first =>
    cases h
    exact .inl rfl
  | ok a => exact .inr ⟨a, rfl, h⟩

end

theorem decompress_error {raw : Bytes} {failure : Failure}
    (h : Gzip.decompress raw = .error failure) : statusOf failure = 400 := by
  unfold Gzip.decompress at h
  cases hread : Gzip.read raw with
  | error fault =>
    rw [hread] at h
    cases h
    rfl
  | ok body =>
    rw [hread] at h
    cases h

theorem decrypt_error {key : Rsa.PrivateKey} {text : Bytes} {failure : Failure}
    (h : Rsa.decrypt key text = .error failure) : statusOf failure = 400 := by
  unfold Rsa.decrypt at h
  split at h
  · cases h
    rfl
  · split at h
    · cases h
      rfl
    · cases h

theorem checkSignature_error {signature : Option String} {body : Bytes} {secret : String}
    {failure : Failure} (h : Service.checkSignature signature body secret = .error failure) :
    statusOf failure = 400 := by
  unfold Service.checkSignature at h
  split at h
  · cases h
    rfl
  · split at h
    · cases h
    · cases h
      rfl

theorem decodeBody_error {headers : Service.BodyHeaders} {raw : Bytes} {secret : Option String}
    {key : Option Rsa.PrivateKey} {failure : Failure}
    (h : Service.decodeBody headers raw secret key = .error failure) : statusOf failure = 400 := by
  unfold Service.decodeBody at h
  split at h
  · rename_i refused hbody
    cases h
    unfold Service.decompressBody at hbody
    split at hbody
    · split at hbody
      · exact decompress_error hbody
      · cases hbody
    · cases hbody
  · split at h
    · rename_i refused hsignature
      cases h
      cases secret with
      | none => cases hsignature
      | some secret => exact checkSignature_error hsignature
    · cases key with
      | none => cases h
      | some key => exact decrypt_error h

theorem ofBytes_error {bytes : Bytes} {failure : Failure}
    (h : Sample.ofBytes bytes = .error failure) : statusOf failure = 400 := by
  unfold Sample.ofBytes at h
  cases hread : Sample.reader.document bytes <;> rw [hread] at h <;> cases h
  rfl

theorem listOfBytes_error {bytes : Bytes} {failure : Failure}
    (h : Sample.listOfBytes bytes = .error failure) : statusOf failure = 400 := by
  unfold Sample.listOfBytes at h
  cases hread : Sample.reader.list.document bytes <;> rw [hread] at h <;> cases h
  rfl

namespace Server

theorem asksInBody_error {server : Server} {protection : Protection} {request : Request}
    {read : Bytes → Except Failure Demand} {response : Response}
    (hread : ∀ content failure, read content = .error failure → statusOf failure = 400)
    (h : server.asksInBody protection request read = .error response) :
    IsClientFault response.status := by
  unfold asksInBody at h
  split at h
  · cases h
    decide
  · split at h
    · cases h
      decide
    · cases hcontent : server.content protection request with
      | error failure =>
        rw [hcontent] at h
        cases h
        change IsClientFault (statusOf failure)
        rw [decodeBody_error hcontent]
        exact isClientFault_badRequest
      | ok content =>
        simp only [hcontent, Except.bind] at h
        cases hfailure : read content with
        | error failure =>
          rw [hfailure] at h
          cases h
          change IsClientFault (statusOf failure)
          rw [hread content failure hfailure]
          exact isClientFault_badRequest
        | ok demand =>
          rw [hfailure] at h
          cases h

theorem parameter_error {name segment : String} {response : Response}
    (h : parameter name segment = .error response) : IsClientFault response.status := by
  unfold parameter at h
  split at h
  · cases h
  · cases h
    exact isClientFault_badRequest

theorem asksOn_error {server : Server} {request : Request} {route : Route} {response : Response}
    (h : server.asksOn request route = .error response) : IsClientFault response.status := by
  cases route with
  | index => cases h
  | ping => cases h
  | update =>
    refine asksInBody_error (fun content failure hread => ?_) h
    exact ofBytes_error (map_error hread)
  | updates =>
    refine asksInBody_error (fun content failure hread => ?_) h
    exact listOfBytes_error (map_error hread)
  | value =>
    refine asksInBody_error (fun content failure hread => ?_) h
    exact ofBytes_error (map_error hread)
  | updateText kind name raw =>
    obtain hkind | ⟨kind, _, h⟩ := bind_error h
    · exact parameter_error hkind
    · obtain hname | ⟨name, _, h⟩ := bind_error h
      · exact parameter_error hname
      · obtain hraw | ⟨raw, _, h⟩ := bind_error h
        · exact parameter_error hraw
        · cases h
  | valueText kind name =>
    obtain hkind | ⟨kind, _, h⟩ := bind_error h
    · exact parameter_error hkind
    · obtain hname | ⟨name, _, h⟩ := bind_error h
      · exact parameter_error hname
      · cases h

theorem asks_error {server : Server} {request : Request} {response : Response}
    (h : server.asks request = .error response) : IsClientFault response.status := by
  unfold asks at h
  split at h
  · split at h
    · cases h
      decide
    · split at h
      · exact asksOn_error h
      · cases h
        decide
  · cases h
    decide

end Server

end Telemetry.Http
