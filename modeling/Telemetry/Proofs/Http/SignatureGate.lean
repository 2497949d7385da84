import Telemetry.Proofs.Http.Refusal
import Telemetry.Proofs.Service.Reading

/-!
# What a secret keeps out

With a secret, an update in a body comes to the store only under a signature of the body as it is
after decompression and before decryption. Before that check nothing of the body has been read, so
the answer to a body without a right signature tells nothing about it. Updates in a path carry no
signature and are not kept out.
-/

namespace Telemetry.Http

open Service (Update)

/-- The body of a request before decryption. -/
def Request.unpacked (request : Request) : Except Failure Bytes :=
  Service.decompressBody (request.header? "content-encoding") request.body

/-- A request carries the keyed digest of its body before decryption. -/
def Request.IsSigned (request : Request) (secret : String) : Prop :=
  ∃ value body, request.header? "hashsha256" = some value ∧ request.unpacked = .ok body ∧
    Hex.decode? value.toList = some (Signature.mac (Bytes.ofString secret) body)

/-- The routes that take an update from a body. -/
def Route.TakesBody (route : Route) : Prop := route = .update ∨ route = .updates

theorem checkSignature_cases (signature : Option String) (body : Bytes) (secret : String) :
    (Service.checkSignature signature body secret = .ok () ∧ ∃ value, signature = some value ∧
      Hex.decode? value.toList = some (Signature.mac (Bytes.ofString secret) body)) ∨
    ((∃ reason, Service.checkSignature signature body secret = .error (.signature reason)) ∧
      ∀ value, signature = some value →
        Hex.decode? value.toList ≠ some (Signature.mac (Bytes.ofString secret) body)) := by
  cases signature with
  | none => exact .inr ⟨⟨_, rfl⟩, nofun⟩
  | some value =>
    by_cases hverify : Signature.verify value body secret = true
    · exact .inl ⟨if_pos hverify, value, rfl, beq_iff_eq.1 hverify⟩
    · refine .inr ⟨⟨_, if_neg hverify⟩, ?_⟩
      intro other hother hdigest
      cases hother
      exact hverify (beq_iff_eq.2 hdigest)

namespace Server

variable {server : Server} {secret : String} {request : Request}

/-- What a signed route gets out of a body that can be unpacked: nothing without a right signature. -/
theorem content_cases (hsecret : server.secret = some secret) (encrypted : Bool) {body : Bytes}
    (hbody : request.unpacked = .ok body) :
    request.IsSigned secret ∨
      ∃ reason, server.content ⟨true, encrypted⟩ request = .error (.signature reason) := by
  obtain ⟨_, value, hvalue, hdigest⟩ | ⟨⟨reason, hrefused⟩, _⟩ :=
    checkSignature_cases (request.header? "hashsha256") body secret
  · exact .inl ⟨value, body, hvalue, hbody, hdigest⟩
  · refine .inr ⟨reason, ?_⟩
    unfold Request.unpacked at hbody
    simp only [content, Service.decodeBody, hbody, hsecret, if_true, Option.elim_some, hrefused]

theorem isSigned_of_content (hsecret : server.secret = some secret) {encrypted : Bool}
    {text : Bytes} (h : server.content ⟨true, encrypted⟩ request = .ok text) :
    request.IsSigned secret := by
  cases hbody : request.unpacked with
  | error failure =>
    unfold Request.unpacked at hbody
    simp only [content, Service.decodeBody, hbody] at h
    cases h
  | ok body =>
    obtain hsigned | ⟨reason, hrefused⟩ := content_cases hsecret encrypted hbody
    · exact hsigned
    · rw [hrefused] at h
      cases h

/-! ### Requests that ask for an update -/

theorem asksOn_write {route : Route} {update : Update}
    (h : server.asksOn request route = .ok (.write update)) :
    (∃ kind name raw, route = .updateText kind name raw) ∨
      route.TakesBody ∧ ∃ encrypted text, server.content ⟨true, encrypted⟩ request = .ok text := by
  cases route with
  | index => cases h
  | ping => cases h
  | update =>
    obtain ⟨_, _, text, htext, _⟩ := asksInBody_ok_iff.1 h
    exact .inr ⟨.inl rfl, true, text, htext⟩
  | updates =>
    obtain ⟨_, _, text, htext, _⟩ := asksInBody_ok_iff.1 h
    exact .inr ⟨.inr rfl, false, text, htext⟩
  | value =>
    obtain ⟨_, _, text, _, hread⟩ := asksInBody_ok_iff.1 h
    obtain ⟨query, _, hother⟩ := Json.Numeral.map_ok hread
    cases hother
  | updateText kind name raw => exact .inl ⟨kind, name, raw, rfl⟩
  | valueText kind name =>
    rw [asksOn] at h
    obtain ⟨kind, _, h⟩ := Update.bind_ok h
    obtain ⟨name, _, h⟩ := Update.bind_ok h
    cases h

theorem asks_ok {demand : Demand} (h : server.asks request = .ok demand) :
    ∃ route, Route.ofPath? request.path = some route ∧ route.accepts request.method = true ∧
      server.asksOn request route = .ok demand := by
  unfold asks at h
  split at h
  · split at h
    · cases h
    · rename_i route hroute
      split at h
      · rename_i haccepts
        exact ⟨route, hroute, haccepts, h⟩
      · cases h
  · cases h

theorem isReading_of_takesBody {route : Route} (h : route.TakesBody) : route.isReading = false := by
  rcases h with rfl | rfl <;> rfl

theorem accepts_iff {route : Route} (hwrites : route.isReading = false) (method : String) :
    route.accepts method = true ↔ method = "POST" := by
  rw [Route.accepts, hwrites]
  exact beq_iff_eq

/-- An update is asked for in a path, or in a body under a right signature. -/
theorem asks_write (hsecret : server.secret = some secret) {update : Update}
    (h : server.asks request = .ok (.write update)) :
    request.method = "POST" ∧ ∃ route, Route.ofPath? request.path = some route ∧
      ((∃ kind name raw, route = .updateText kind name raw) ∨
        route.TakesBody ∧ request.IsSigned secret) := by
  obtain ⟨route, hroute, haccepts, hasks⟩ := asks_ok h
  obtain ⟨kind, name, raw, rfl⟩ | ⟨hbody, encrypted, text, htext⟩ := asksOn_write hasks
  · exact ⟨(accepts_iff rfl _).1 haccepts, _, hroute, .inl ⟨kind, name, raw, rfl⟩⟩
  · have hmethod := (accepts_iff (isReading_of_takesBody hbody) _).1 haccepts
    exact ⟨hmethod, route, hroute, .inr ⟨hbody, isSigned_of_content hsecret htext⟩⟩

theorem handle_reads {σ : Type} [Repository σ] (looks : Repository.Looks σ)
    (h : ∀ update, server.asks request ≠ .ok (.write update)) (world : World σ) :
    (server.handle request world).2.store = world.store ∧
      (server.handle request world).2.host.disk = world.host.disk := by
  rw [handle_world]
  cases hasks : server.asks request with
  | error response => exact ⟨rfl, rfl⟩
  | ok demand =>
    cases demand with
    | write update => exact absurd hasks (h update)
    | read query => exact query.reads_perform looks world
    | ping => exact (looks.ping.bind fun _ => .pure _) world

/-! ### Requests without a right signature -/

theorem finish_accepted {route : Route} (hwrites : route.isReading = false) (response : Response) :
    finish (some route) "POST" response = response := by
  have haccepts : route.accepts "POST" = true := (accepts_iff hwrites _).2 rfl
  have hmethod : ("POST" = "HEAD") = False := by decide
  simp only [finish, haccepts, if_true, hmethod, if_false]

theorem asksInBody_unsigned {encrypted : Bool} {read : Bytes → Except Failure Demand}
    (hfits : request.isTooLarge = false) (hjson : request.isJson = true) {reason : String}
    (h : server.content ⟨true, encrypted⟩ request = .error (.signature reason)) :
    server.asksInBody ⟨true, encrypted⟩ request read = .error (.refusal 400) := by
  simp only [asksInBody, hfits, hjson, h]
  rfl

theorem handle_unsigned {σ : Type} [Repository σ] (hsecret : server.secret = some secret)
    (hadmits : server.admits request = true) {route : Route}
    (hroute : Route.ofPath? request.path = some route) (htakes : route.TakesBody)
    (hmethod : request.method = "POST") (hfits : request.isTooLarge = false)
    (hjson : request.isJson = true) {body : Bytes} (hbody : request.unpacked = .ok body)
    (hunsigned : ¬ request.IsSigned secret) (world : World σ) :
    server.handle request world = (.refusal 400, world) := by
  have hwrites := isReading_of_takesBody htakes
  have hasksOn : server.asksOn request route = .error (.refusal 400) := by
    obtain rfl | rfl := htakes
    · obtain hsigned | ⟨reason, hrefused⟩ := content_cases hsecret true hbody
      · exact absurd hsigned hunsigned
      · exact asksInBody_unsigned hfits hjson hrefused
    · obtain hsigned | ⟨reason, hrefused⟩ := content_cases hsecret false hbody
      · exact absurd hsigned hunsigned
      · exact asksInBody_unsigned hfits hjson hrefused
  have hasks : server.asks request = .error (.refusal 400) := by
    have haccepts := (accepts_iff hwrites _).2 hmethod
    simp only [asks, hadmits, hroute, haccepts, if_true, hasksOn]
  rw [handle_apply, hasks, hroute, hmethod]
  simp only [finish_accepted hwrites]

/-- **Nothing comes to the store without a signature.** With a secret, only a value in a path, or a
body with the keyed digest of what is in it before decryption, changes the store or its files. A body
without that digest is answered alike whatever is in it, and the world stays as it is. -/
theorem signature_gate (hsecret : server.secret = some secret) (request : Request)
    (world : World Store) :
    ((server.handle request world).2.store ≠ world.store ∨
        (server.handle request world).2.host.disk ≠ world.host.disk →
      request.method = "POST" ∧ ∃ route, Route.ofPath? request.path = some route ∧
        ((∃ kind name raw, route = .updateText kind name raw) ∨
          route.TakesBody ∧ request.IsSigned secret)) ∧
    ∀ route body, server.admits request = true → Route.ofPath? request.path = some route →
      route.TakesBody → request.method = "POST" → request.isTooLarge = false →
      request.isJson = true → request.unpacked = .ok body → ¬ request.IsSigned secret →
      server.handle request world = (.refusal 400, world) := by
  constructor
  · intro hchanged
    by_cases hwrite : ∃ update, server.asks request = .ok (.write update)
    · obtain ⟨update, hasks⟩ := hwrite
      exact asks_write hsecret hasks
    · obtain ⟨hstore, hdisk⟩ := handle_reads Store.looks (not_exists.1 hwrite) world
      exact absurd hchanged (not_or.2 ⟨not_not_intro hstore, not_not_intro hdisk⟩)
  · intro route body hadmits hroute htakes hmethod hfits hjson hbody hunsigned
    exact handle_unsigned hsecret hadmits hroute htakes hmethod hfits hjson hbody hunsigned world

/-- A signed counter is stored; without its signature it is answered like a body that is no JSON. -/
theorem signature_gate_counter :
    let server : Server := ⟨some "k", none, none⟩
    let world : World Store := ⟨.memory MemoryStore.empty, ⟨[], Counters.empty, 0⟩⟩
    let plain : Request := ⟨"POST", "/update/", [("content-type", "application/json")],
      (Sample.counter "a" 1).toBytes⟩
    let signature := "f41c9a8c64161bb8eaf6966177a12cfe46c71d6d8f9cc62125b073eb655ca16b"
    let signed : Request := { plain with headers := ("HashSHA256", signature) :: plain.headers }
    let garbled : Request := { plain with body := Bytes.ofString "[" }
    (server.handle signed world).2.store ≠ world.store ∧ signed.IsSigned "k" ∧
      server.handle plain world = (.refusal 400, world) ∧
      server.handle garbled world = (.refusal 400, world) := by
  intro server world plain signature signed garbled
  have hsecret : server.secret = some "k" := rfl
  have hchanged : (server.handle signed world).2.store ≠ world.store := by decide +kernel
  have hroute : Route.ofPath? signed.path = some .update := by decide
  have hunsigned (request : Request) (h : request.header? "hashsha256" = none) :
      ¬ request.IsSigned "k" := by
    rintro ⟨value, _, hvalue, _⟩
    rw [h] at hvalue
    cases hvalue
  refine ⟨hchanged, ?_, ?_, ?_⟩
  · obtain ⟨_, route, hroute', ⟨kind, name, raw, rfl⟩ | ⟨_, hsigned⟩⟩ :=
      (signature_gate hsecret signed world).1 (.inl hchanged)
    · rw [hroute] at hroute'
      cases hroute'
    · exact hsigned
  · exact (signature_gate hsecret plain world).2 .update plain.body rfl (by decide) (.inl rfl) rfl
      (by decide +kernel) (by decide) rfl (hunsigned plain (by decide))
  · exact (signature_gate hsecret garbled world).2 .update garbled.body rfl (by decide) (.inl rfl) rfl
      (by decide +kernel) (by decide) rfl (hunsigned garbled (by decide))

end Server

end Telemetry.Http
