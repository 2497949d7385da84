import Telemetry.Proofs.Http.SignedAnswers

/-!
# What two sides with one secret accept

Of all texts a side accepts as the signature of a body the one that it would make itself, whatever the
case of its letters, and no other: hexadecimal text is read without loss, a digest has always 32 bytes,
and a text that is not read at all is refused like a wrong one. The client signs what the server finds in
the body of its request, and the server signs what it sends, so that each accepts what the other made.
-/

namespace Telemetry

namespace Sha256

theorem length_digest (message : Bytes) : (digest message).length = 32 := by
  simp [digest, State.bytes]

end Sha256

namespace Signature

theorem toList_toLower (text : String) : text.toLower.toList = text.toList.map Char.toLower :=
  String.toList_map

/-- A text is accepted exactly when it is the signature, up to the case of its letters. -/
theorem verify_eq_true_iff {signature : String} {body : Bytes} {key : String} :
    verify signature body key = true ↔ signature.toLower = sign body key := by
  rw [verify, beq_iff_eq, Hex.decode?_eq_some_iff, sign, ← String.toList_inj, toList_toLower,
    String.toList_ofList]

def digits : List Char := "0123456789abcdef".toList

theorem mem_digits {n : UInt8} (h : n.toNat < 16) : Hex.digit n ∈ digits := by
  have hall : ∀ k : Fin 16, Nat.digitChar k.val ∈ digits := by decide
  exact hall ⟨n.toNat, h⟩

theorem length_sign (body : Bytes) (key : String) : (sign body key).toList.length = 64 := by
  simp [sign, mac, Sha256.length_digest]

theorem mem_sign {body : Bytes} {key : String} {c : Char} (h : c ∈ (sign body key).toList) :
    c ∈ digits := by
  rw [sign, String.toList_ofList] at h
  obtain ⟨n, hn, rfl⟩ := Hex.mem_encode h
  exact mem_digits hn

/-- What is accepted as a signature of anything has 64 hexadecimal digits. -/
theorem form_of_verify {signature : String} {body : Bytes} {key : String}
    (h : verify signature body key = true) :
    signature.toList.length = 64 ∧ ∀ c ∈ signature.toList, c.toLower ∈ digits := by
  have hlower : signature.toList.map Char.toLower = (sign body key).toList := by
    rw [← verify_eq_true_iff.1 h, toList_toLower]
  constructor
  · rw [← length_sign body key, ← hlower, List.length_map]
  · intro c hc
    have hmem : c.toLower ∈ (sign body key).toList := by
      rw [← hlower]
      exact List.mem_map_of_mem hc
    exact mem_sign hmem

end Signature

namespace Http

theorem request_signed {client : Client} {key : String} (h : client.secret = some key) (path : String)
    (body : Bytes) :
    (client.request path body).unpacked = .ok body ∧
      (client.request path body).header? "hashsha256" = some (Signature.sign body key) := by
  have hencoding : (client.request path body).header? "content-encoding" = some "gzip" :=
    header?_contentEncoding path body _
  have hsignature : (client.request path body).header? "hashsha256"
      = client.secret.map (Signature.sign body) := header?_signature path body _
  have hgzip : Service.isGzip "gzip" = true := by decide
  constructor
  · rw [Request.unpacked, hencoding, Service.decompressBody, if_pos hgzip]
    exact Gzip.decompress_compress body
  · rw [hsignature, h, Option.map_some]

/-- An answer carries no signature, or that of the bytes that are sent. -/
theorem Server.signature_handle {σ : Type} [Repository σ] (server : Server) (request : Request)
    (world : World σ) :
    (server.handle request world).1.signature = none ∨
      (server.handle request world).1.signature
        = server.secret.map (Signature.sign (server.handle request world).1.body) := by
  obtain ⟨hunsigned, -⟩ | ⟨route, demand, served, -, haccepts, hasks, hperform, hhandle⟩ :=
    handle_cases server request world
  · exact .inl hunsigned
  · rw [hhandle]
    obtain ⟨hjson, hsignature⟩ | ⟨-, hsignature⟩ := signature_reply server (Demand.answered hperform)
    · have hreading := isReading_of_isInJson ((isInJson_of_asksOn hasks).2 hjson)
      rw [(accepts_iff hreading _).1 haccepts, finish_accepted hreading]
      exact .inr hsignature
    · exact .inl ((signature_finish _ _ _).trans hsignature)

/-- **What is accepted is what is made.** A text is accepted as the signature of a body under a secret
exactly when it is the text that signing gives, up to the case of its letters; so it has 64 hexadecimal
digits, whatever the body. What a client with the secret signs is accepted for the body that a server
finds in its request, and what a server with the secret signs for the body of its answer. -/
theorem accepted_is_made (key : String) :
    (∀ signature body, Signature.verify signature body key = true ↔
      signature.toLower = Signature.sign body key) ∧
    (∀ signature body, Signature.verify signature body key = true →
      signature.toList.length = 64 ∧ ∀ c ∈ signature.toList, c.toLower ∈ "0123456789abcdef".toList) ∧
    (∀ (client : Client) path body, client.secret = some key →
      ∃ value, (client.request path body).header? "hashsha256" = some value ∧
        ∃ found, (client.request path body).unpacked = .ok found ∧
          Signature.verify value found key = true) ∧
    ∀ (server : Server) request (world : World Store) value, server.secret = some key →
      ("hashsha256", value) ∈ (server.handle request world).1.headers →
        Signature.verify value (server.handle request world).1.body key = true := by
  refine ⟨?same, ?form, ?client, ?server⟩
  case same => exact fun _ _ => Signature.verify_eq_true_iff
  case form => exact fun _ _ => Signature.form_of_verify
  case client =>
    intro client path body hsecret
    obtain ⟨hfound, hvalue⟩ := request_signed hsecret path body
    exact ⟨_, hvalue, body, hfound, Signature.verify_sign body key⟩
  case server =>
    intro server request world value hsecret hheader
    rw [Response.mem_headers] at hheader
    obtain hunsigned | hsigned := server.signature_handle request world
    · cases hunsigned.symm.trans hheader
    · rw [hsecret, Option.map_some, hheader] at hsigned
      rw [Option.some.inj hsigned]
      exact Signature.verify_sign _ key

/-- A signature in capital letters is accepted, and not with a digit more; a request and an answer that
are signed. -/
theorem accepted_is_made_capital :
    let body := Bytes.ofString "what do ya want for nothing?"
    let made := "5BDCC146BF60754E6A042426089575C75A003F089D2739839DEC58B964EC3843"
    let client : Client := ⟨"http://localhost:8080", some "k", none, none⟩
    let server : Server := ⟨some "k", none, none⟩
    let world : World Store := ⟨.memory ⟨[⟨"a", .counter 1⟩]⟩, ⟨[], Counters.empty, 0⟩⟩
    let request : Request := ⟨"POST", "/value/", [("content-type", "application/json")],
      (Sample.counter "a" 0).toBytes⟩
    let value := "f41c9a8c64161bb8eaf6966177a12cfe46c71d6d8f9cc62125b073eb655ca16b"
    Signature.verify made body "Jefe" = true ∧ Signature.verify (made ++ "0") body "Jefe" = false ∧
      (∃ sent, (client.request "/updates/" body).header? "hashsha256" = some sent) ∧
      ("hashsha256", value) ∈ (server.handle request world).1.headers ∧
      Signature.verify value (server.handle request world).1.body "k" = true := by
  intro body made client server world request value
  have hsign : made.toLower = Signature.sign body "Jefe" := by
    rw [← String.toList_inj, Signature.toList_toLower]
    decide +kernel
  have hlong : (made ++ "0").toList.length = 65 := by decide
  have hheader : ("hashsha256", value) ∈ (server.handle request world).1.headers := by decide +kernel
  obtain ⟨sent, hsent, -⟩ := (accepted_is_made "k").2.2.1 client "/updates/" body rfl
  refine ⟨((accepted_is_made "Jefe").1 made body).2 hsign, ?_, ⟨sent, hsent⟩, hheader,
    (accepted_is_made "k").2.2.2 server request world value rfl hheader⟩
  rw [Bool.eq_false_iff]
  intro h
  cases hlong.symm.trans ((accepted_is_made "Jefe").2.1 _ body h).1

end Http

end Telemetry
