import Mathlib.NumberTheory.LucasLehmer
import Telemetry.Http.Client
import Telemetry.Http.Server
import Telemetry.Proofs.Codec.Gzip
import Telemetry.Proofs.Crypto.Rsa

/-!
# What a client sends, a server opens

A client encrypts, signs and compresses in this order, and a server undoes the layers in the reverse
one. Each layer is undone by a lemma of its own; what remains is that the server finds the layers at
all: the headers are looked up among all that the client sets, and the signature must be a value that
can be read.

Other compressors pack a body differently, so a request is opened whatever the packing, as long as it
unpacks to the same bytes.
-/

namespace Telemetry

namespace Signature

theorem isReadable_digit {n : UInt8} (h : n.toNat < 16) : Http.isReadable (Hex.digit n) = true := by
  have hall : ∀ k : Fin 16, Http.isReadable (Nat.digitChar k.val) = true := by decide
  exact hall ⟨n.toNat, h⟩

theorem verify_sign (body : Bytes) (key : String) : verify (sign body key) body key = true := by
  rw [verify, sign, String.toList_ofList, Hex.decode?_encode, beq_self_eq_true]

theorem isReadable_sign (body : Bytes) (key : String) :
    (sign body key).toList.all Http.isReadable = true := by
  rw [sign, String.toList_ofList, List.all_eq_true]
  intro c hc
  obtain ⟨n, hn, rfl⟩ := Hex.mem_encode hc
  exact isReadable_digit hn

end Signature

namespace Http

open Rsa (Pads PrivateKey overhead)

/-- A server takes a request for one in JSON and gets a text out of it, however its body is packed. -/
def Server.Opens (server : Server) (protection : Protection) (request : Request) (text : Bytes) :
    Prop :=
  ∀ packed, Gzip.decompress packed = Gzip.decompress request.body →
    server.decode protection { request with body := packed } = .ok text

variable {client : Client} {server : Server}

/-! ### Headers -/

theorem isJson_request (path : String) (body packed : Bytes) :
    { client.request path body with body := packed }.isJson = true := by
  have htype : (lowered "content-type" == "content-type".toList) = true := by decide
  have hvalue : "application/json".toList.all isReadable = true := by decide
  simp only [Request.isJson, Request.header?, Client.request, List.cons_append, List.find?_cons,
    htype, hvalue, if_true]
  decide

theorem header?_contentEncoding (path : String) (body packed : Bytes) :
    { client.request path body with body := packed }.header? "content-encoding" = some "gzip" := by
  have htype : (lowered "content-type" == "content-encoding".toList) = false := by decide
  have hencoding : (lowered "content-encoding" == "content-encoding".toList) = true := by decide
  have hvalue : "gzip".toList.all isReadable = true := by decide
  simp only [Request.header?, Client.request, List.cons_append, List.find?_cons, htype, hencoding,
    hvalue, if_true]

theorem header?_signature (path : String) (body packed : Bytes) :
    { client.request path body with body := packed }.header? "hashsha256"
      = client.secret.map (Signature.sign body) := by
  set named := fun p : String × String => lowered p.1 == "hashsha256".toList with hnamed
  have hfixed : [("content-type", "application/json"), ("content-encoding", "gzip")].find? named
      = none := by decide
  have haddress : (client.localAddress.toList.map fun address =>
      ("X-Real-IP", String.ofList address.text)).find? named = none := by
    rw [List.find?_eq_none]
    intro p hp
    obtain ⟨address, _, rfl⟩ := List.mem_map.1 hp
    change ¬ (lowered "X-Real-IP" == "hashsha256".toList) = true
    decide
  have hsignature : ∀ value, named ("HashSHA256", value) = true := by
    intro value
    change (lowered "HashSHA256" == "hashsha256".toList) = true
    decide
  simp only [Request.header?, Client.request, ← hnamed, List.find?_append, hfixed, haddress,
    Option.none_or]
  cases client.secret with
  | none => rfl
  | some secret =>
    rw [Option.toList_some, List.map_singleton, List.find?_singleton, hsignature]
    simp only [if_true, Signature.isReadable_sign, Option.map_some]

theorem checkSignature_signed (hsecret : server.secret = none ∨ server.secret = client.secret)
    (body : Bytes) :
    server.secret.elim (.ok ()) (Service.checkSignature (client.secret.map (Signature.sign body)) body)
      = .ok () := by
  obtain hnone | hsame := hsecret
  · rw [hnone]
    rfl
  · rw [hsame]
    cases client.secret with
    | none => rfl
    | some secret => simp [Service.checkSignature, Signature.verify_sign]

/-- What is left of a request after its compression and its signature. -/
theorem decode_request (hsecret : server.secret = none ∨ server.secret = client.secret)
    (path : String) (body : Bytes) {packed : Bytes} (hpacked : Gzip.decompress packed = .ok body)
    (encrypted : Bool) :
    server.decode ⟨true, encrypted⟩ { client.request path body with body := packed } =
      ((if encrypted then server.key else none).elim (.ok body) fun key =>
        Rsa.decrypt key body).mapError Response.ofFailure := by
  have hgzip : Service.isGzip "gzip" = true := by decide
  rw [Server.decode, isJson_request]
  simp only [Server.content, Service.decodeBody, header?_contentEncoding, header?_signature,
    Service.decompressBody, hgzip, hpacked, if_true, checkSignature_signed hsecret]
  cases (if encrypted then server.key else none) <;> rfl

/-- A batch goes without encryption, whatever keys there are. -/
theorem opens_batchRequest (hsecret : server.secret = none ∨ server.secret = client.secret)
    (samples : List Sample) :
    server.Opens ⟨true, false⟩ (client.batchRequest samples) (Sample.listToBytes samples) := by
  intro packed hpacked
  have hbody : Gzip.decompress packed = .ok (Sample.listToBytes samples) :=
    hpacked.trans (Gzip.decompress_compress _)
  exact decode_request hsecret "/updates/" (Sample.listToBytes samples) hbody false

/-- The text of one metric is covered under the key of the client, if it has one, and the private key
of the server takes the cover off. -/
theorem opens_sampleRequest (hsecret : server.secret = none ∨ server.secret = client.secret)
    (hkeys : client.key = server.key.map PrivateKey.publicKey)
    (hundoes : ∀ key ∈ server.key, key.Undoes) {random : Nat → Bytes} (hrandom : Pads random)
    {sample : Sample} (hshort : ∀ key ∈ client.key, sample.toBytes.length + overhead ≤ key.size) :
    ∃ request, client.sampleRequest random sample = .ok request ∧
      server.Opens ⟨true, true⟩ request sample.toBytes := by
  have hcover : ∃ text, client.cover random sample.toBytes = .ok text ∧
      (server.key.elim (.ok text) fun key => Rsa.decrypt key text) = .ok sample.toBytes := by
    cases hkey : server.key with
    | none =>
      rw [hkey, Option.map_none] at hkeys
      exact ⟨sample.toBytes, by simp [Client.cover, hkeys], rfl⟩
    | some key =>
      rw [hkey, Option.map_some] at hkeys
      simp only [Client.cover, hkeys]
      exact Rsa.decrypt_encrypt (hundoes key hkey) hrandom (hshort key.publicKey hkeys)
  obtain ⟨text, hcover, hopened⟩ := hcover
  refine ⟨client.request "/update/" text, by rw [Client.sampleRequest, hcover]; rfl, ?_⟩
  intro packed hpacked
  have hbody : Gzip.decompress packed = .ok text := hpacked.trans (Gzip.decompress_compress _)
  have hdecode := decode_request hsecret "/update/" text hbody true
  rw [if_pos rfl, hopened] at hdecode
  exact hdecode

/-- **What a client sends, a server opens.** If the server asks for no signature or shares the secret
of the client, it gets the text of every batch back, whatever keys there are, and the text of every
metric that is short enough for the key, when the server holds the private key exactly when the
client holds its public key. -/
theorem sent_is_opened (hsecret : server.secret = none ∨ server.secret = client.secret) :
    (∀ samples, server.Opens ⟨true, false⟩ (client.batchRequest samples)
      (Sample.listToBytes samples)) ∧
    (client.key = server.key.map PrivateKey.publicKey → (∀ key ∈ server.key, key.Undoes) →
      ∀ random, Pads random → ∀ sample : Sample,
        (∀ key ∈ client.key, sample.toBytes.length + overhead ≤ key.size) →
        ∃ request, client.sampleRequest random sample = .ok request ∧
          server.Opens ⟨true, true⟩ request sample.toBytes) := by
  refine ⟨opens_batchRequest hsecret, ?_⟩
  intro hkeys hundoes random hrandom sample hshort
  exact opens_sampleRequest hsecret hkeys hundoes hrandom hshort

/-- A pair of keys from two Mersenne primes. -/
def mersenneKey : PrivateKey where
  publicKey := ⟨(2 ^ 127 - 1) * (2 ^ 521 - 1), 65537⟩
  exponent := 0x2a7fd5802a7fd5802a7fd5802a7fd57f80807f7f80807f7f80807f7f80807f7f80807f7f80807f7f80807f7f80807f7f80807f7f80807f7f80807f7f80807f7f8055ffaa0055ffaa0055ffaa0055ffaa01
  first := 2 ^ 127 - 1
  second := 2 ^ 521 - 1

theorem mersenneKey_undoes : mersenneKey.Undoes := by
  have hfirst : (mersenne 127).Prime := lucas_lehmer_sufficiency _ (by norm_num) (by norm_num)
  have hsecond : (mersenne 521).Prime := lucas_lehmer_sufficiency _ (by norm_num) (by norm_num)
  exact Rsa.undoes_of_primes hfirst hsecond (by decide +kernel) (by decide +kernel)

theorem sent_is_opened_mersenne :
    let client : Client := ⟨"http://localhost:8080", some "k", some mersenneKey.publicKey, none⟩
    let server : Server := ⟨some "k", some mersenneKey, none⟩
    let sample := Sample.counter "a" 1
    server.Opens ⟨true, false⟩ (client.batchRequest [sample]) (Sample.listToBytes [sample]) ∧
      ∃ request, client.sampleRequest (fun n => List.replicate n 1) sample = .ok request ∧
        server.Opens ⟨true, true⟩ request sample.toBytes := by
  intro client server sample
  have hsecret : server.secret = none ∨ server.secret = client.secret := .inr rfl
  obtain ⟨hbatch, hsample⟩ := sent_is_opened hsecret
  have hundoes : ∀ key ∈ server.key, key.Undoes := by
    intro key hkey
    exact Option.some.inj hkey ▸ mersenneKey_undoes
  have hrandom : Pads fun n => List.replicate n 1 := by
    intro n
    exact ⟨List.length_replicate, by simp⟩
  have hshort : ∀ key ∈ client.key, sample.toBytes.length + overhead ≤ key.size := by
    intro key hkey
    exact Option.some.inj hkey ▸ (by decide +kernel)
  exact ⟨hbatch [sample], hsample rfl hundoes _ hrandom sample hshort⟩

end Http

end Telemetry
