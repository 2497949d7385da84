import Mathlib.FieldTheory.Finite.Basic
import Telemetry.Crypto.Rsa
import Telemetry.Proofs.Codec.Text

/-!
# An encrypted body is decrypted to itself

Of a key this needs only that its two exponents undo each other on the numbers below the modulus
(`PrivateKey.Undoes`), which two distinct primes with a valid pair of exponents give: the power is
the number itself modulo each prime. What is raised to the power is the padded block as a number. It
is below the modulus because it has as many bytes and starts with zero, and the number gives the
block back because its bytes are counted.
-/

namespace Telemetry

namespace Der

theorem bigEndian_append (front rest : Bytes) :
    bigEndian (front ++ rest) = bigEndian front * 256 ^ rest.length + bigEndian rest := by
  induction rest using List.reverseRecOn with
  | nil => simp [bigEndian]
  | append_singleton rest b ih =>
    have hlast : ∀ bytes : Bytes, bigEndian (bytes ++ [b]) = bigEndian bytes * 256 + b.toNat := by
      intro bytes
      rw [bigEndian, List.foldl_append]
      rfl
    rw [← List.append_assoc, hlast, hlast, ih, List.length_append, List.length_singleton, pow_succ]
    ring

theorem bigEndian_cons (b : UInt8) (rest : Bytes) :
    bigEndian (b :: rest) = b.toNat * 256 ^ rest.length + bigEndian rest := by
  have hone : bigEndian [b] = b.toNat := by simp [bigEndian]
  rw [← List.singleton_append, bigEndian_append, hone]

theorem bigEndian_lt (bytes : Bytes) : bigEndian bytes < 256 ^ bytes.length := by
  induction bytes with
  | nil => simp [bigEndian]
  | cons b rest ih =>
    have hb : b.toNat + 1 ≤ 256 := b.toNat_lt
    rw [bigEndian_cons, List.length_cons, pow_succ']
    calc b.toNat * 256 ^ rest.length + bigEndian rest
        < (b.toNat + 1) * 256 ^ rest.length := by rw [add_one_mul]; omega
      _ ≤ 256 * 256 ^ rest.length := Nat.mul_le_mul_right _ hb

end Der

namespace Sha256

@[simp] theorem length_bigEndianBytes (length n : Nat) :
    (bigEndianBytes length n).length = length := by
  induction length with
  | zero => rfl
  | succ length ih => rw [bigEndianBytes, List.length_cons, ih]

theorem bigEndian_bigEndianBytes (length n : Nat) :
    Der.bigEndian (bigEndianBytes length n) = n % 256 ^ length := by
  induction length with
  | zero => simp [bigEndianBytes, Der.bigEndian, Nat.mod_one]
  | succ length ih =>
    have hdigit : (n / Nat.pow 256 length % 256).toUInt8.toNat = n / 256 ^ length % 256 :=
      Nat.mod_mod _ _
    rw [bigEndianBytes, Der.bigEndian_cons, hdigit, ih, length_bigEndianBytes, pow_succ,
      Nat.mod_mul]
    ring

/-- What stands above the bytes that are written does not matter. -/
theorem bigEndianBytes_add (bytes : Bytes) (high : Nat) :
    bigEndianBytes bytes.length (high * 256 ^ bytes.length + Der.bigEndian bytes) = bytes := by
  induction bytes generalizing high with
  | nil => rfl
  | cons b rest ih =>
    have hvalue : high * 256 ^ (rest.length + 1) + (b.toNat * 256 ^ rest.length
        + Der.bigEndian rest)
        = (high * 256 + b.toNat) * 256 ^ rest.length + Der.bigEndian rest := by ring
    have hquotient : ((high * 256 + b.toNat) * 256 ^ rest.length + Der.bigEndian rest)
        / Nat.pow 256 rest.length = high * 256 + b.toNat := by
      change _ / 256 ^ rest.length = _
      rw [Nat.add_comm, Nat.add_mul_div_right _ _ (by positivity),
        Nat.div_eq_of_lt (Der.bigEndian_lt rest), zero_add]
    have hdigit : ((high * 256 + b.toNat) % 256).toUInt8 = b := by
      have hb : b.toNat < 256 := b.toNat_lt
      rw [show (high * 256 + b.toNat) % 256 = b.toNat by omega]
      exact UInt8.ofNat_toNat
    rw [List.length_cons, Der.bigEndian_cons, hvalue, bigEndianBytes, hquotient, hdigit, ih]

theorem bigEndianBytes_bigEndian (bytes : Bytes) :
    bigEndianBytes bytes.length (Der.bigEndian bytes) = bytes := by
  have h := bigEndianBytes_add bytes 0
  rwa [zero_mul, zero_add] at h

end Sha256

namespace Rsa

theorem powMod_eq (base exponent modulus : Nat) :
    powMod base exponent modulus = base ^ exponent % modulus := by
  induction exponent using Nat.strong_induction_on generalizing base with
  | h exponent ih =>
    rw [powMod]
    split
    · next hzero => rw [hzero, pow_zero]
    · next hzero =>
      have hhalf : powMod (base * base % modulus) (exponent / 2) modulus
          = base ^ (2 * (exponent / 2)) % modulus := by
        rw [ih _ (by omega), ← Nat.pow_mod, pow_mul, pow_two]
      simp only [hhalf]
      split
      · next hodd =>
        rw [Nat.mod_mul_mod, ← pow_succ, show 2 * (exponent / 2) + 1 = exponent by omega]
      · next heven => rw [show 2 * (exponent / 2) = exponent by omega]

/-! ### Keys -/

/-- The exponents of a key undo each other. -/
def PrivateKey.Undoes (key : PrivateKey) : Prop :=
  ∀ n < key.publicKey.modulus,
    powMod (powMod n key.publicKey.exponent key.publicKey.modulus) key.exponent
      key.publicKey.modulus = n

theorem pow_modEq_of_prime {p k : Nat} (hp : p.Prime) (hk : k % (p - 1) = 1) (n : Nat) :
    n ^ k ≡ n [MOD p] := by
  have hsplit : (p - 1) * (k / (p - 1)) + 1 = k := by
    have := Nat.div_add_mod k (p - 1)
    omega
  by_cases hdvd : p ∣ n
  · have hzero : n ≡ 0 [MOD p] := (Nat.modEq_zero_iff_dvd).2 hdvd
    have hpow : n ^ k ≡ 0 [MOD p] :=
      (Nat.modEq_zero_iff_dvd).2 (dvd_pow hdvd (by rw [← hsplit]; exact Nat.succ_ne_zero _))
    exact hpow.trans hzero.symm
  · have hcoprime : n.Coprime p := ((Nat.Prime.coprime_iff_not_dvd hp).2 hdvd).symm
    have hunit : n ^ (p - 1) ≡ 1 [MOD p] := Nat.totient_prime hp ▸ Nat.ModEq.pow_totient hcoprime
    calc n ^ k = (n ^ (p - 1)) ^ (k / (p - 1)) * n := by rw [← pow_mul, ← pow_succ, hsplit]
      _ ≡ 1 ^ (k / (p - 1)) * n [MOD p] := (hunit.pow _).mul_right n
      _ = n := by rw [one_pow, one_mul]

theorem undoes_of_primes {key : PrivateKey} (hfirst : key.first.Prime) (hsecond : key.second.Prime)
    (hne : key.first ≠ key.second) (hvalid : key.isValid) : key.Undoes := by
  simp only [PrivateKey.isValid, Bool.and_eq_true, decide_eq_true_eq] at hvalid
  obtain ⟨⟨⟨_, hmodulus⟩, hfirstProduct⟩, hsecondProduct⟩ := hvalid
  intro n hn
  have hcoprime : key.first.Coprime key.second := (Nat.coprime_primes hfirst hsecond).2 hne
  have hpow : n ^ (key.publicKey.exponent * key.exponent) ≡ n [MOD key.publicKey.modulus] := by
    rw [← hmodulus]
    exact (Nat.modEq_and_modEq_iff_modEq_mul hcoprime).1
      ⟨pow_modEq_of_prime hfirst hfirstProduct n, pow_modEq_of_prime hsecond hsecondProduct n⟩
  rw [powMod_eq, powMod_eq, ← Nat.pow_mod, ← pow_mul]
  exact Nat.mod_eq_of_modEq hpow hn

theorem PublicKey.lt_pow_size (key : PublicKey) : key.modulus < 256 ^ key.size := by
  have hbits : Nat.log2 key.modulus + 1 ≤ 8 * key.size := by
    unfold PublicKey.size
    omega
  calc key.modulus < 2 ^ (Nat.log2 key.modulus + 1) := Nat.lt_log2_self
    _ ≤ 2 ^ (8 * key.size) := Nat.pow_le_pow_right (by decide) hbits
    _ = 256 ^ key.size := pow_mul 2 8 _

theorem PublicKey.pow_size_le {key : PublicKey} (h : key.modulus ≠ 0) :
    256 ^ (key.size - 1) ≤ key.modulus := by
  have hbits : 8 * (key.size - 1) ≤ Nat.log2 key.modulus := by
    unfold PublicKey.size
    omega
  calc 256 ^ (key.size - 1) = 2 ^ (8 * (key.size - 1)) := (pow_mul 2 8 _).symm
    _ ≤ 2 ^ Nat.log2 key.modulus := Nat.pow_le_pow_right (by decide) hbits
    _ ≤ key.modulus := Nat.log2_self_le h

/-! ### Padding -/

/-- A source of padding gives as many bytes as it is asked for, none of which is zero. -/
def Pads (random : Nat → Bytes) : Prop := ∀ n, (random n).length = n ∧ 0 ∉ random n

theorem unpad_pad {padding : Bytes} (hlength : 8 ≤ padding.length) (hzero : 0 ∉ padding)
    (message : Bytes) : unpad (pad padding message) = some message := by
  have htake : (padding ++ 0 :: message).takeWhile (· ≠ 0) = padding := by
    rw [List.takeWhile_append_of_pos]
    · simp
    · intro b hb
      have hne : b ≠ 0 := fun heq => hzero (heq ▸ hb)
      simpa using hne
  have hshorter : padding.length ≠ (padding ++ 0 :: message).length := by simp
  change (let front := (padding ++ 0 :: message).takeWhile (· ≠ 0)
    if (0 : UInt8) ≠ 0 || (2 : UInt8) ≠ 2 || front.length < 8
      || front.length = (padding ++ 0 :: message).length then none
    else some ((padding ++ 0 :: message).drop (front.length + 1))) = _
  simp only [htake]
  simp [hlength]

theorem length_pad (padding message : Bytes) :
    (pad padding message).length = padding.length + message.length + 3 := by
  simp only [pad, List.cons_append, List.length_cons, List.length_append]
  omega

/-! ### Texts -/

theorem isBlank_symbol {n : Nat} (h : n < 64) : isBlank (Base64.symbol n) = false := by
  have hall : ∀ k : Fin 64, isBlank (Base64.symbol k.val) = false := by decide
  exact hall ⟨n, h⟩

theorem filter_encode (bytes : Bytes) :
    (Base64.encode bytes).filter (fun b => !isBlank b) = Base64.encode bytes := by
  rw [List.filter_eq_self]
  intro s hs
  obtain rfl | ⟨n, hn, rfl⟩ := Base64.mem_encode hs
  · rfl
  · rw [isBlank_symbol hn]
    rfl

theorem bigEndian_pad_lt {key : PublicKey} {padding message : Bytes}
    (hlength : (pad padding message).length = key.size) :
    Der.bigEndian (pad padding message) < key.modulus := by
  have hmodulus : key.modulus ≠ 0 := by
    intro hzero
    have hsize : key.size = 1 := by simp [PublicKey.size, hzero]
    rw [length_pad, hsize] at hlength
    omega
  have hrest : (2 :: padding ++ 0 :: message).length = key.size - 1 := by
    rw [← hlength]
    rfl
  calc Der.bigEndian (pad padding message)
      = Der.bigEndian (2 :: padding ++ 0 :: message) := by
        rw [pad, List.cons_append, Der.bigEndian_cons, UInt8.toNat_zero, zero_mul, zero_add]
    _ < 256 ^ (key.size - 1) := hrest ▸ Der.bigEndian_lt _
    _ ≤ key.modulus := key.pow_size_le hmodulus

theorem decryptBlock_bigEndianBytes {key : PrivateKey} (hsize : overhead ≤ key.publicKey.size)
    {cipher : Nat} (hcipher : cipher < key.publicKey.modulus) :
    decryptBlock key (Sha256.bigEndianBytes key.publicKey.size cipher) =
      unpad (Sha256.bigEndianBytes key.publicKey.size
        (powMod cipher key.exponent key.publicKey.modulus)) := by
  have hread : Der.bigEndian (Sha256.bigEndianBytes key.publicKey.size cipher) = cipher := by
    rw [Sha256.bigEndian_bigEndianBytes,
      Nat.mod_eq_of_lt (hcipher.trans (PublicKey.lt_pow_size _))]
  rw [decryptBlock, hread]
  simp [Nat.not_le.2 hcipher, Nat.not_lt.2 hsize]

/-- What is encrypted under a key is decrypted to itself, if it is short enough for the key. -/
theorem decrypt_encrypt {key : PrivateKey} (hkey : key.Undoes) {random : Nat → Bytes}
    (hrandom : Pads random) {body : Bytes} (hshort : body.length + overhead ≤ key.publicKey.size) :
    ∃ text, encrypt key.publicKey random body = .ok text ∧ decrypt key text = .ok body := by
  obtain ⟨hpadding, hzero⟩ := hrandom (paddingLength key.publicKey body)
  set padding := random (paddingLength key.publicKey body)
  have hlength : (pad padding body).length = key.publicKey.size := by
    rw [length_pad, hpadding, paddingLength]
    unfold overhead at hshort
    omega
  have height : 8 ≤ padding.length := by
    rw [hpadding, paddingLength]
    unfold overhead at hshort
    omega
  have hblock : Der.bigEndian (pad padding body) < key.publicKey.modulus := bigEndian_pad_lt hlength
  set cipher := powMod (Der.bigEndian (pad padding body)) key.publicKey.exponent
    key.publicKey.modulus with hcipher
  have hbelow : cipher < key.publicKey.modulus := by
    rw [hcipher, powMod_eq]
    exact Nat.mod_lt _ (Nat.zero_lt_of_lt hblock)
  have hopened :
      decryptBlock key (Sha256.bigEndianBytes key.publicKey.size cipher) = some body := by
    rw [decryptBlock_bigEndianBytes (Nat.le_of_add_left_le hshort) hbelow, hcipher, hkey _ hblock,
      ← hlength, Sha256.bigEndianBytes_bigEndian, unpad_pad height hzero]
  refine ⟨Base64.encode (Sha256.bigEndianBytes key.publicKey.size cipher), ?_, ?_⟩
  · rw [encrypt, if_neg (Nat.not_lt.2 hshort)]
  · rw [decrypt, filter_encode, Base64.decode_encode]
    simp only [hopened]

end Rsa

end Telemetry
