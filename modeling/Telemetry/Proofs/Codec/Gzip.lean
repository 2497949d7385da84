import Mathlib.Tactic.Ring
import Mathlib.Tactic.Linarith
import Telemetry.Codec.Gzip

/-!
# Members are read back as they were written

A member that is written holds its bytes as stored blocks, so reading it needs of the compressed
stream only the bits in front of a block and the two lengths after them, each a whole number of
bytes. The bits of a byte are taken one by one, and what they give together is the byte: this is the
one induction over bits. The blocks are then an induction over their number.
-/

namespace Telemetry

namespace Inflate

/-! ### The bits of a byte -/

theorem readBit_cons (b : UInt8) (rest : Bytes) {used : Nat} (hused : used < 8) :
    readBit ⟨b :: rest, used⟩ = .ok (b.toNat / 2 ^ used % 2 = 1,
      if used = 7 then ⟨rest, 0⟩ else ⟨b :: rest, used + 1⟩) := by
  have hshift : (b >>> used.toUInt8).toNat = b.toNat / 2 ^ used := by
    have hcount : used.toUInt8.toNat % 8 = used := by
      change used % 256 % 8 = used
      omega
    rw [UInt8.toNat_shiftRight, hcount, Nat.shiftRight_eq_div_pow]
  have hbit : (b >>> used.toUInt8) &&& 1 = 1 ↔ b.toNat / 2 ^ used % 2 = 1 := by
    rw [← UInt8.toNat_inj, UInt8.toNat_and, hshift]
    change b.toNat / 2 ^ used &&& 1 = 1 ↔ _
    rw [Nat.and_one_is_mod]
  simp only [readBit, hbit]

theorem bit_add_high (n : Nat) : 2 * (n / 2) + (decide (n % 2 = 1)).toNat = n := by
  rcases Nat.mod_two_eq_zero_or_one n with h | h <;> simp only [h] <;> simp <;> omega

/-- The bits that are left of a byte give its quotient, and the bits after them come on top. -/
theorem readBits_byte (n : Nat) (b : UInt8) (rest : Bytes) {k : Nat} (hk : k < 8) :
    readBits (n + (k + 1)) ⟨b :: rest, 7 - k⟩ = (readBits n ⟨rest, 0⟩).map fun p =>
      (b.toNat / 2 ^ (7 - k) + 2 ^ (k + 1) * p.1, p.2) := by
  induction k with
  | zero =>
    have hb : b.toNat / 2 ^ 7 < 2 := by
      have := b.toNat_lt
      omega
    have hlast : (decide (b.toNat / 2 ^ 7 % 2 = 1)).toNat = b.toNat / 2 ^ 7 := by
      have := bit_add_high (b.toNat / 2 ^ 7)
      omega
    rw [readBits, readBit_cons b rest (by decide)]
    simp only [Nat.sub_zero, if_pos]
    cases readBits n ⟨rest, 0⟩ with
    | error fault => rfl
    | ok p =>
      simp only [Except.map, hlast, zero_add, pow_one, Nat.add_comm]
  | succ k ih =>
    have hused : 7 - (k + 1) < 8 := by omega
    have hnext : 7 - (k + 1) + 1 = 7 - k := by omega
    have hquotient : b.toNat / 2 ^ (7 - k) = b.toNat / 2 ^ (7 - (k + 1)) / 2 := by
      rw [← hnext, pow_succ, Nat.div_div_eq_div_mul]
    rw [← Nat.add_assoc, readBits, readBit_cons b rest hused]
    simp only [if_neg (show ¬ 7 - (k + 1) = 7 by omega), hnext, ih (by omega)]
    cases readBits n ⟨rest, 0⟩ with
    | error fault => rfl
    | ok p =>
      have hvalue := bit_add_high (b.toNat / 2 ^ (7 - (k + 1)))
      simp only [Except.map, hquotient, Except.ok.injEq, Prod.mk.injEq, and_true]
      rw [pow_succ 2 (k + 1)]
      linarith

theorem readBits_sixteen (a b : UInt8) (rest : Bytes) :
    readBits 16 ⟨a :: b :: rest, 0⟩ = .ok (a.toNat + 256 * b.toNat, ⟨rest, 0⟩) := by
  have hfirst := readBits_byte 8 a (b :: rest) (k := 7) (by decide)
  have hsecond := readBits_byte 0 b rest (k := 7) (by decide)
  simp only [Nat.sub_self, pow_zero, Nat.div_one] at hfirst hsecond
  rw [hfirst, hsecond]
  rfl

/-! ### Stored blocks -/

theorem readStored_append (block rest : Bytes) (out : Array UInt8) :
    readStored block.length out (block ++ rest) = .ok (out ++ block.toArray, rest) := by
  induction block generalizing out with
  | nil => simp [readStored]
  | cons b block ih =>
    rw [List.length_cons, List.cons_append, readStored, ih]
    simp

end Inflate

namespace Gzip

open Inflate

/-! ### Numbers in bytes -/

@[simp] theorem length_littleEndianBytes (length n : Nat) :
    (littleEndianBytes length n).length = length := by
  induction length generalizing n with
  | zero => rfl
  | succ length ih => rw [littleEndianBytes, List.length_cons, ih]

theorem littleEndian_littleEndianBytes (length n : Nat) :
    littleEndian (littleEndianBytes length n) = n % 256 ^ length := by
  induction length generalizing n with
  | zero => simp [littleEndianBytes, littleEndian, Nat.mod_one]
  | succ length ih =>
    have hlow : (n % 256).toUInt8.toNat = n % 256 := by
      change n % 256 % 256 = n % 256
      omega
    change (n % 256).toUInt8.toNat + 256 * littleEndian (littleEndianBytes length (n / 256)) = _
    rw [hlow, ih, pow_succ', Nat.mod_mul]

theorem readBits_littleEndianBytes {n : Nat} (hn : n < 65536) (rest : Bytes) :
    readBits 16 ⟨littleEndianBytes 2 n ++ rest, 0⟩ = .ok (n, ⟨rest, 0⟩) := by
  have hvalue := littleEndian_littleEndianBytes 2 n
  change readBits 16 ⟨(n % 256).toUInt8 :: (n / 256 % 256).toUInt8 :: rest, 0⟩ = _
  change (n % 256).toUInt8.toNat + 256 * ((n / 256 % 256).toUInt8.toNat + 256 * 0) = _ at hvalue
  rw [Nat.mul_zero, Nat.add_zero] at hvalue
  rw [readBits_sixteen, hvalue, show 256 ^ 2 = 65536 from rfl, Nat.mod_eq_of_lt hn]

/-! ### Blocks -/

theorem readStoredBlock_written {block : Bytes} (hblock : block.length ≤ blockMax) (b : UInt8)
    (out : Array UInt8) (rest : Bytes) :
    readStoredBlock out ⟨b :: (littleEndianBytes 2 block.length
        ++ littleEndianBytes 2 (65535 - block.length) ++ block ++ rest), 3⟩
      = .ok (out ++ block.toArray, ⟨rest, 0⟩) := by
  have hmax : block.length < 65536 := Nat.lt_succ_of_le hblock
  have hsum : block.length + (65535 - block.length) = 65535 := by
    unfold blockMax at hblock
    omega
  simp only [readStoredBlock, align, List.append_assoc, List.drop_succ_cons, List.drop_zero,
    if_neg (show ¬ (3 = 0) by decide)]
  rw [readBits_littleEndianBytes hmax]
  simp only []
  rw [readBits_littleEndianBytes (by omega : 65535 - block.length < 65536)]
  simp only [hsum, ne_eq, not_true_eq_false, if_false, readStored_append]

/-- The mark of the last block and the type of a stored one. -/
theorem readMark (last : Bool) (rest : Bytes) :
    readBit ⟨(if last then 1 else 0) :: rest, 0⟩
        = .ok (last, ⟨(if last then 1 else 0) :: rest, 1⟩) ∧
      readBits 2 ⟨(if last then 1 else 0) :: rest, 1⟩
        = .ok (0, ⟨(if last then 1 else 0) :: rest, 3⟩) := by
  cases last <;> simp [readBits, readBit_cons]

theorem length_drop_lt {bytes : Bytes} {fuel : Nat}
    (hempty : (bytes.drop blockMax).isEmpty = false) (hfuel : bytes.length < fuel + 1) :
    (bytes.drop blockMax).length < fuel := by
  have hne : bytes.drop blockMax ≠ [] := by simpa using hempty
  have hlength := List.length_pos_iff.2 hne
  rw [List.length_drop] at hlength ⊢
  unfold blockMax at hlength ⊢
  omega

theorem readBlocks_storedBlocks {fuel steps : Nat} {bytes : Bytes} (hfuel : bytes.length < fuel)
    (hsteps : fuel ≤ steps) (out : Array UInt8) (rest : Bytes) :
    readBlocks steps out ⟨storedBlocks fuel bytes ++ rest, 0⟩
      = .ok (out ++ bytes.toArray, ⟨rest, 0⟩) := by
  induction fuel generalizing steps bytes out with
  | zero => exact absurd hfuel (Nat.not_lt_zero _)
  | succ fuel ih =>
    obtain ⟨steps, rfl⟩ := Nat.exists_eq_succ_of_ne_zero (Nat.ne_of_gt (by omega : 0 < steps))
    have hblock : (bytes.take blockMax).length ≤ blockMax := List.length_take_le _ _
    have hsplit : out ++ (bytes.take blockMax).toArray ++ (bytes.drop blockMax).toArray
        = out ++ bytes.toArray := by
      rw [Array.append_assoc, List.append_toArray (bytes.take blockMax), List.take_append_drop]
    -- What the stream holds behind the first block: the other blocks, if there are any.
    set others := (if (bytes.drop blockMax).isEmpty then []
      else storedBlocks fuel (bytes.drop blockMax)) ++ rest with hothers
    have hstream : storedBlocks (fuel + 1) bytes ++ rest
        = (if (bytes.drop blockMax).isEmpty then 1 else 0)
          :: (littleEndianBytes 2 (bytes.take blockMax).length
            ++ littleEndianBytes 2 (65535 - (bytes.take blockMax).length)
            ++ bytes.take blockMax ++ others) := by
      simp [storedBlocks, hothers]
    obtain ⟨hlast, htype⟩ := readMark (bytes.drop blockMax).isEmpty
      (littleEndianBytes 2 (bytes.take blockMax).length
        ++ littleEndianBytes 2 (65535 - (bytes.take blockMax).length)
        ++ bytes.take blockMax ++ others)
    rw [hstream, readBlocks, hlast]
    simp only []
    rw [htype]
    simp only [readBlock, if_pos, readStoredBlock_written hblock]
    cases hempty : (bytes.drop blockMax).isEmpty with
    | true =>
      rw [hempty] at hothers
      rw [← hsplit, List.isEmpty_iff.1 hempty, hothers]
      simp
    | false =>
      rw [hempty] at hothers
      rw [hothers, ← hsplit]
      exact ih (length_drop_lt hempty hfuel) (Nat.le_of_succ_le_succ hsteps) _

theorem length_le_storedBlocks {fuel : Nat} {bytes : Bytes} (hfuel : bytes.length < fuel) :
    bytes.length ≤ (storedBlocks fuel bytes).length := by
  induction fuel generalizing bytes with
  | zero => exact absurd hfuel (Nat.not_lt_zero _)
  | succ fuel ih =>
    have hlengths : bytes.length = (bytes.take blockMax).length + (bytes.drop blockMax).length := by
      rw [← List.length_append, List.take_append_drop]
    simp only [storedBlocks, List.length_append, List.length_cons]
    cases hempty : (bytes.drop blockMax).isEmpty with
    | true =>
      have hnone := List.length_eq_zero_iff.2 (List.isEmpty_iff.1 hempty)
      omega
    | false =>
      have hothers := ih (length_drop_lt hempty hfuel)
      simp only [Bool.false_eq_true, if_false]
      omega

theorem inflate_storedBlocks (bytes rest : Bytes) :
    inflate (storedBlocks (bytes.length + 1) bytes ++ rest) = .ok (bytes, rest) := by
  have hlength := length_le_storedBlocks (Nat.lt_succ_self bytes.length)
  have hsteps : bytes.length + 1
      ≤ fuelFor ⟨storedBlocks (bytes.length + 1) bytes ++ rest, 0⟩ := by
    simp only [fuelFor, List.length_append, Nat.succ_eq_add_one] at hlength ⊢
    omega
  simp only [inflate, readBlocks_storedBlocks (Nat.lt_succ_self _) hsteps]
  simp [align]

/-! ### Members -/

theorem readHeader_written (rest : Bytes) : readHeader (writtenHeader ++ rest) = .ok rest := rfl

theorem checkTrailer_append (content : Bytes) {sum size : Bytes} (hsum : sum.length = 4)
    (hsize : size.length = 4) :
    checkTrailer content (sum ++ size) =
      if littleEndian sum = (Crc32.checksum content).toNat
          && littleEndian size = content.length % Nat.pow 2 32 then .ok ()
      else .error .checksum := by
  have hlength : (sum ++ size).length = 8 := by rw [List.length_append, hsum, hsize]
  have htake : take 8 (sum ++ size) = .ok (sum ++ size, []) := by
    rw [take, List.take_of_length_le hlength.le, List.drop_of_length_le hlength.le]
    simp [hlength]
  rw [checkTrailer, htake]
  simp only [List.take_left' hsum, List.drop_left' hsum]

theorem checkTrailer_written (content : Bytes) :
    checkTrailer content (littleEndianBytes 4 (Crc32.checksum content).toNat
      ++ littleEndianBytes 4 (content.length % Nat.pow 2 32)) = .ok () := by
  have hsum : (Crc32.checksum content).toNat % 256 ^ 4 = (Crc32.checksum content).toNat :=
    Nat.mod_eq_of_lt (Crc32.checksum content).toNat_lt
  have hlength : content.length % Nat.pow 2 32 % 256 ^ 4 = content.length % Nat.pow 2 32 :=
    Nat.mod_mod _ _
  rw [checkTrailer_append content (length_littleEndianBytes _ _) (length_littleEndianBytes _ _),
    littleEndian_littleEndianBytes, littleEndian_littleEndianBytes, hsum, hlength]
  simp

theorem decompress_compress (bytes : Bytes) : decompress (compress bytes) = .ok bytes := by
  have hread : read (compress bytes) = .ok bytes := by
    rw [read, compress, List.append_assoc, List.append_assoc, readHeader_written]
    simp only [inflate_storedBlocks, checkTrailer_written]
    rfl
  rw [decompress, hread]
  rfl

end Gzip

end Telemetry
