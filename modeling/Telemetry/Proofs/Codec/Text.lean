import Telemetry.Codec.Base64
import Telemetry.Codec.Hex

/-!
# Bytes written as text

Bytes that are written in hexadecimal digits or in base64 are read back as they were. A hexadecimal text
is read as bytes exactly when it differs from what is written for them in nothing but the case of its
letters. In base64 a text is read back group by group: a full group of four symbols gives its three bytes
whatever follows, and only the last group may be padded.
-/

namespace Telemetry

namespace Hex

theorem value?_digit {n : UInt8} (h : n.toNat < 16) : value? (digit n) = some n := by
  have hall : ∀ k : Fin 16, value? (digit k.val.toUInt8) = some k.val.toUInt8 := by decide
  have hn : n.toNat.toUInt8 = n := UInt8.ofNat_toNat
  rw [← hn]
  exact hall ⟨n.toNat, h⟩

theorem toNat_high_lt (b : UInt8) : (b / 16).toNat < 16 := by
  have hb := b.toNat_lt
  rw [UInt8.toNat_div]
  change b.toNat / 16 < 16
  omega

theorem toNat_low_lt (b : UInt8) : (b % 16).toNat < 16 := by
  rw [UInt8.toNat_mod]
  exact Nat.mod_lt _ (by decide)

theorem decode?_encode (bytes : Bytes) : decode? (encode bytes) = some bytes := by
  induction bytes with
  | nil => rfl
  | cons b bytes ih =>
    have hbyte : 16 * (b / 16) + b % 16 = b := by
      apply UInt8.toNat_inj.1
      have := b.toNat_lt
      simp only [UInt8.toNat_add, UInt8.toNat_mul, UInt8.toNat_div, UInt8.toNat_mod,
        UInt8.reduceToNat]
      omega
    change decode? (digit (b / 16) :: digit (b % 16) :: encode bytes) = _
    rw [decode?, value?_digit (toNat_high_lt b), value?_digit (toNat_low_lt b), ih]
    simp only [Option.map_some, hbyte]

theorem lt_of_value? {c : Char} {n : UInt8} (h : value? c = some n) : c.toNat < 128 := by
  have hle {last : Char} (hlast : last.toNat < 128) (hc : c ≤ last) : c.toNat < 128 :=
    Nat.lt_of_le_of_lt (UInt32.le_iff_toNat_le.1 hc) hlast
  unfold value? at h
  simp only [Bool.and_eq_true, decide_eq_true_eq] at h
  split at h
  · rename_i hrange
    exact hle (by decide) hrange.2
  · split at h
    · rename_i hrange
      exact hle (by decide) hrange.2
    · split at h
      · rename_i hrange
        exact hle (by decide) hrange.2
      · cases h

theorem digit_of_value? {c : Char} {n : UInt8} (h : value? c = some n) :
    n.toNat < 16 ∧ c.toLower = digit n := by
  have hall : ∀ k : Fin 128, ∀ n ∈ value? (Char.ofNat k.val),
      n.toNat < 16 ∧ (Char.ofNat k.val).toLower = digit n := by decide +kernel
  rw [← Char.ofNat_toNat c] at h ⊢
  exact hall ⟨_, by simpa using lt_of_value? h⟩ n h

theorem value?_toLower (c : Char) : value? c.toLower = value? c := by
  by_cases hascii : c.toNat < 128
  · have hall : ∀ k : Fin 128, value? (Char.ofNat k.val).toLower = value? (Char.ofNat k.val) := by
      decide
    rw [← Char.ofNat_toNat c]
    exact hall ⟨c.toNat, hascii⟩
  -- Only ASCII has letters with another case here.
  · have hlower : c.toLower = c := by
      have hsmall : ¬ (c.val ≥ 'A'.val ∧ c.val ≤ 'Z'.val) := by
        rintro ⟨-, hle⟩
        have hnat : c.toNat ≤ 90 := UInt32.le_iff_toNat_le.1 hle
        omega
      exact dif_neg hsmall
    rw [hlower]

theorem decode?_cons_cons (c d : Char) (rest : List Char) :
    decode? (c :: d :: rest) = match value? c, value? d with
      | some high, some low => (decode? rest).map fun bytes => (16 * high + low) :: bytes
      | _, _ => none := rfl

theorem decode?_map_toLower (cs : List Char) : decode? (cs.map Char.toLower) = decode? cs := by
  match cs with
  | [] => rfl
  | [c] => rfl
  | c :: d :: rest =>
    have hrest := decode?_map_toLower rest
    rw [List.map_cons, List.map_cons, decode?_cons_cons, decode?_cons_cons, value?_toLower,
      value?_toLower, hrest]

/-- Two digits of a byte are its halves. -/
theorem halves {high low : UInt8} (hhigh : high.toNat < 16) (hlow : low.toNat < 16) :
    (16 * high + low) / 16 = high ∧ (16 * high + low) % 16 = low := by
  constructor <;> apply UInt8.toNat_inj.1 <;>
    simp only [UInt8.toNat_add, UInt8.toNat_mul, UInt8.toNat_div, UInt8.toNat_mod,
      UInt8.reduceToNat] <;> omega

/-- The texts of bytes are the one that is written and what differs from it in the case of letters. -/
theorem decode?_eq_some_iff {cs : List Char} {bytes : Bytes} :
    decode? cs = some bytes ↔ cs.map Char.toLower = encode bytes := by
  constructor
  · intro h
    induction cs using decode?.induct generalizing bytes with
    | case1 =>
      cases h
      rfl
    | case2 => cases h
    | case3 c d rest high low hlow hhigh ih =>
      rw [decode?_cons_cons, hhigh, hlow] at h
      obtain ⟨tail, htail, rfl⟩ := Option.map_eq_some_iff.1 h
      obtain ⟨hhigh, hc⟩ := digit_of_value? hhigh
      obtain ⟨hlow, hd⟩ := digit_of_value? hlow
      obtain ⟨hfirst, hsecond⟩ := halves hhigh hlow
      rw [List.map_cons, List.map_cons, hc, hd, ih htail, encode, encode, List.flatMap_cons, hfirst,
        hsecond]
      rfl
    | case4 c d rest hnone =>
      rw [decode?_cons_cons] at h
      split at h
      · exact (hnone _ _ ‹_› ‹_›).elim
      · cases h
  · intro h
    rw [← decode?_map_toLower, h, decode?_encode]

@[simp] theorem length_encode (bytes : Bytes) : (encode bytes).length = 2 * bytes.length := by
  induction bytes with
  | nil => rfl
  | cons b bytes ih =>
    change (encode bytes).length + 1 + 1 = _
    rw [ih, List.length_cons]
    omega

theorem mem_encode {bytes : Bytes} {c : Char} (h : c ∈ encode bytes) :
    ∃ n : UInt8, n.toNat < 16 ∧ c = digit n := by
  obtain ⟨b, -, hdigit⟩ := List.mem_flatMap.1 h
  simp only [List.mem_cons, List.not_mem_nil, or_false] at hdigit
  rcases hdigit with rfl | rfl
  · exact ⟨b / 16, toNat_high_lt b, rfl⟩
  · exact ⟨b % 16, toNat_low_lt b, rfl⟩

end Hex

namespace Base64

theorem value?_symbol {n : Nat} (h : n < 64) : value? (symbol n) = some n := by
  have hall : ∀ k : Fin 64, value? (symbol k.val) = some k.val := by decide
  exact hall ⟨n, h⟩

theorem symbol_ne_pad {n : Nat} (h : n < 64) : symbol n ≠ pad := by
  intro heq
  have hvalue := value?_symbol h
  rw [heq] at hvalue
  cases hvalue

theorem values_symbols (offset : Nat) (numbers : List Nat) (h : ∀ n ∈ numbers, n < 64) :
    values offset (numbers.map symbol) = .ok numbers := by
  induction numbers generalizing offset with
  | nil => rfl
  | cons n numbers ih =>
    have hrest : ∀ m ∈ numbers, m < 64 := fun m hmem => h m (List.mem_cons_of_mem _ hmem)
    rw [List.map_cons, values, value?_symbol (h n List.mem_cons_self), ih (offset + 1) hrest]
    rfl

theorem bytesOf_split (a b c : UInt8) :
    bytesOf (a.toNat / 4) (a.toNat % 4 * 16 + b.toNat / 16) (b.toNat % 16 * 4 + c.toNat / 64)
      (c.toNat % 64) = [a, b, c] := by
  have ha := a.toNat_lt
  have hb := b.toNat_lt
  have hc := c.toNat_lt
  have hfirst : a.toNat / 4 * 4 + (a.toNat % 4 * 16 + b.toNat / 16) / 16 = a.toNat := by omega
  have hsecond : (a.toNat % 4 * 16 + b.toNat / 16) % 16 * 16
      + (b.toNat % 16 * 4 + c.toNat / 64) / 4 = b.toNat := by omega
  have hthird : (b.toNat % 16 * 4 + c.toNat / 64) % 4 * 64 + c.toNat % 64 = c.toNat := by omega
  rw [bytesOf, hfirst, hsecond, hthird]
  simp only [Nat.toUInt8, UInt8.ofNat_toNat]

theorem numbers_lt (a b c : UInt8) :
    a.toNat / 4 < 64 ∧ a.toNat % 4 * 16 + b.toNat / 16 < 64 ∧ b.toNat % 16 * 4 + c.toNat / 64 < 64 ∧
      c.toNat % 64 < 64 := by
  have ha := a.toNat_lt
  have hb := b.toNat_lt
  have hc := c.toNat_lt
  omega

/-! ### The last group, which has one, two or three bytes -/

theorem decodeLast_one (offset : Nat) (a : UInt8) : decodeLast offset (encode [a]) = .ok [a] := by
  obtain ⟨hfirst, hsecond, _⟩ := numbers_lt a 0 0
  have hbytes := bytesOf_split a 0 0
  simp only [UInt8.toNat_zero, Nat.zero_div, Nat.zero_mod, Nat.add_zero] at hsecond hbytes
  have hvalues := values_symbols offset [a.toNat / 4, a.toNat % 4 * 16] (by simp; omega)
  simp only [List.map_cons, List.map_nil] at hvalues
  simp [decodeLast, encode, symbol_ne_pad, hfirst, hsecond, hvalues, hbytes]

theorem decodeLast_two (offset : Nat) (a b : UInt8) :
    decodeLast offset (encode [a, b]) = .ok [a, b] := by
  obtain ⟨hfirst, hsecond, hthird, _⟩ := numbers_lt a b 0
  have hbytes := bytesOf_split a b 0
  simp only [UInt8.toNat_zero, Nat.zero_div, Nat.zero_mod, Nat.add_zero] at hthird hbytes
  have hvalues := values_symbols offset
    [a.toNat / 4, a.toNat % 4 * 16 + b.toNat / 16, b.toNat % 16 * 4] (by simp; omega)
  simp only [List.map_cons, List.map_nil] at hvalues
  simp [decodeLast, encode, symbol_ne_pad, hfirst, hsecond, hthird, hvalues, hbytes]

theorem values_group (offset : Nat) (a b c : UInt8) :
    values offset (encode [a, b, c]) = .ok [a.toNat / 4, a.toNat % 4 * 16 + b.toNat / 16,
      b.toNat % 16 * 4 + c.toNat / 64, c.toNat % 64] := by
  obtain ⟨hfirst, hsecond, hthird, hfourth⟩ := numbers_lt a b c
  exact values_symbols offset [a.toNat / 4, a.toNat % 4 * 16 + b.toNat / 16,
    b.toNat % 16 * 4 + c.toNat / 64, c.toNat % 64] (by simp; omega)

theorem decodeLast_three (offset : Nat) (a b c : UInt8) :
    decodeLast offset (encode [a, b, c]) = .ok [a, b, c] := by
  obtain ⟨hfirst, hsecond, hthird, hfourth⟩ := numbers_lt a b c
  have hvalues := values_group offset a b c
  simp only [encode] at hvalues
  simp [decodeLast, encode, symbol_ne_pad, hfirst, hsecond, hthird, hfourth, hvalues,
    bytesOf_split]

/-! ### All groups -/

theorem encode_eq_nil_iff {bytes : Bytes} : encode bytes = [] ↔ bytes = [] := by
  fun_cases encode bytes <;> simp

theorem decodeGroups_encode (offset : Nat) (acc : Bytes) {bytes : Bytes} (hne : bytes ≠ []) :
    decodeGroups offset acc (encode bytes) = .ok (acc.reverse ++ bytes) := by
  induction bytes using encode.induct generalizing offset acc with
  | case1 => exact absurd rfl hne
  | case2 a =>
    change (decodeLast offset (encode [a])).map _ = _
    rw [decodeLast_one]
    rfl
  | case3 a b =>
    change (decodeLast offset (encode [a, b])).map _ = _
    rw [decodeLast_two]
    rfl
  | case4 a b c rest ih =>
    by_cases hrest : rest = []
    · subst hrest
      change (decodeLast offset (encode [a, b, c])).map _ = _
      rw [decodeLast_three]
      rfl
    -- A group that is followed by another symbol is read as a full one.
    · obtain ⟨first, others, hencode⟩ := List.exists_cons_of_ne_nil (mt encode_eq_nil_iff.1 hrest)
      have hvalues := values_group offset a b c
      simp only [encode] at hvalues
      rw [encode, hencode, decodeGroups, hvalues]
      simp only [bytesOf_split]
      rw [← hencode, ih _ _ hrest]
      simp

theorem length_encode (bytes : Bytes) : (encode bytes).length % 4 = 0 := by
  induction bytes using encode.induct with
  | case1 => rfl
  | case2 a => simp [encode]
  | case3 a b => simp [encode]
  | case4 a b c rest ih =>
    simp only [encode, List.length_cons]
    omega

theorem decode_encode (bytes : Bytes) : decode (encode bytes) = .ok bytes := by
  by_cases hne : bytes = []
  · subst hne
    rfl
  · have hempty : (encode bytes).isEmpty = false := by simpa using mt encode_eq_nil_iff.1 hne
    have hstray : strayLast? (encode bytes) = none := by
      unfold strayLast?
      split
      · rw [length_encode, if_neg (by simp)]
      · rfl
    rw [decode, hempty, hstray]
    exact decodeGroups_encode 0 [] hne

theorem mem_encode {bytes : Bytes} {s : UInt8} (h : s ∈ encode bytes) :
    s = pad ∨ ∃ n < 64, s = symbol n := by
  induction bytes using encode.induct with
  | case1 => cases h
  | case2 a =>
    obtain ⟨hfirst, hsecond, _⟩ := numbers_lt a 0 0
    simp only [UInt8.toNat_zero, Nat.zero_div, Nat.add_zero] at hsecond
    simp only [encode, List.mem_cons, List.not_mem_nil, or_false] at h
    rcases h with rfl | rfl | rfl | rfl
    · exact .inr ⟨_, hfirst, rfl⟩
    · exact .inr ⟨_, hsecond, rfl⟩
    · exact .inl rfl
    · exact .inl rfl
  | case3 a b =>
    obtain ⟨hfirst, hsecond, hthird, _⟩ := numbers_lt a b 0
    simp only [UInt8.toNat_zero, Nat.zero_div, Nat.add_zero] at hthird
    simp only [encode, List.mem_cons, List.not_mem_nil, or_false] at h
    rcases h with rfl | rfl | rfl | rfl
    · exact .inr ⟨_, hfirst, rfl⟩
    · exact .inr ⟨_, hsecond, rfl⟩
    · exact .inr ⟨_, hthird, rfl⟩
    · exact .inl rfl
  | case4 a b c rest ih =>
    obtain ⟨hfirst, hsecond, hthird, hfourth⟩ := numbers_lt a b c
    simp only [encode, List.mem_cons] at h
    rcases h with rfl | rfl | rfl | rfl | h
    · exact .inr ⟨_, hfirst, rfl⟩
    · exact .inr ⟨_, hsecond, rfl⟩
    · exact .inr ⟨_, hthird, rfl⟩
    · exact .inr ⟨_, hfourth, rfl⟩
    · exact ih h

end Base64

end Telemetry
