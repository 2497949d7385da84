import Telemetry.Proofs.Net.Groups
import Telemetry.Proofs.Net.Prefix
import Telemetry.Proofs.Number.Literal

/-!
# Subnets

What a text says about a subnet is an address and a number of bits. The subnet holds the addresses of the
family whose first bits are those of the address; the bits after them do not matter. A text that says
nothing, or asks for more bits than the address has, is refused. A subnet can be told from its addresses:
it is the only one that holds them, and its own text says it.
-/

namespace Telemetry.Net

open Telemetry.Number

namespace Subnet

/-- What a text says: the address, and all its bits or as many as stand after the first slash. -/
inductive Describes : List Char → IpAddress → Nat → Prop where
  | whole {text : List Char} {address : IpAddress} (hslash : '/' ∉ text)
    (haddress : Writes (Text.trimBlanks text) address) : Describes text address address.width
  | part {text bits : List Char} {address : IpAddress} {length : Nat} (hslash : '/' ∉ text)
    (haddress : Writes (Text.trimBlanks text) address)
    (hlength : Literal.WritesNat (Text.trimBlanks bits) length) :
    Describes (text ++ '/' :: bits) address length

/-- How a text that is not that of a subnet is told about. -/
def fault (text reason : String) : Failure :=
  .configuration ("Invalid trusted subnet " ++ text ++ ": " ++ reason)

/-- The text is refused. -/
def Refuses (text : String) : Prop := ∃ reason, parse text = .error (fault text reason)

/-- The subnet of the addresses that begin as an address does. -/
def ofAddress : IpAddress → Nat → Subnet
  | .v4 bits, length => .v4 (network length bits) length
  | .v6 bits, length => .v6 (network length bits) length

variable {address other : IpAddress} {length count : Nat}

/-! ### The addresses of a subnet -/

theorem ofParts?_eq_some_iff {subnet : Subnet} : ofParts? address length = some subnet ↔
    length ≤ address.width ∧ ofAddress address length = subnet := by
  have hparts : ofParts? address length =
      if address.width < length then none else some (ofAddress address length) := by
    cases address <;> rfl
  rw [hparts]
  split
  · exact ⟨nofun, fun h => absurd ‹_› (Nat.not_lt.2 h.1)⟩
  · rw [Option.some_inj, ← Nat.not_lt]
    exact ⟨fun h => ⟨‹_›, h⟩, And.right⟩

theorem contains_ofAddress (hlength : length ≤ address.width) (x : IpAddress) :
    (ofAddress address length).contains x = true ↔ SharesPrefix length address x := by
  cases address with
  | v4 bits =>
    have hwidth : length ≤ 32 := hlength
    cases x with
    | v4 bits' =>
      rw [ofAddress, contains, decide_eq_true_eq, network_eq_network_iff hwidth]
      exact ⟨fun h => .v4 h.symm, fun | .v4 h => h.symm⟩
    | v6 bits' => exact ⟨nofun, nofun⟩
  | v6 bits =>
    have hwidth : length ≤ 128 := hlength
    cases x with
    | v4 bits' => exact ⟨nofun, nofun⟩
    | v6 bits' =>
      rw [ofAddress, contains, decide_eq_true_eq, network_eq_network_iff hwidth]
      exact ⟨fun h => .v6 h.symm, fun | .v6 h => h.symm⟩

/-- The bits after the first ones do not matter. -/
theorem ofAddress_congr (hlength : length ≤ address.width)
    (h : SharesPrefix length address other) : ofAddress other length = ofAddress address length := by
  cases h with
  | v4 h =>
    have hwidth : length ≤ 32 := hlength
    rw [ofAddress, ofAddress, (network_eq_network_iff hwidth).2 h]
  | v6 h =>
    have hwidth : length ≤ 128 := hlength
    rw [ofAddress, ofAddress, (network_eq_network_iff hwidth).2 h]

/-- Subnets of the same addresses are equal. -/
theorem ofAddress_eq_of_forall (hlength : length ≤ address.width) (hcount : count ≤ other.width)
    (h : ∀ x, SharesPrefix length address x ↔ SharesPrefix count other x) :
    ofAddress address length = ofAddress other count := by
  obtain rfl : length = count := Nat.le_antisymm
    (SharesPrefix.le_of_forall hlength fun x => (h x).2)
    (SharesPrefix.le_of_forall hcount fun x => (h x).1)
  exact ofAddress_congr hcount ((h address).1 (.refl length address))

/-! ### What a text says -/

/-- An address and a number of bits are what their own text says. -/
theorem describes_part (address : IpAddress) (length : Nat) :
    Describes (address.text ++ '/' :: Layout.digitsOf length) address length := by
  have hplain := (writes_text address).plain
  have hlength : Literal.WritesNat (Layout.digitsOf length) length := by
    have hdigits := Literal.WritesNat.plain (Json.Numeral.digitsOf_ne_nil length) fun c hc =>
      Json.Numeral.isDigit_digitsOf hc
    rwa [Json.Numeral.ofDigitChars_digitsOf] at hdigits
  apply Describes.part
  · exact fun hslash => (hplain '/' hslash).not_blank.2 rfl
  · rw [trimBlanks_plain hplain]
    exact writes_text address
  · rwa [trimBlanks_plain (plain_digitsOf length)]

theorem describes_whole (address : IpAddress) : Describes address.text address address.width := by
  have hplain := (writes_text address).plain
  apply Describes.whole
  · exact fun hslash => (hplain '/' hslash).not_blank.2 rfl
  · rw [trimBlanks_plain hplain]
    exact writes_text address

theorem parse_whole {text : String} (hslash : '/' ∉ text.toList) :
    parse text = (ofText text.toList none).mapError (fault text) := by
  have hall : ∀ c ∈ text.toList, decide (c ≠ '/') = true :=
    fun c hc => decide_eq_true fun hsame => hslash (hsame ▸ hc)
  rw [parse, List.takeWhile_eq_self_iff.2 hall, List.dropWhile_eq_nil_iff.2 hall]
  rfl

theorem divide_slash {front : List Char} (hslash : '/' ∉ front) (bits : List Char) :
    (front ++ '/' :: bits).takeWhile (· ≠ '/') = front ∧
      (front ++ '/' :: bits).dropWhile (· ≠ '/') = '/' :: bits := by
  have hall : ∀ c ∈ front, decide (c ≠ '/') = true :=
    fun c hc => decide_eq_true fun hsame => hslash (hsame ▸ hc)
  rw [List.takeWhile_append_of_pos hall, List.dropWhile_append_of_pos hall,
    List.takeWhile_cons_of_neg (by decide), List.dropWhile_cons_of_neg (by decide), List.append_nil]
  exact ⟨rfl, rfl⟩

theorem parse_part {text : String} {front bits : List Char} (hslash : '/' ∉ front)
    (htext : text.toList = front ++ '/' :: bits) :
    parse text = (ofText front (some bits)).mapError (fault text) := by
  obtain ⟨hfront, hbits⟩ := divide_slash hslash bits
  rw [parse, htext, hfront, hbits]
  rfl

theorem mapError_eq_ok {ε ε' α : Type} {result : Except ε α} {f : ε → ε'} {a : α} :
    result.mapError f = .ok a ↔ result = .ok a := by
  cases result <;> simp [Except.mapError]

theorem readLength_eq_ok_iff {bits : List Char} : readLength bits = .ok length ↔
    Literal.WritesNat (Text.trimBlanks bits) length ∧ length ≤ 255 := by
  rw [readLength, mapError_eq_ok, Literal.readNat_eq_ok_iff]

theorem ofText_eq_ok_iff {front : List Char} {bits : Option (List Char)} {subnet : Subnet} :
    ofText front bits = .ok subnet ↔ ∃ address length, Writes (Text.trimBlanks front) address ∧
      (bits.map readLength).getD (.ok address.width) = .ok length ∧
        length ≤ address.width ∧ ofAddress address length = subnet := by
  rw [ofText]
  cases hparse : IpAddress.parse? (Text.trimBlanks front) with
  | none =>
    refine ⟨nofun, ?_⟩
    rintro ⟨address, length, hwrites, -⟩
    rw [parse?_eq_some_iff.2 hwrites] at hparse
    cases hparse
  | some address =>
    have hwrites := parse?_eq_some_iff.1 hparse
    dsimp only
    constructor
    · intro h
      split at h
      · cases h
      · rename_i length hlength
        split at h
        · cases h
        · cases h
          exact ⟨address, length, hwrites, hlength, ofParts?_eq_some_iff.1 ‹_›⟩
    · rintro ⟨address', length, hwrites', hlength, hsubnet⟩
      obtain rfl := hwrites.unique hwrites'
      rw [hlength]
      dsimp only
      rw [ofParts?_eq_some_iff.2 hsubnet]

theorem width_le (address : IpAddress) : address.width ≤ 128 := by
  cases address with
  | v4 bits => exact show 32 ≤ 128 by decide
  | v6 bits => exact Nat.le_refl 128

/-- A text is that of a subnet exactly when what it says makes one. -/
theorem parse_eq_ok_iff {text : String} {subnet : Subnet} : parse text = .ok subnet ↔
    ∃ address length, Describes text.toList address length ∧ length ≤ address.width ∧
      ofAddress address length = subnet := by
  constructor
  · intro h
    by_cases hslash : '/' ∈ text.toList
    · obtain ⟨front, bits, htext, hfront⟩ := List.eq_append_cons_of_mem hslash
      rw [parse_part hfront htext, mapError_eq_ok, ofText_eq_ok_iff] at h
      obtain ⟨address, length, hwrites, hlength, hsubnet⟩ := h
      rw [htext]
      exact ⟨address, length, .part hfront hwrites (readLength_eq_ok_iff.1 hlength).1, hsubnet⟩
    · rw [parse_whole hslash, mapError_eq_ok, ofText_eq_ok_iff] at h
      obtain ⟨address, length, hwrites, hlength, hsubnet⟩ := h
      obtain rfl : address.width = length := Except.ok.inj hlength
      exact ⟨address, _, .whole hslash hwrites, hsubnet⟩
  · rintro ⟨address, length, hdescribes, hsubnet⟩
    generalize htext : text.toList = cs at hdescribes
    cases hdescribes with
    | whole hslash hwrites =>
      subst htext
      rw [parse_whole hslash, mapError_eq_ok, ofText_eq_ok_iff]
      exact ⟨address, _, hwrites, rfl, hsubnet⟩
    | part hslash hwrites hlength =>
      have hbyte : length ≤ 255 := (hsubnet.1.trans (width_le address)).trans (by decide)
      rw [parse_part hslash htext, mapError_eq_ok, ofText_eq_ok_iff]
      exact ⟨address, length, hwrites, readLength_eq_ok_iff.2 ⟨hlength, hbyte⟩, hsubnet⟩

theorem Describes.unique {text : List Char} (h : Describes text address length)
    (h' : Describes text other count) : address = other ∧ length = count := by
  cases h with
  | whole hslash hwrites =>
    cases h' with
    | whole _ hwrites' =>
      obtain rfl := hwrites.unique hwrites'
      exact ⟨rfl, rfl⟩
    | part => exact absurd (List.mem_append_right _ List.mem_cons_self) hslash
  | @part front bits _ _ hslash hwrites hlength =>
    generalize htext : front ++ '/' :: bits = text at h'
    cases h' with
    | whole hslash' =>
      subst htext
      exact absurd (List.mem_append_right _ List.mem_cons_self) hslash'
    | part hslash' hwrites' hlength' =>
      obtain ⟨hfront, hbits⟩ := divide_slash hslash bits
      obtain ⟨hfront', hbits'⟩ := divide_slash hslash' _
      rw [htext] at hfront hbits
      obtain rfl := hfront.symm.trans hfront'
      obtain ⟨-, rfl⟩ := List.cons.inj (hbits.symm.trans hbits')
      exact ⟨hwrites.unique hwrites', hlength.unique hlength'⟩

theorem parse_ok_or_refuses (text : String) : (∃ subnet, parse text = .ok subnet) ∨ Refuses text := by
  have hparse : ∃ result, parse text = Except.mapError (fault text) result := ⟨_, rfl⟩
  obtain ⟨reason | subnet, hresult⟩ := hparse
  · exact .inr ⟨reason, hresult⟩
  · exact .inl ⟨subnet, hresult⟩

theorem allows_iff {subnet : Subnet} {header : Option String} : subnet.allows header = true ↔
    ∃ value x, header = some value ∧ Writes (Text.trimBlanks value.toList) x ∧
      subnet.contains x = true := by
  rw [allows]
  constructor
  · intro h
    split at h
    · rename_i x hx
      obtain ⟨value, hvalue, hparse⟩ := Option.bind_eq_some_iff.1 hx
      exact ⟨value, x, hvalue, parse?_eq_some_iff.1 hparse, h⟩
    · cases h
  · rintro ⟨value, x, rfl, hwrites, hcontains⟩
    rw [Option.bind_some, parse?_eq_some_iff.2 hwrites]
    exact hcontains

/-- Every address and every number of bits are what some text says, among others their own. A text that
says an address and no more bits than it has is that of one subnet: whatever the bits behind the first
ones are, it holds the addresses that begin with the same bits and lets in whoever gives one of them. All
other texts are refused. -/
theorem parse_admits_prefix :
    (∀ address : IpAddress, Describes address.text address address.width ∧
      ∀ length, Describes (address.text ++ '/' :: Layout.digitsOf length) address length) ∧
    ∀ text : String,
      (∀ address length, Describes text.toList address length → length ≤ address.width →
        ∃ subnet, parse text = .ok subnet ∧
          (∀ x, subnet.contains x = true ↔ SharesPrefix length address x) ∧
          (∀ header, subnet.allows header = true ↔ ∃ value x, header = some value ∧
            Writes (Text.trimBlanks value.toList) x ∧ SharesPrefix length address x) ∧
          ∀ (same : String) (other : IpAddress), Describes same.toList other length →
            SharesPrefix length address other → parse same = .ok subnet) ∧
      (∀ address length, Describes text.toList address length → address.width < length →
        Refuses text) ∧
      ((¬ ∃ address length, Describes text.toList address length) → Refuses text) := by
  refine ⟨fun address => ⟨describes_whole address, describes_part address⟩, fun text => ⟨?_, ?_, ?_⟩⟩
  · intro address length hdescribes hlength
    have hcontains := contains_ofAddress hlength
    refine ⟨ofAddress address length, parse_eq_ok_iff.2 ⟨_, _, hdescribes, hlength, rfl⟩, hcontains,
      fun header => ?_, fun same other hsame hshares => ?_⟩
    · simp only [allows_iff, hcontains]
    · have hwidth : address.width = other.width := by cases hshares <;> rfl
      exact parse_eq_ok_iff.2 ⟨other, length, hsame, hwidth ▸ hlength, ofAddress_congr hlength hshares⟩
  · intro address length hdescribes hlarge
    obtain ⟨subnet, hparse⟩ | hrefuses := parse_ok_or_refuses text
    · obtain ⟨address', length', hdescribes', hlength, -⟩ := parse_eq_ok_iff.1 hparse
      obtain ⟨rfl, rfl⟩ := hdescribes.unique hdescribes'
      exact absurd hlength (Nat.not_le.2 hlarge)
    · exact hrefuses
  · intro hnothing
    obtain ⟨subnet, hparse⟩ | hrefuses := parse_ok_or_refuses text
    · obtain ⟨address, length, hdescribes, -⟩ := parse_eq_ok_iff.1 hparse
      exact absurd ⟨address, length, hdescribes⟩ hnothing
    · exact hrefuses

/-- The bits behind the first byte do not matter, and 33 bits are too many. -/
theorem parse_admits_prefix_truncated :
    Refuses "10.0.0.0/33" ∧ ∃ subnet, parse "10.1.2.3/8" = .ok subnet ∧
      parse "10.0.0.0/8" = .ok subnet ∧ subnet.contains (.v4 0x0A141E28) = true ∧
        subnet.allows (some " 10.20.30.40 ") = true := by
  obtain ⟨hown, hall⟩ := parse_admits_prefix
  have hlarge : Describes "10.0.0.0/33".toList (.v4 0x0A000000) 33 := (hown (.v4 0x0A000000)).2 33
  have hhost : Describes "10.1.2.3/8".toList (.v4 0x0A010203) 8 := (hown (.v4 0x0A010203)).2 8
  have hnetwork : Describes "10.0.0.0/8".toList (.v4 0x0A000000) 8 := (hown (.v4 0x0A000000)).2 8
  have hshares (bits : BitVec 32) (h : ∀ i < 8, BitVec.getMsbD 0x0A010203#32 i = bits.getMsbD i) :
      SharesPrefix 8 (.v4 0x0A010203) (.v4 bits) := .v4 h
  have hinside := hshares 0x0A141E28 (by decide)
  obtain ⟨subnet, hparse, hcontains, hallows, hsame⟩ :=
    (hall "10.1.2.3/8").1 _ _ hhost (show 8 ≤ 32 by decide)
  refine ⟨(hall "10.0.0.0/33").2.1 _ _ hlarge (show 32 < 33 by decide), subnet, hparse,
    hsame _ _ hnetwork (hshares _ (by decide)), (hcontains _).2 hinside, ?_⟩
  exact (hallows _).2 ⟨" 10.20.30.40 ", .v4 0x0A141E28, rfl, .v4 0x0A141E28, hinside⟩

theorem describes_text (hlength : length ≤ address.width) :
    ∃ first, Describes (ofAddress address length).text.toList first length ∧ length ≤ first.width ∧
      ofAddress first length = ofAddress address length := by
  cases address with
  | v4 bits =>
    have hwidth : length ≤ 32 := hlength
    refine ⟨.v4 (network length bits), ?_, hlength, ?_⟩
    · rw [ofAddress, text, String.toList_ofList]
      exact describes_part (.v4 _) length
    · rw [ofAddress, ofAddress, network_network hwidth]
  | v6 bits =>
    have hwidth : length ≤ 128 := hlength
    refine ⟨.v6 (network length bits), ?_, hlength, ?_⟩
    · rw [ofAddress, text, String.toList_ofList]
      exact describes_part (.v6 _) length
    · rw [ofAddress, ofAddress, network_network hwidth]

/-- Two texts are those of one subnet exactly when they are of subnets that hold the same addresses, and
a subnet is read back from its own text. -/
theorem parse_is_canonical {left right : String} {subnet subnet' : Subnet}
    (hleft : parse left = .ok subnet) (hright : parse right = .ok subnet') :
    (subnet = subnet' ↔ ∀ x, subnet.contains x = subnet'.contains x) ∧
      parse subnet.text = .ok subnet ∧ (subnet.text = subnet'.text ↔ subnet = subnet') := by
  have hback {text : String} {subnet : Subnet} (h : parse text = .ok subnet) :
      parse subnet.text = .ok subnet := by
    obtain ⟨address, length, -, hlength, rfl⟩ := parse_eq_ok_iff.1 h
    obtain ⟨first, hfirst⟩ := describes_text hlength
    exact parse_eq_ok_iff.2 ⟨first, length, hfirst⟩
  refine ⟨⟨?_, ?_⟩, hback hleft, ?_, ?_⟩
  · rintro rfl x
    rfl
  · intro hsame
    obtain ⟨address, length, -, hlength, rfl⟩ := parse_eq_ok_iff.1 hleft
    obtain ⟨other, count, -, hcount, rfl⟩ := parse_eq_ok_iff.1 hright
    refine ofAddress_eq_of_forall hlength hcount fun x => ?_
    rw [← contains_ofAddress hlength, ← contains_ofAddress hcount, hsame x]
  · intro htext
    have hone := hback hleft
    rw [htext, hback hright] at hone
    exact (Except.ok.inj hone).symm
  · rintro rfl
    rfl

/-- Two texts of one subnet, whose own text has bytes at its end. -/
theorem parse_is_canonical_mapped :
    let subnet := Subnet.v6 0xFFFF0A010200 120
    parse "::ffff:10.1.2.3/120" = .ok subnet ∧ parse "0:0::FFFF:a01:02ff/+120" = .ok subnet ∧
      subnet.text = "::ffff:10.1.2.0/120" ∧ parse subnet.text = .ok subnet := by
  intro subnet
  have hleft : parse "::ffff:10.1.2.3/120" = .ok subnet := rfl
  have hright : parse "0:0::FFFF:a01:02ff/+120" = .ok subnet := rfl
  exact ⟨hleft, hright, rfl, (parse_is_canonical hleft hright).2.1⟩

/-- Of two runs of zero groups that are equally long the first is left out. -/
example : (Subnet.v6 0x00010000000000020000000000030004 128).text = "1::2:0:0:3:4/128" := rfl

end Subnet

end Telemetry.Net
