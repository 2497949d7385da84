import Telemetry.Net.Subnet

/-!
# First bits

A network is an address with zeros after its first bits, so two addresses have one network exactly when
their first bits are the same; this holds for any number of bits, from none to all of them. A network is
its own network. How many bits are compared can be told from which addresses have the first bits: where
one bit more is compared, the address with that bit turned over is told apart.
-/

namespace Telemetry.Net

/-- The first bits are the same. -/
def SamePrefix {width : Nat} (length : Nat) (a b : BitVec width) : Prop :=
  ∀ i < length, a.getMsbD i = b.getMsbD i

section

variable {width length other : Nat} {a b c : BitVec width}

theorem SamePrefix.refl (length : Nat) (a : BitVec width) : SamePrefix length a a := fun _ _ => rfl

theorem SamePrefix.symm (h : SamePrefix length a b) : SamePrefix length b a :=
  fun i hi => (h i hi).symm

theorem SamePrefix.trans (hab : SamePrefix length a b) (hbc : SamePrefix length b c) :
    SamePrefix length a c := fun i hi => (hab i hi).trans (hbc i hi)

/-- The bits of a network are the first bits of the address, and zeros. -/
theorem getMsbD_network (hlength : length ≤ width) (a : BitVec width) (i : Nat) :
    (network length a).getMsbD i = (decide (i < length) && a.getMsbD i) := by
  have hinside : i + (width - length) < width ↔ i < length := by omega
  rw [network, BitVec.getMsbD_shiftLeft, BitVec.getMsbD_ushiftRight, Nat.add_sub_cancel,
    decide_eq_false (Nat.not_lt.2 (Nat.le_add_left _ i)), Bool.not_false, Bool.true_and,
    decide_eq_decide.2 hinside]

theorem samePrefix_network (hlength : length ≤ width) (a : BitVec width) :
    SamePrefix length (network length a) a := by
  intro i hi
  rw [getMsbD_network hlength, decide_eq_true hi, Bool.true_and]

theorem network_eq_network_iff (hlength : length ≤ width) :
    network length a = network length b ↔ SamePrefix length a b := by
  constructor
  · intro h
    have ha := samePrefix_network hlength a
    rw [h] at ha
    exact ha.symm.trans (samePrefix_network hlength b)
  · intro h
    apply BitVec.eq_of_getMsbD_eq
    intro i _
    rw [getMsbD_network hlength, getMsbD_network hlength]
    by_cases hi : i < length
    · rw [h i hi]
    · rw [decide_eq_false hi, Bool.false_and, Bool.false_and]

theorem network_network (hlength : length ≤ width) (a : BitVec width) :
    network length (network length a) = network length a :=
  (network_eq_network_iff hlength).2 (samePrefix_network hlength a)

/-- Addresses that have their first bits in common may still differ in the next one. -/
theorem SamePrefix.le_of_forall (hother : other ≤ width)
    (h : ∀ x, SamePrefix length a x → SamePrefix other b x) : other ≤ length := by
  refine Nat.le_of_not_lt fun hlt => ?_
  -- the address with the first bit that is not compared turned over
  let x := a ^^^ BitVec.twoPow width (width - 1 - length)
  have hbit (i : Nat) : x.getMsbD i = (a.getMsbD i ^^ decide (i = length)) := by
    have hplace : width - 1 - length < width := by omega
    have hsame : i = width - (width - 1 - length) - 1 ↔ i = length := by omega
    rw [BitVec.getMsbD_xor, BitVec.getMsbD_twoPow, decide_eq_true hplace, Bool.true_and,
      decide_eq_decide.2 hsame]
  have hx : SamePrefix length a x := by
    intro i hi
    rw [hbit, decide_eq_false (Nat.ne_of_lt hi), Bool.xor_false]
  have hown := h a (.refl length a) length hlt
  have hturned := h x hx length hlt
  rw [hown, hbit, decide_eq_true rfl, Bool.xor_true] at hturned
  exact absurd hturned (by simp)

end

/-- The addresses are of one family and begin with the same bits. -/
inductive SharesPrefix (length : Nat) : IpAddress → IpAddress → Prop where
  | v4 {a b : BitVec 32} (h : SamePrefix length a b) : SharesPrefix length (.v4 a) (.v4 b)
  | v6 {a b : BitVec 128} (h : SamePrefix length a b) : SharesPrefix length (.v6 a) (.v6 b)

variable {address other : IpAddress} {length count : Nat}

theorem SharesPrefix.refl (length : Nat) (address : IpAddress) : SharesPrefix length address address := by
  cases address with
  | v4 bits => exact .v4 (.refl length bits)
  | v6 bits => exact .v6 (.refl length bits)

theorem SharesPrefix.le_of_forall (hcount : count ≤ other.width)
    (h : ∀ x, SharesPrefix length address x → SharesPrefix count other x) : count ≤ length := by
  have hown := h address (.refl length address)
  cases hown with
  | @v4 a b hown =>
    have hwidth : count ≤ 32 := hcount
    have hall : ∀ x, SamePrefix length b x → SamePrefix count a x := by
      intro x hx
      cases h _ (.v4 hx) with
      | v4 hx => exact hx
    exact SamePrefix.le_of_forall hwidth hall
  | @v6 a b hown =>
    have hwidth : count ≤ 128 := hcount
    have hall : ∀ x, SamePrefix length b x → SamePrefix count a x := by
      intro x hx
      cases h _ (.v6 hx) with
      | v6 hx => exact hx
    exact SamePrefix.le_of_forall hwidth hall

end Telemetry.Net
