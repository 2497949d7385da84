import Mathlib.Data.List.Basic
import Mathlib.Data.List.Induction
import Mathlib.Data.List.TakeDrop
import Mathlib.Data.List.TakeWhile
import Telemetry.Net.Address

/-!
# Digits of an address

The bytes and groups of an address are runs of digits, read as far as the digits go. A number is read
back from the digits it is written with. Conversely the digits of a decimal number are known from the
number when they have no needless zeros; hexadecimal digits may have them and are of either case.
-/

namespace Telemetry.Net

open Telemetry.Number

/-- Every character is a digit of the base. -/
def AreDigits (base : Nat) (cs : List Char) : Prop := ∀ c ∈ cs, (digitOf? base c).isSome = true

/-- The text does not begin with a digit of the base. -/
def EndsDigits (base : Nat) (cs : List Char) : Prop := ∀ c ∈ cs.head?, digitOf? base c = none

variable {base : Nat} {cs digits rest : List Char}

theorem endsDigits_nil (base : Nat) : EndsDigits base [] := nofun

theorem endsDigits_cons {c : Char} (h : digitOf? base c = none) (cs : List Char) :
    EndsDigits base (c :: cs) := by
  rintro _ ⟨⟩
  exact h

/-! ### Runs of digits -/

theorem spanDigits_eq (base : Nat) (cs : List Char) : spanDigits base cs =
    (cs.takeWhile fun c => (digitOf? base c).isSome, cs.dropWhile fun c => (digitOf? base c).isSome) :=
  List.span_eq_takeWhile_dropWhile ..

theorem spanDigits_append (hdigits : AreDigits base digits) (hrest : EndsDigits base rest) :
    spanDigits base (digits ++ rest) = (digits, rest) := by
  rw [spanDigits_eq, List.takeWhile_append_of_pos hdigits, List.dropWhile_append_of_pos hdigits]
  cases rest with
  | nil => rw [List.takeWhile_nil, List.append_nil, List.dropWhile_nil]
  | cons c rest =>
    have hc : (digitOf? base c).isSome = false := by rw [hrest c rfl, Option.isSome_none]
    rw [List.takeWhile_cons, List.dropWhile_cons, hc]
    simp

theorem spanDigits_sound (h : spanDigits base cs = (digits, rest)) :
    cs = digits ++ rest ∧ AreDigits base digits ∧ EndsDigits base rest := by
  rw [spanDigits_eq, Prod.mk.injEq] at h
  obtain ⟨rfl, rfl⟩ := h
  refine ⟨List.takeWhile_append_dropWhile.symm, ?_, ?_⟩
  · exact fun c hc => List.mem_takeWhile_imp (p := fun c => (digitOf? base c).isSome) hc
  · intro c hc
    have hstop := List.head?_dropWhile_not (fun c => (digitOf? base c).isSome) cs
    rw [Option.mem_def.1 hc] at hstop
    simpa using hstop

/-! ### Digits and numbers -/

theorem digitOf?_digitChar {d : Nat} (hd : d < base) (hbase : base ≤ 16) :
    digitOf? base d.digitChar = some d := by
  have hvalue : ∀ d < 16, digitOf? 16 d.digitChar = some d := by decide
  have hsixteen := hvalue d (by omega)
  rw [digitOf?, Option.filter_eq_some_iff] at hsixteen ⊢
  exact ⟨hsixteen.1, decide_eq_true hd⟩

theorem digitOf?_lt {c : Char} {d : Nat} (h : digitOf? base c = some d) : d < base := by
  rw [digitOf?, Option.filter_eq_some_iff] at h
  exact of_decide_eq_true h.2

theorem digitOf?_of_le {most : Nat} (hle : base ≤ most) {c : Char} {d : Nat}
    (h : digitOf? base c = some d) : digitOf? most c = some d := by
  have hlt := digitOf?_lt h
  rw [digitOf?, Option.filter_eq_some_iff] at h ⊢
  exact ⟨h.1, decide_eq_true (hlt.trans_le hle)⟩

theorem AreDigits.mono {most : Nat} (h : AreDigits base cs) (hle : base ≤ most) :
    AreDigits most cs := by
  intro c hc
  obtain ⟨d, hd⟩ := Option.isSome_iff_exists.1 (h c hc)
  rw [digitOf?_of_le hle hd, Option.isSome_some]

theorem EndsDigits.mono {most : Nat} (h : EndsDigits most cs) (hle : base ≤ most) :
    EndsDigits base cs := by
  intro c hc
  cases hd : digitOf? base c with
  | none => rfl
  | some d => exact absurd ((h c hc).symm.trans (digitOf?_of_le hle hd)) nofun

theorem digitOf?_range {c : Char} (h : (digitOf? base c).isSome = true) :
    48 ≤ c.toNat ∧ c.toNat ≤ 122 := by
  obtain ⟨d, hd⟩ := Option.isSome_iff_exists.1 h
  rw [digitOf?, Option.filter_eq_some_iff] at hd
  obtain ⟨hvalue, -⟩ := hd
  split at hvalue
  · rename_i hdigit
    obtain ⟨hlow, hhigh⟩ := Char.isDigit_iff_toNat.1 hdigit
    exact ⟨hlow, hhigh.trans (by decide)⟩
  · split at hvalue
    · rename_i hletter
      simp only [Bool.and_eq_true, decide_eq_true_eq, Char.le_def, UInt32.le_iff_toNat_le] at hletter
      exact ⟨(show 48 ≤ 97 by decide).trans hletter.1, hletter.2⟩
    · split at hvalue
      · rename_i hletter
        simp only [Bool.and_eq_true, decide_eq_true_eq, Char.le_def, UInt32.le_iff_toNat_le] at hletter
        exact ⟨(show 48 ≤ 65 by decide).trans hletter.1, hletter.2.trans (by decide)⟩
      · cases hvalue

/-- Only one character is a given decimal digit. -/
theorem digitOf?_ten {c : Char} {d : Nat} (h : digitOf? 10 c = some d) : c = d.digitChar := by
  rw [digitOf?, Option.filter_eq_some_iff, decide_eq_true_eq] at h
  obtain ⟨hvalue, hlt⟩ := h
  split at hvalue
  · rename_i hdigit
    obtain rfl := Option.some.inj hvalue
    obtain ⟨hlow, -⟩ := Char.isDigit_iff_toNat.1 hdigit
    rw [← Char.toNat_inj, Nat.toNat_digitChar_of_lt_ten hlt]
    exact (Nat.add_sub_of_le hlow).symm
  · split at hvalue
    · obtain rfl := Option.some.inj hvalue
      omega
    · split at hvalue
      · obtain rfl := Option.some.inj hvalue
        omega
      · cases hvalue

theorem numberOf_singleton (base : Nat) (c : Char) :
    numberOf base [c] = (digitOf? base c).getD 0 := by
  rw [numberOf, List.foldl_cons, List.foldl_nil, Nat.zero_mul, Nat.zero_add]

theorem numberOf_append (base : Nat) (digits : List Char) (c : Char) :
    numberOf base (digits ++ [c]) = numberOf base digits * base + (digitOf? base c).getD 0 := by
  rw [numberOf, List.foldl_append]
  rfl

theorem areDigits_append {more : List Char} :
    AreDigits base (digits ++ more) ↔ AreDigits base digits ∧ AreDigits base more := List.forall_mem_append

theorem numberOf_toDigits (hbase : 1 < base) (hmost : base ≤ 16) (n : Nat) :
    AreDigits base (Nat.toDigits base n) ∧ numberOf base (Nat.toDigits base n) = n := by
  induction n using Nat.strongRecOn with
  | ind n ih =>
    rw [Nat.toDigits_eq_if hbase]
    have hlast : digitOf? base (n % base).digitChar = some (n % base) :=
      digitOf?_digitChar (Nat.mod_lt n (by omega)) hmost
    split
    · rw [Nat.mod_eq_of_lt ‹_›] at hlast
      refine ⟨List.forall_mem_singleton.2 ?_, ?_⟩
      · rw [hlast, Option.isSome_some]
      · rw [numberOf_singleton, hlast, Option.getD_some]
    · obtain ⟨hdigits, hvalue⟩ := ih (n / base) (Nat.div_lt_self (by omega) hbase)
      refine ⟨areDigits_append.2 ⟨hdigits, List.forall_mem_singleton.2 ?_⟩, ?_⟩
      · rw [hlast, Option.isSome_some]
      · rw [numberOf_append, hvalue, hlast, Option.getD_some, Nat.div_add_mod']

/-- Decimal digits without needless zeros are those of their number. -/
theorem digitsOf_numberOf (hdigits : AreDigits 10 digits) (hsome : digits ≠ [])
    (hhead : digits.length = 1 ∨ digits.head? ≠ some '0') :
    Layout.digitsOf (numberOf 10 digits) = digits := by
  induction digits using List.reverseRecOn with
  | nil => exact absurd rfl hsome
  | append_singleton front c ih =>
    obtain ⟨hfront, hlast⟩ := areDigits_append.1 hdigits
    obtain ⟨d, hd⟩ := Option.isSome_iff_exists.1 (hlast c (List.mem_singleton_self c))
    rw [Layout.digitsOf]
    by_cases hnil : front = []
    · rw [hnil, List.nil_append, numberOf_singleton, hd, Option.getD_some, digitOf?_ten hd]
      exact Nat.toDigits_of_lt_base (digitOf?_lt hd)
    · have hzero : front.head? ≠ some '0' := by
        obtain hlength | hhead := hhead
        · rw [List.length_append, List.length_singleton] at hlength
          exact absurd (List.length_eq_zero_iff.1 (by omega)) hnil
        · rwa [List.head?_append_of_ne_nil _ hnil] at hhead
      have hrest := ih hfront hnil (.inr hzero)
      have hpos : 0 < numberOf 10 front := by
        refine Nat.pos_of_ne_zero fun hnone => hzero ?_
        rw [← hrest, hnone]
        rfl
      rw [numberOf_append, hd, Option.getD_some, digitOf?_ten hd, Nat.mul_comm,
        ← Nat.toDigits_append_toDigits (by decide) hpos (digitOf?_lt hd),
        Nat.toDigits_of_lt_base (digitOf?_lt hd)]
      exact congrArg (· ++ _) hrest

end Telemetry.Net
