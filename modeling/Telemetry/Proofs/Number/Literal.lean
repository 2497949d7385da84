import Telemetry.Number.Literal
import Telemetry.Proofs.Json.Numeral

/-!
# Literals of natural numbers

The texts that the reader of natural numbers accepts: decimal digits, any number of them zeros in
front, and a plus sign before them or not. A number that is too large is found to be so at the digit
where it leaves the range, since further digits never make a number smaller.
-/

namespace Telemetry.Number.Literal

/-- The texts of a natural number. -/
inductive WritesNat : List Char → Nat → Prop where
  | plain {digits : List Char} (hsome : digits ≠ []) (hdigits : ∀ c ∈ digits, c.isDigit = true) :
    WritesNat digits (Nat.ofDigitChars 10 digits 0)
  | plus {digits : List Char} (hsome : digits ≠ []) (hdigits : ∀ c ∈ digits, c.isDigit = true) :
    WritesNat ('+' :: digits) (Nat.ofDigitChars 10 digits 0)

variable {most n : Nat} {cs : List Char}

theorem readDigits_eq_ok_iff {overflow : LiteralError} {acc : Nat} (hacc : acc ≤ most) :
    readDigits most overflow acc cs = .ok n ↔
      (∀ c ∈ cs, c.isDigit = true) ∧ Nat.ofDigitChars 10 cs acc = n ∧ n ≤ most := by
  induction cs generalizing acc with
  | nil =>
    rw [readDigits, Nat.ofDigitChars_nil, Except.ok.injEq]
    constructor
    · rintro rfl
      exact ⟨nofun, rfl, hacc⟩
    · exact fun h => h.2.1
  | cons c cs ih =>
    rw [readDigits, digitValue?, List.forall_mem_cons, Nat.ofDigitChars_cons]
    cases hdigit : c.isDigit with
    | false => simp
    | true =>
      simp only [if_true, true_and]
      split
      · rename_i hlarge
        constructor
        · nofun
        · rintro ⟨-, rfl, hle⟩
          have hgrows := Json.Numeral.le_ofDigitChars cs (10 * acc + (c.toNat - '0'.toNat))
          omega
      · exact ih (Nat.le_of_not_lt ‹_›)

theorem readNat_plain (hsome : cs ≠ []) (hsign : cs.head? ≠ some '+') :
    readNat most cs = readDigits most .tooLarge 0 cs := by
  rw [readNat.eq_def]
  split
  · exact absurd rfl hsome
  · exact absurd rfl hsign
  · exact absurd rfl hsign
  · rfl

theorem readNat_plus (hsome : cs ≠ []) :
    readNat most ('+' :: cs) = readDigits most .tooLarge 0 cs := by
  cases cs with
  | nil => exact absurd rfl hsome
  | cons c cs => rfl

theorem readNat_eq_ok_iff : readNat most cs = .ok n ↔ WritesNat cs n ∧ n ≤ most := by
  constructor
  · intro h
    by_cases hsign : cs.head? = some '+'
    · obtain ⟨digits, rfl⟩ := List.head?_eq_some_iff.1 hsign
      by_cases hsome : digits = []
      · subst hsome
        cases h
      · rw [readNat_plus hsome, readDigits_eq_ok_iff (Nat.zero_le most)] at h
        obtain ⟨hdigits, rfl, hle⟩ := h
        exact ⟨.plus hsome hdigits, hle⟩
    · by_cases hsome : cs = []
      · subst hsome
        cases h
      · rw [readNat_plain hsome hsign, readDigits_eq_ok_iff (Nat.zero_le most)] at h
        obtain ⟨hdigits, rfl, hle⟩ := h
        exact ⟨.plain hsome hdigits, hle⟩
  · rintro ⟨hwrites, hle⟩
    cases hwrites with
    | plain hsome hdigits =>
      have hsign : cs.head? ≠ some '+' := fun hhead =>
        absurd (hdigits '+' (List.mem_of_head? hhead)) (by decide)
      rw [readNat_plain hsome hsign, readDigits_eq_ok_iff (Nat.zero_le most)]
      exact ⟨hdigits, rfl, hle⟩
    | plus hsome hdigits =>
      rw [readNat_plus hsome, readDigits_eq_ok_iff (Nat.zero_le most)]
      exact ⟨hdigits, rfl, hle⟩

theorem WritesNat.unique {m : Nat} (h : WritesNat cs n) (h' : WritesNat cs m) : n = m := by
  have hn := readNat_eq_ok_iff.2 ⟨h, Nat.le_max_left n m⟩
  have hm := readNat_eq_ok_iff.2 ⟨h', Nat.le_max_right n m⟩
  exact Except.ok.inj (hn.symm.trans hm)

end Telemetry.Number.Literal
