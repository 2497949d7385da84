import Telemetry.Number.Layout
import Telemetry.Bytes

/-!
# Numbers in documents

A number in a document is a natural number, a negative integer or a floating-point number. An
integer keeps its exact value while it fits 64 bits. A number with a fraction or an exponent, or an
integer that does not fit, is read in two steps: the digits that fit an unsigned 64-bit significand
are collected, and the significand is then scaled by one power of ten, each step rounding on its
own. The result may therefore differ in the last digit from the nearest floating-point number.
-/

namespace Telemetry.Json

open Telemetry.Number

/-- A number as a document gives it. -/
inductive Numeral where
  | natural (n : Nat)
  | negative (n : Int)
  | float (x : Binary64)
deriving DecidableEq, Repr

/-- Shortest digits with a fraction kept on integral values, and an exponent from seventeen digits
before the point or five zeros after it. -/
def numberLayout : Layout where
  tie := .even
  positional := some (-5, 16)
  integralFraction := true

/-- The text of a floating-point number; there is none for the special values, which become null. -/
def floatText : Binary64 → List Char
  | .finite negative m => numberLayout.finiteText negative m
  | _ => ['n', 'u', 'l', 'l']

inductive NumeralError where
  | ends
  | malformed
  | outOfRange
deriving DecidableEq, Repr

namespace Numeral

def isDigit (b : UInt8) : Bool := 48 ≤ b && b ≤ 57

def digit (b : UInt8) : Nat := b.toNat - 48

def skipDigits (bytes : Bytes) : Bytes := bytes.dropWhile isDigit

/-- The largest significand, and so the largest integer kept exact. -/
def significandMax : Nat := 0xffffffffffffffff

def exponentMax : Nat := 0x7fffffff

/-- Collects digits while the significand fits; gives it, the number of digits taken, and the rest. -/
def takeSignificand (significand taken : Nat) : Bytes → Nat × Nat × Bytes
  | [] => (significand, taken, [])
  | b :: rest =>
    if isDigit b && 10 * significand + digit b ≤ significandMax then
      takeSignificand (10 * significand + digit b) (taken + 1) rest
    else (significand, taken, b :: rest)

/-- The greatest power of ten that scales in one step. -/
def greatestPower : Nat := 308

/-- Scales by a power of ten, in steps of `10 ^ -308` as long as the exponent is below that. -/
def scale? : Nat → Magnitude64 → Int → Option Magnitude64
  | 0, _, _ => none
  | steps + 1, m, exponent =>
    if exponent.natAbs ≤ greatestPower then
      (Magnitude64.ofDecimal? 1 exponent.natAbs).bind fun power =>
        if 0 ≤ exponent then m.mul? power else m.div? power
    else if m.significand = 0 then some m
    else if 0 ≤ exponent then none
    else
      (Magnitude64.ofDecimal? 1 greatestPower).bind fun power =>
        (m.div? power).bind fun smaller => scale? steps smaller (exponent + greatestPower)

/-- The floating-point number `± significand * 10 ^ exponent`, each step rounded. Four steps bring
every significand down to zero. -/
def assemble (negative : Bool) (significand : Nat) (exponent : Int) : Except NumeralError Binary64 :=
  match (Magnitude64.ofNat? significand).bind fun m => scale? 8 m exponent with
  | some m => .ok (.finite negative m)
  | none => .error .outOfRange

def clampExponent (n : Int) : Int := max (-0x80000000) (min n 0x7fffffff)

/-- Collects the digits of an exponent onto `acc`; nothing when they leave 32 bits. -/
def takeExponent (acc : Nat) : Bytes → Option Nat × Bytes
  | [] => (some acc, [])
  | b :: rest =>
    if isDigit b then
      if 10 * acc + digit b ≤ exponentMax then takeExponent (10 * acc + digit b) rest
      else (none, skipDigits rest)
    else (some acc, b :: rest)

def dropSign : Bytes → Bytes
  | [] => []
  | b :: rest => if b = 43 || b = 45 then rest else b :: rest

def startsWithMinus : Bytes → Bool
  | [] => false
  | b :: _ => b = 45

/-- The exponent after its letter: an optional sign and at least one digit. -/
def readExponent (negative : Bool) (significand : Nat) (start : Int) (bytes : Bytes) :
    Except NumeralError (Binary64 × Bytes) :=
  let down := startsWithMinus bytes
  match dropSign bytes with
  | [] => .error .ends
  | b :: rest =>
    if !isDigit b then .error .malformed
    else
      let after := (takeExponent (digit b) rest).2
      match (takeExponent (digit b) rest).1 with
      | some e =>
        (assemble negative significand (clampExponent (if down then start - e else start + e))).map
          fun x => (x, after)
      | none =>
        if significand ≠ 0 && !down then .error .outOfRange
        else .ok (.finite negative Magnitude64.zero, after)

/-- What follows the digits: an exponent or nothing. -/
def readScale (negative : Bool) (significand : Nat) (exponent : Int) (bytes : Bytes) :
    Except NumeralError (Binary64 × Bytes) :=
  match bytes with
  | [] => (assemble negative significand exponent).map fun x => (x, [])
  | b :: rest =>
    if b = 101 || b = 69 then readExponent negative significand exponent rest
    else (assemble negative significand exponent).map fun x => (x, b :: rest)

/-- The fraction after its point. Digits beyond the significand are dropped. -/
def readFraction (negative : Bool) (significand : Nat) (start : Int) (bytes : Bytes) :
    Except NumeralError (Binary64 × Bytes) :=
  let (significand, taken, rest) := takeSignificand significand 0 bytes
  match rest with
  | [] => if taken = 0 then .error .ends else readScale negative significand (start - taken) []
  | b :: more =>
    if isDigit b then readScale negative significand (start - taken) (skipDigits more)
    else if taken = 0 then .error .malformed
    else readScale negative significand (start - taken) (b :: more)

/-- An integer whose digits leave the significand: each further digit raises the exponent. -/
def readLong (negative : Bool) (significand : Nat) (bytes : Bytes) :
    Except NumeralError (Binary64 × Bytes) :=
  let dropped := (bytes.takeWhile isDigit).length
  match skipDigits bytes with
  | [] => readScale negative significand dropped []
  | b :: rest =>
    if b = 46 then readFraction negative significand dropped rest
    else readScale negative significand dropped (b :: rest)

/-- An integer that fits the significand. A negative zero and an integer below the signed range are
floating-point numbers. -/
def ofSignificand (negative : Bool) (significand : Nat) : Numeral :=
  if !negative then .natural significand
  else if significand = 0 || 0x8000000000000000 < significand then
    .float (.signed true (Magnitude64.ofNat? significand))
  else .negative (-(significand : Int))

/-- What follows the digits of an integer that fits the significand. -/
def readTail (negative : Bool) (significand : Nat) (bytes : Bytes) :
    Except NumeralError (Numeral × Bytes) :=
  match bytes with
  | [] => .ok (ofSignificand negative significand, [])
  | b :: rest =>
    if b = 46 then (readFraction negative significand 0 rest).map fun (x, rest) => (.float x, rest)
    else if b = 101 || b = 69 then
      (readExponent negative significand 0 rest).map fun (x, rest) => (.float x, rest)
    else .ok (ofSignificand negative significand, b :: rest)

/-- A number without its minus sign. A leading zero stands alone. -/
def readUnsigned (negative : Bool) (bytes : Bytes) : Except NumeralError (Numeral × Bytes) :=
  match bytes with
  | [] => .error .ends
  | b :: rest =>
    if b = 48 then
      match rest with
      | [] => readTail negative 0 []
      | c :: more => if isDigit c then .error .malformed else readTail negative 0 (c :: more)
    else if !isDigit b then .error .malformed
    else
      let (significand, _, after) := takeSignificand (digit b) 1 rest
      match after with
      | [] => readTail negative significand []
      | c :: more =>
        if isDigit c then
          (readLong negative significand (c :: more)).map fun (x, rest) => (.float x, rest)
        else readTail negative significand (c :: more)

def dropMinus : Bytes → Bytes
  | [] => []
  | b :: rest => if b = 45 then rest else b :: rest

/-- A number whose first byte is a minus sign or a digit. -/
def read (bytes : Bytes) : Except NumeralError (Numeral × Bytes) :=
  readUnsigned (startsWithMinus bytes) (dropMinus bytes)

/-- The bytes after the exponent of a number whose value is not wanted. -/
def skipExponent (bytes : Bytes) : Except NumeralError Bytes :=
  match dropSign bytes with
  | b :: rest => if isDigit b then .ok (skipDigits rest) else .error .malformed
  | [] => .error .malformed

def skipScale (bytes : Bytes) : Except NumeralError Bytes :=
  match bytes with
  | [] => .ok []
  | b :: rest => if b = 101 || b = 69 then skipExponent rest else .ok (b :: rest)

def skipTail (bytes : Bytes) : Except NumeralError Bytes :=
  match bytes with
  | [] => .ok []
  | b :: rest =>
    if b = 46 then
      match rest with
      | [] => .error .malformed
      | c :: more => if isDigit c then skipScale (skipDigits more) else .error .malformed
    else skipScale (b :: rest)

/-- The bytes after a number whose value is not wanted; it may be of any size. -/
def skip (bytes : Bytes) : Except NumeralError Bytes :=
  match dropMinus bytes with
  | [] => .error .malformed
  | b :: rest =>
    if b = 48 then
      match rest with
      | [] => .ok []
      | c :: more => if isDigit c then .error .malformed else skipTail (c :: more)
    else if isDigit b then skipTail (skipDigits rest)
    else .error .malformed

theorem takeSignificand_length {significand taken : Nat} {bytes : Bytes} :
    (takeSignificand significand taken bytes).2.2.length ≤ bytes.length := by
  induction bytes generalizing significand taken with
  | nil => simp [takeSignificand]
  | cons b rest ih =>
    unfold takeSignificand
    split
    · exact Nat.le_trans ih (by simp)
    · simp

theorem skipDigits_length (bytes : Bytes) : (skipDigits bytes).length ≤ bytes.length :=
  (List.dropWhile_suffix _).length_le

theorem takeExponent_length {acc : Nat} {bytes : Bytes} :
    (takeExponent acc bytes).2.length ≤ bytes.length := by
  induction bytes generalizing acc with
  | nil => simp [takeExponent]
  | cons b rest ih =>
    unfold takeExponent
    split
    · split
      · exact Nat.le_trans ih (by simp)
      · exact Nat.le_trans (skipDigits_length rest) (by simp)
    · simp

theorem dropSign_length (bytes : Bytes) : (dropSign bytes).length ≤ bytes.length := by
  unfold dropSign
  split
  · simp
  · split <;> simp

theorem dropMinus_length (bytes : Bytes) : (dropMinus bytes).length ≤ bytes.length := by
  unfold dropMinus
  split
  · simp
  · split <;> simp

theorem skipExponent_length {bytes rest : Bytes} (h : skipExponent bytes = .ok rest) :
    rest.length ≤ bytes.length := by
  have sign := dropSign_length bytes
  unfold skipExponent at h
  split at h
  · rename_i b tail heq
    rw [heq, List.length_cons] at sign
    split at h
    · cases h
      have := skipDigits_length tail
      omega
    · simp at h
  · simp at h

theorem skipScale_length {bytes rest : Bytes} (h : skipScale bytes = .ok rest) :
    rest.length ≤ bytes.length := by
  unfold skipScale at h
  split at h
  · cases h; simp
  · split at h
    · have := skipExponent_length h
      simp only [List.length_cons]; omega
    · cases h; simp

theorem skipTail_length {bytes rest : Bytes} (h : skipTail bytes = .ok rest) :
    rest.length ≤ bytes.length := by
  unfold skipTail at h
  split at h
  · cases h; simp
  · split at h
    · split at h
      · simp at h
      · rename_i more
        split at h
        · have := skipScale_length h
          have := skipDigits_length more
          simp only [List.length_cons]; omega
        · simp at h
    · exact skipScale_length h

theorem skip_length {bytes rest : Bytes} (h : skip bytes = .ok rest) :
    rest.length < bytes.length := by
  have sign := dropMinus_length bytes
  unfold skip at h
  split at h
  · simp at h
  · rename_i b tail heq
    rw [heq, List.length_cons] at sign
    split at h
    · split at h
      · cases h; simp only [List.length_nil] at *; omega
      · split at h
        · simp at h
        · have := skipTail_length h
          simp only [List.length_cons] at *; omega
    · split at h
      · have := skipTail_length h
        have := skipDigits_length tail
        omega
      · simp at h

theorem map_ok {α β ε : Type} {f : α → β} {r : Except ε α} {b : β} (h : r.map f = .ok b) :
    ∃ a, r = .ok a ∧ f a = b := by
  cases r with
  | error e => simp [Except.map] at h
  | ok a => exact ⟨a, rfl, by simpa [Except.map] using h⟩

theorem readExponent_length {negative : Bool} {significand : Nat} {start : Int} {bytes rest : Bytes}
    {x : Binary64} (h : readExponent negative significand start bytes = .ok (x, rest)) :
    rest.length ≤ bytes.length := by
  have sign := dropSign_length bytes
  unfold readExponent at h
  simp only at h
  split at h
  · simp at h
  · rename_i b tail heq
    rw [heq, List.length_cons] at sign
    have := @takeExponent_length (digit b) tail
    split at h
    · simp at h
    · split at h
      · obtain ⟨a, -, ha⟩ := map_ok h
        simp only [Prod.mk.injEq] at ha
        rw [← ha.2]; omega
      · split at h
        · simp at h
        · simp only [Except.ok.injEq, Prod.mk.injEq] at h
          rw [← h.2]; omega

theorem readScale_length {negative : Bool} {significand : Nat} {exponent : Int} {bytes rest : Bytes}
    {x : Binary64} (h : readScale negative significand exponent bytes = .ok (x, rest)) :
    rest.length ≤ bytes.length := by
  unfold readScale at h
  split at h
  · obtain ⟨a, -, ha⟩ := map_ok h
    simp only [Prod.mk.injEq] at ha
    simp [← ha.2]
  · split at h
    · have := readExponent_length h
      simp only [List.length_cons]; omega
    · obtain ⟨a, -, ha⟩ := map_ok h
      simp only [Prod.mk.injEq] at ha
      simp [← ha.2]

theorem readFraction_length {negative : Bool} {significand : Nat} {start : Int}
    {bytes rest : Bytes} {x : Binary64}
    (h : readFraction negative significand start bytes = .ok (x, rest)) :
    rest.length ≤ bytes.length := by
  unfold readFraction at h
  have taken := @takeSignificand_length significand 0 bytes
  simp only at h
  generalize takeSignificand significand 0 bytes = parts at h taken
  obtain ⟨digits, count, tail⟩ := parts
  simp only at h taken
  split at h
  · split at h
    · simp at h
    · exact Nat.le_trans (readScale_length h) (by simp)
  · rename_i b more
    split at h
    · have := readScale_length h
      have := skipDigits_length more
      simp only [List.length_cons] at *; omega
    · split at h
      · simp at h
      · exact Nat.le_trans (readScale_length h) taken

theorem readLong_length {negative : Bool} {significand : Nat} {bytes rest : Bytes} {x : Binary64}
    (h : readLong negative significand bytes = .ok (x, rest)) : rest.length ≤ bytes.length := by
  have digits := skipDigits_length bytes
  unfold readLong at h
  simp only at h
  split at h
  · exact Nat.le_trans (readScale_length h) (by simp)
  · rename_i b tail heq
    rw [heq] at digits
    split at h
    · have := readFraction_length h
      simp only [List.length_cons] at *; omega
    · exact Nat.le_trans (readScale_length h) digits

theorem readTail_length {negative : Bool} {significand : Nat} {bytes rest : Bytes} {n : Numeral}
    (h : readTail negative significand bytes = .ok (n, rest)) : rest.length ≤ bytes.length := by
  unfold readTail at h
  split at h
  · simp only [Except.ok.injEq, Prod.mk.injEq] at h
    simp [← h.2]
  · split at h
    · obtain ⟨a, hr, ha⟩ := map_ok h
      have := readFraction_length hr
      simp only [Prod.mk.injEq] at ha
      simp only [← ha.2, List.length_cons]; omega
    · split at h
      · obtain ⟨a, hr, ha⟩ := map_ok h
        have := readExponent_length hr
        simp only [Prod.mk.injEq] at ha
        simp only [← ha.2, List.length_cons]; omega
      · simp only [Except.ok.injEq, Prod.mk.injEq] at h
        simp [← h.2]

theorem readUnsigned_length {negative : Bool} {bytes rest : Bytes} {n : Numeral}
    (h : readUnsigned negative bytes = .ok (n, rest)) : rest.length < bytes.length := by
  unfold readUnsigned at h
  split at h
  · simp at h
  · rename_i b tail
    split at h
    · split at h
      · have := readTail_length h
        simp only [List.length_cons] at *; omega
      · split at h
        · simp at h
        · have := readTail_length h
          simp only [List.length_cons] at *; omega
    · split at h
      · simp at h
      · have taken := @takeSignificand_length (digit b) 1 tail
        simp only at h
        generalize takeSignificand (digit b) 1 tail = parts at h taken
        obtain ⟨digits, count, after⟩ := parts
        simp only at h taken
        split at h
        · have := readTail_length h
          simp only [List.length_cons, List.length_nil] at *; omega
        · split at h
          · obtain ⟨a, hr, ha⟩ := map_ok h
            have := readLong_length hr
            simp only [Prod.mk.injEq] at ha
            simp only [← ha.2, List.length_cons] at *; omega
          · have := readTail_length h
            simp only [List.length_cons] at *; omega

theorem read_length {bytes rest : Bytes} {n : Numeral} (h : read bytes = .ok (n, rest)) :
    rest.length < bytes.length :=
  Nat.lt_of_lt_of_le (readUnsigned_length h) (dropMinus_length bytes)

end Numeral

end Telemetry.Json
