import Telemetry.Metric.Value
import Telemetry.Proofs.Number.Shortest

/-!
# Numbers read back

What the reader of numbers makes of a text that the writer of numbers made. The text of a magnitude
is a run of digits with a point or an exponent in it, and reading it gives a significand and an
exponent from which the number is assembled: the shortest decimal, or, where the writer pads an
integral value with zeros and a fraction, the same value with its last digit after the point.
-/

namespace Telemetry.Json.Numeral

open Telemetry.Number

/-- The bytes do not go on with a run of digits. -/
def EndsRun (rest : Bytes) : Prop := ∀ b ∈ rest.head?, isDigit b = false

/-- The bytes do not go on with a number. -/
def EndsNumber (rest : Bytes) : Prop :=
  ∀ b ∈ rest.head?, isDigit b = false ∧ b ≠ 46 ∧ b ≠ 101 ∧ b ≠ 69

theorem EndsNumber.endsRun {rest : Bytes} (h : EndsNumber rest) : EndsRun rest :=
  fun b hb => (h b hb).1

theorem digit_byte {c : Char} (h : c.isDigit = true) :
    isDigit c.toNat.toUInt8 = true ∧ digit c.toNat.toUInt8 = c.toNat - '0'.toNat := by
  have hrange : 48 ≤ c.toNat ∧ c.toNat ≤ 57 := by
    simpa [Char.isDigit, UInt32.le_iff_toNat_le] using h
  have hbyte : c.toNat.toUInt8.toNat = c.toNat := by
    rw [Nat.toUInt8, UInt8.toNat_ofNat']
    omega
  refine ⟨?_, by rw [digit, hbyte]; rfl⟩
  simp [isDigit, UInt8.le_iff_toNat_le, hbyte, hrange]

theorem le_ofDigitChars (cs : List Char) (init : Nat) : init ≤ Nat.ofDigitChars 10 cs init := by
  rw [Nat.ofDigitChars_eq_ofDigitChars_zero]
  have : init ≤ 10 ^ cs.length * init := Nat.le_mul_of_pos_left init (Nat.pow_pos (by decide))
  omega

theorem takeSignificand_digits {cs : List Char} (hdigits : ∀ c ∈ cs, c.isDigit = true)
    {significand : Nat} (taken : Nat) {rest : Bytes} (hrest : EndsRun rest)
    (hfits : Nat.ofDigitChars 10 cs significand ≤ significandMax) :
    takeSignificand significand taken (Bytes.ofAscii cs ++ rest)
      = (Nat.ofDigitChars 10 cs significand, taken + cs.length, rest) := by
  induction cs generalizing significand taken with
  | nil =>
    cases rest with
    | nil => rfl
    | cons b rest =>
      have hb : isDigit b = false := hrest b rfl
      simp [Bytes.ofAscii, takeSignificand, hb]
  | cons c cs ih =>
    obtain ⟨hbyte, hvalue⟩ := digit_byte (hdigits c List.mem_cons_self)
    rw [Nat.ofDigitChars_cons] at hfits ⊢
    have hfirst := (le_ofDigitChars cs _).trans hfits
    change takeSignificand significand taken (c.toNat.toUInt8 :: (Bytes.ofAscii cs ++ rest)) = _
    rw [takeSignificand, hbyte, hvalue, Bool.true_and, if_pos (decide_eq_true hfirst),
      ih (fun d hd => hdigits d (List.mem_cons_of_mem c hd)) _ hfits, List.length_cons,
      Nat.add_assoc, Nat.add_comm 1]

theorem takeExponent_digits {cs : List Char} (hdigits : ∀ c ∈ cs, c.isDigit = true) (acc : Nat)
    {rest : Bytes} (hrest : EndsRun rest) (hfits : Nat.ofDigitChars 10 cs acc ≤ exponentMax) :
    takeExponent acc (Bytes.ofAscii cs ++ rest) = (some (Nat.ofDigitChars 10 cs acc), rest) := by
  induction cs generalizing acc with
  | nil =>
    cases rest with
    | nil => rfl
    | cons b rest =>
      have hb : isDigit b = false := hrest b rfl
      simp [Bytes.ofAscii, takeExponent, hb]
  | cons c cs ih =>
    obtain ⟨hbyte, hvalue⟩ := digit_byte (hdigits c List.mem_cons_self)
    rw [Nat.ofDigitChars_cons] at hfits ⊢
    have hfirst := (le_ofDigitChars cs _).trans hfits
    change takeExponent acc (c.toNat.toUInt8 :: (Bytes.ofAscii cs ++ rest)) = _
    rw [takeExponent, hbyte, hvalue, if_pos rfl, if_pos hfirst,
      ih (fun d hd => hdigits d (List.mem_cons_of_mem c hd)) _ hfits]

theorem readScale_end {negative : Bool} {significand : Nat} {exponent : Int} {rest : Bytes}
    (hrest : EndsNumber rest) :
    readScale negative significand exponent rest
      = (assemble negative significand exponent).map fun x => (x, rest) := by
  cases rest with
  | nil => rfl
  | cons b rest =>
    obtain ⟨-, -, hlower, hupper⟩ := hrest b rfl
    simp [readScale, hlower, hupper]

theorem readFraction_digits {negative : Bool} {cs : List Char}
    (hdigits : ∀ c ∈ cs, c.isDigit = true) (hsome : cs ≠ []) {significand : Nat} {start : Int}
    {rest : Bytes} (hrest : EndsRun rest)
    (hfits : Nat.ofDigitChars 10 cs significand ≤ significandMax) :
    readFraction negative significand start (Bytes.ofAscii cs ++ rest)
      = readScale negative (Nat.ofDigitChars 10 cs significand) (start - cs.length) rest := by
  have hlength : cs.length ≠ 0 := fun h => hsome (List.eq_nil_of_length_eq_zero h)
  rw [readFraction, takeSignificand_digits hdigits 0 hrest hfits, Nat.zero_add]
  cases rest with
  | nil => simp [hlength]
  | cons b rest =>
    have hb : isDigit b = false := hrest b rfl
    simp [hb, hlength]

theorem readExponent_digits (negative down : Bool) (significand : Nat) (start : Int) {n : Nat}
    {rest : Bytes} (hrest : EndsRun rest) (hfits : n ≤ exponentMax) :
    readExponent negative significand start
        (Bytes.ofAscii ((if down then '-' else '+') :: Layout.digitsOf n) ++ rest)
      = (assemble negative significand (clampExponent (if down then start - n else start + n))).map
        fun x => (x, rest) := by
  have hdigits (c : Char) (hc : c ∈ Layout.digitsOf n) : c.isDigit = true :=
    Nat.isDigit_of_mem_toDigits (by decide) (by decide) hc
  have hvalue : Nat.ofDigitChars 10 (Layout.digitsOf n) 0 = n := Nat.ofDigitChars_ten_toDigits
  have hsome : Layout.digitsOf n ≠ [] := Nat.toDigits_ne_nil
  generalize Layout.digitsOf n = cs at *
  cases cs with
  | nil => exact absurd rfl hsome
  | cons c cs =>
    obtain ⟨hbyte, hdigit⟩ := digit_byte (hdigits c List.mem_cons_self)
    rw [Nat.ofDigitChars_cons, Nat.mul_zero, Nat.zero_add] at hvalue
    have htake := takeExponent_digits (fun d hd => hdigits d (List.mem_cons_of_mem c hd))
      (c.toNat - '0'.toNat) hrest (by omega)
    have hsign (sign : Char) (hs : sign = '-' ∨ sign = '+') :
        dropSign (Bytes.ofAscii (sign :: c :: cs) ++ rest)
          = c.toNat.toUInt8 :: (Bytes.ofAscii cs ++ rest) := by
      rcases hs with rfl | rfl <;> rfl
    unfold readExponent
    rw [hsign _ (by cases down <;> simp)]
    simp only [hbyte, Bool.not_true, Bool.false_eq_true, if_false, hdigit, htake, hvalue]
    cases down <;> rfl

theorem digitsOf_head {n : Nat} (hpos : n ≠ 0) : (Layout.digitsOf n).head? ≠ some '0' := by
  unfold Layout.digitsOf
  induction n using Nat.strongRecOn with
  | ind n ih =>
    rw [Nat.toDigits_eq_if (by decide)]
    split
    · have hdigit : ∀ n < 10, n ≠ 0 → [n.digitChar].head? ≠ some '0' := by decide
      exact hdigit n ‹_› hpos
    · rename_i hge
      have hrest := ih (n / 10) (by omega) (by omega)
      rwa [List.head?_append_of_ne_nil _ Nat.toDigits_ne_nil]

/-- A run of digits as the whole part of a number may have it. -/
def IsWhole (cs : List Char) : Prop :=
  cs = ['0'] ∨ cs ≠ [] ∧ cs.head? ≠ some '0' ∧ ∀ c ∈ cs, c.isDigit = true

theorem readUnsigned_whole {negative : Bool} {cs : List Char} (hwhole : IsWhole cs) {rest : Bytes}
    (hrest : EndsRun rest) (hfits : Nat.ofDigitChars 10 cs 0 ≤ significandMax) :
    readUnsigned negative (Bytes.ofAscii cs ++ rest)
      = readTail negative (Nat.ofDigitChars 10 cs 0) rest := by
  rcases hwhole with rfl | ⟨hsome, hhead, hdigits⟩
  · cases rest with
    | nil => rfl
    | cons b rest =>
      have hb : isDigit b = false := hrest b rfl
      change (if isDigit b = true then _ else _) = _
      rw [hb]
      rfl
  · cases cs with
    | nil => exact absurd rfl hsome
    | cons c cs =>
      obtain ⟨hbyte, hdigit⟩ := digit_byte (hdigits c List.mem_cons_self)
      have hnonzero : c.toNat.toUInt8 ≠ 48 := by
        intro hzero
        have hval : digit c.toNat.toUInt8 = 0 := by rw [hzero]; rfl
        have hrange := hdigits c List.mem_cons_self
        simp only [Char.isDigit, ge_iff_le, Bool.and_eq_true, decide_eq_true_eq,
          UInt32.le_iff_toNat_le] at hrange
        refine hhead (congrArg some (Char.toNat_inj.1 ?_))
        rw [hdigit] at hval
        exact Nat.le_antisymm (Nat.le_of_sub_eq_zero hval) hrange.1
      rw [Nat.ofDigitChars_cons, Nat.mul_zero, Nat.zero_add] at hfits ⊢
      have htake := takeSignificand_digits
        (fun d hd => hdigits d (List.mem_cons_of_mem c hd)) 1 hrest hfits
      change readUnsigned negative (c.toNat.toUInt8 :: (Bytes.ofAscii cs ++ rest)) = _
      unfold readUnsigned
      simp only [hnonzero, hbyte, Bool.not_true, Bool.false_eq_true, if_false, hdigit, htake]
      cases rest with
      | nil => rfl
      | cons b rest =>
        have hb : isDigit b = false := hrest b rfl
        simp [hb]

theorem read_signed (negative : Bool) {cs : List Char}
    (hdigit : ∃ c ∈ cs.head?, c.isDigit = true) (rest : Bytes) :
    read (Bytes.ofAscii ((if negative then ['-'] else []) ++ cs) ++ rest)
      = readUnsigned negative (Bytes.ofAscii cs ++ rest) := by
  cases negative with
  | true => rfl
  | false =>
    obtain ⟨c, hc, hdigit⟩ := hdigit
    cases cs with
    | nil => cases hc
    | cons d cs =>
      cases hc
      have hminus : c.toNat.toUInt8 ≠ 45 := by
        intro hbyte
        have hdigit := (digit_byte hdigit).1
        rw [hbyte] at hdigit
        cases hdigit
      change readUnsigned (decide (c.toNat.toUInt8 = 45)) (if c.toNat.toUInt8 = 45 then _ else _) = _
      rw [decide_eq_false hminus, if_neg hminus]
      rfl

theorem isDigit_zero : ∀ c ∈ ['0'], c.isDigit = true := List.forall_mem_singleton.2 rfl

theorem readUnsigned_positional (negative : Bool) {whole fraction : List Char}
    (hwhole : IsWhole whole) (hdigits : ∀ c ∈ fraction, c.isDigit = true) (hsome : fraction ≠ [])
    {rest : Bytes} (hrest : EndsNumber rest)
    (hfits : Nat.ofDigitChars 10 (whole ++ fraction) 0 ≤ significandMax) :
    readUnsigned negative (Bytes.ofAscii (whole ++ '.' :: fraction) ++ rest)
      = (assemble negative (Nat.ofDigitChars 10 (whole ++ fraction) 0) (-fraction.length)).map
        fun x => (.float x, rest) := by
  rw [Nat.ofDigitChars_append] at hfits ⊢
  have hbytes : Bytes.ofAscii (whole ++ '.' :: fraction) ++ rest
      = Bytes.ofAscii whole ++ (46 :: (Bytes.ofAscii fraction ++ rest)) := by
    simp [Bytes.ofAscii]
  have hpoint : EndsRun (46 :: (Bytes.ofAscii fraction ++ rest)) := by
    rintro b ⟨⟩
    rfl
  rw [hbytes, readUnsigned_whole hwhole hpoint ((le_ofDigitChars fraction _).trans hfits)]
  change (readFraction negative _ 0 (Bytes.ofAscii fraction ++ rest)).map _ = _
  rw [readFraction_digits hdigits hsome hrest.endsRun hfits, readScale_end hrest,
    Int.zero_sub]
  cases assemble negative _ _ <;> rfl

theorem readUnsigned_scientific (negative down : Bool) {whole fraction : List Char} {n : Nat}
    (hwhole : IsWhole whole) (hdigits : ∀ c ∈ fraction, c.isDigit = true) {rest : Bytes}
    (hrest : EndsRun rest) (hfits : Nat.ofDigitChars 10 (whole ++ fraction) 0 ≤ significandMax)
    (hexponent : n ≤ exponentMax) :
    readUnsigned negative (Bytes.ofAscii (whole ++ (if fraction.isEmpty then [] else '.' :: fraction)
        ++ 'e' :: (if down then '-' else '+') :: Layout.digitsOf n) ++ rest)
      = (assemble negative (Nat.ofDigitChars 10 (whole ++ fraction) 0)
          (clampExponent (if down then -fraction.length - n else -fraction.length + n))).map
        fun x => (.float x, rest) := by
  have htail (significand : Nat) (start : Int) :=
    readExponent_digits negative down significand start hrest hexponent
  have hletter (more : Bytes) : EndsRun (101 :: more) := by
    rintro b ⟨⟩
    rfl
  have hpoint (more : Bytes) : EndsRun (46 :: more) := by
    rintro b ⟨⟩
    rfl
  rw [Nat.ofDigitChars_append] at hfits ⊢
  have hwholefits := (le_ofDigitChars fraction _).trans hfits
  generalize (if down then '-' else '+') :: Layout.digitsOf n = text at *
  cases fraction with
  | nil =>
    have hbytes : Bytes.ofAscii (whole ++ [] ++ 'e' :: text) ++ rest
        = Bytes.ofAscii whole ++ (101 :: (Bytes.ofAscii text ++ rest)) := by
      simp [Bytes.ofAscii]
    rw [List.isEmpty_nil, if_pos rfl, hbytes, readUnsigned_whole hwhole (hletter _) hwholefits]
    change (readExponent negative _ 0 (Bytes.ofAscii text ++ rest)).map _ = _
    rw [htail, Nat.ofDigitChars_nil, List.length_nil, Int.natCast_zero, Int.neg_zero]
    cases assemble negative _ _ <;> rfl
  | cons c cs =>
    have hbytes : Bytes.ofAscii (whole ++ '.' :: c :: cs ++ 'e' :: text) ++ rest
        = Bytes.ofAscii whole ++ (46 :: (Bytes.ofAscii (c :: cs)
          ++ (101 :: (Bytes.ofAscii text ++ rest)))) := by
      simp [Bytes.ofAscii]
    rw [List.isEmpty_cons, if_neg (by decide), hbytes,
      readUnsigned_whole hwhole (hpoint _) hwholefits]
    change (readFraction negative _ 0 _).map _ = _
    rw [readFraction_digits hdigits (List.cons_ne_nil c cs) (hletter _) hfits, Int.zero_sub]
    change (readExponent negative _ _ (Bytes.ofAscii text ++ rest)).map _ = _
    rw [htail]
    cases assemble negative _ _ <;> rfl

theorem isDigit_digitsOf {n : Nat} {c : Char} (hc : c ∈ Layout.digitsOf n) : c.isDigit = true :=
  Nat.isDigit_of_mem_toDigits (by decide) (by decide) hc

theorem ofDigitChars_digitsOf (n : Nat) : Nat.ofDigitChars 10 (Layout.digitsOf n) 0 = n :=
  Nat.ofDigitChars_ten_toDigits

theorem digitsOf_ne_nil (n : Nat) : Layout.digitsOf n ≠ [] := Nat.toDigits_ne_nil

theorem lt_length_digitsOf (n : Nat) : n < 10 ^ (Layout.digitsOf n).length :=
  (Nat.length_toDigits_le_iff (by decide) Nat.length_toDigits_pos).1 (Nat.le_refl _)

/-- An integral value that is written without an exponent fits a word with its fraction. -/
theorem padded_le {n zeros : Nat} (h : (Layout.digitsOf n).length + zeros ≤ 16) :
    n * 10 ^ (zeros + 1) ≤ significandMax :=
  calc n * 10 ^ (zeros + 1)
      ≤ 10 ^ (Layout.digitsOf n).length * 10 ^ (zeros + 1) :=
        Nat.mul_le_mul_right _ (lt_length_digitsOf n).le
    _ = 10 ^ ((Layout.digitsOf n).length + (zeros + 1)) := (Nat.pow_add 10 _ _).symm
    _ ≤ 10 ^ 17 := Nat.pow_le_pow_right (by decide) (by omega)
    _ ≤ significandMax := by decide

section

variable {n : Nat} {exponent : Int} {negative : Bool} {rest : Bytes}

/-- An integral value is padded with zeros and a fraction. -/
theorem readUnsigned_integral (hn : n ≠ 0) (hpos : 0 ≤ exponent)
    (hpoint : (Layout.digitsOf n).length + exponent ≤ 16) (hrest : EndsNumber rest) :
    readUnsigned negative (Bytes.ofAscii (numberLayout.positionalText (Layout.digitsOf n)
        ((Layout.digitsOf n).length + exponent)) ++ rest)
      = (assemble negative (n * 10 ^ (exponent.toNat + 1)) (-1)).map fun x => (.float x, rest) := by
  obtain ⟨zeros, rfl⟩ := Int.eq_ofNat_of_zero_le hpos
  have hcount : ((Layout.digitsOf n).length + zeros : Int).toNat - (Layout.digitsOf n).length
      = zeros := by omega
  have htext : numberLayout.positionalText (Layout.digitsOf n) ((Layout.digitsOf n).length + zeros)
      = Layout.digitsOf n ++ List.replicate zeros '0' ++ '.' :: ['0'] := by
    rw [Layout.positionalText, if_pos (by omega), hcount]
    rfl
  have hvalue : Nat.ofDigitChars 10 (Layout.digitsOf n ++ List.replicate zeros '0' ++ ['0']) 0
      = n * 10 ^ (zeros + 1) := by
    rw [Nat.ofDigitChars_append, Nat.ofDigitChars_append, Nat.ofDigitChars_replicate_zero,
      ofDigitChars_digitsOf, Nat.pow_succ]
    change 10 * (10 ^ zeros * n) + 0 = _
    ring
  have hfits : n * 10 ^ (zeros + 1) ≤ significandMax := padded_le (by omega)
  have hwhole : IsWhole (Layout.digitsOf n ++ List.replicate zeros '0') := by
    refine .inr ⟨List.append_ne_nil_of_left_ne_nil (digitsOf_ne_nil n) _, ?_, ?_⟩
    · rw [List.head?_append_of_ne_nil _ (digitsOf_ne_nil n)]
      exact digitsOf_head hn
    · intro c hc
      rcases List.mem_append.1 hc with hc | hc
      · exact isDigit_digitsOf hc
      · rw [List.eq_of_mem_replicate hc]
        rfl
  rw [htext, readUnsigned_positional negative hwhole isDigit_zero (by decide) hrest
    (by rwa [hvalue]), hvalue]
  rfl

theorem isWhole_take (hn : n ≠ 0) {count : Nat} (hcount : count ≠ 0) :
    IsWhole ((Layout.digitsOf n).take count) := by
  refine .inr ⟨?_, ?_, fun c hc => isDigit_digitsOf (List.mem_of_mem_take hc)⟩
  · rw [Ne, List.take_eq_nil_iff]
    exact not_or.2 ⟨hcount, digitsOf_ne_nil n⟩
  · rw [List.head?_take, if_neg hcount]
    exact digitsOf_head hn

/-- A value that is not integral has its point among its digits or before them. -/
theorem readUnsigned_fractional (hn : n ≠ 0) (hneg : exponent < 0) (hfits : n ≤ significandMax)
    (hrest : EndsNumber rest) :
    readUnsigned negative (Bytes.ofAscii (numberLayout.positionalText (Layout.digitsOf n)
        ((Layout.digitsOf n).length + exponent)) ++ rest)
      = (assemble negative n exponent).map fun x => (.float x, rest) := by
  rw [Layout.positionalText, if_neg (by omega)]
  split
  · rename_i hinside
    obtain ⟨count, hcount⟩ := Int.eq_ofNat_of_zero_le hinside.le
    have hparts : Nat.ofDigitChars 10
        ((Layout.digitsOf n).take count ++ (Layout.digitsOf n).drop count) 0 = n := by
      rw [List.take_append_drop, ofDigitChars_digitsOf]
    have hdropped : (Layout.digitsOf n).drop count ≠ [] := by
      rw [Ne, List.drop_eq_nil_iff]
      omega
    have hlength : (((Layout.digitsOf n).drop count).length : Int) = -exponent := by
      rw [List.length_drop]
      omega
    rw [hcount, Int.toNat_natCast, readUnsigned_positional negative (isWhole_take hn (by omega))
      (fun c hc => isDigit_digitsOf (List.mem_of_mem_drop hc)) hdropped hrest (by rwa [hparts]),
      hparts, hlength, Int.neg_neg]
  · rename_i hbefore
    obtain ⟨zeros, hzeros⟩ := Int.eq_ofNat_of_zero_le
      (show 0 ≤ -((Layout.digitsOf n).length + exponent) by omega)
    have hparts : Nat.ofDigitChars 10
        (['0'] ++ (List.replicate zeros '0' ++ Layout.digitsOf n)) 0 = n := by
      rw [Nat.ofDigitChars_append, Nat.ofDigitChars_append, Nat.ofDigitChars_replicate_zero]
      exact ofDigitChars_digitsOf n
    have hlength : ((List.replicate zeros '0' ++ Layout.digitsOf n).length : Int) = -exponent := by
      rw [List.length_append, List.length_replicate]
      omega
    have hdigits (c : Char) (hc : c ∈ List.replicate zeros '0' ++ Layout.digitsOf n) :
        c.isDigit = true := by
      rcases List.mem_append.1 hc with hc | hc
      · rw [List.eq_of_mem_replicate hc]
        rfl
      · exact isDigit_digitsOf hc
    have hread := readUnsigned_positional negative (.inl rfl) hdigits
      (List.append_ne_nil_of_right_ne_nil _ (digitsOf_ne_nil n)) hrest (by rwa [hparts])
    rw [hzeros, Int.toNat_natCast]
    rw [hparts, hlength, Int.neg_neg] at hread
    exact hread

/-- A value with an exponent has its point after the first digit. -/
theorem readUnsigned_exponent (hn : n ≠ 0) (hfits : n ≤ significandMax) (hlow : -400 ≤ exponent)
    (hhigh : exponent ≤ 400) (hrest : EndsNumber rest) :
    readUnsigned negative (Bytes.ofAscii (Layout.scientificText (Layout.digitsOf n)
        ((Layout.digitsOf n).length + exponent)) ++ rest)
      = (assemble negative n exponent).map fun x => (.float x, rest) := by
  have hparts : Nat.ofDigitChars 10
      ((Layout.digitsOf n).take 1 ++ (Layout.digitsOf n).drop 1) 0 = n := by
    rw [List.take_append_drop, ofDigitChars_digitsOf]
  have hsome : 0 < (Layout.digitsOf n).length := List.length_pos_iff.2 (digitsOf_ne_nil n)
  have hshort : (Layout.digitsOf n).length ≤ 20 := by
    refine (Nat.length_toDigits_le_iff (by decide) (by decide)).2 (Nat.lt_of_le_of_lt hfits ?_)
    decide
  obtain ⟨shown, hshown⟩ : ∃ shown, (Layout.digitsOf n).length + exponent - 1 = shown := ⟨_, rfl⟩
  have hlarge : shown.natAbs ≤ exponentMax := by
    unfold exponentMax
    omega
  have hread := readUnsigned_scientific negative (decide (shown < 0))
    (isWhole_take hn Nat.one_ne_zero) (fun c hc => isDigit_digitsOf (List.mem_of_mem_drop hc))
    hrest.endsRun (by rwa [hparts]) hlarge
  have hscale : clampExponent (if decide (shown < 0) = true
      then -((Layout.digitsOf n).drop 1).length - shown.natAbs
      else -((Layout.digitsOf n).drop 1).length + shown.natAbs) = exponent := by
    rw [List.length_drop]
    unfold clampExponent
    simp only [decide_eq_true_eq]
    split <;> omega
  rw [hparts, hscale] at hread
  unfold Layout.scientificText
  rw [hshown]
  simpa only [decide_eq_true_eq] using hread

end

def written (m : Magnitude64) : Decimal :=
  if m.significand = 0 then ⟨0, -1⟩
  else if 0 ≤ (m.shortest .even).exponent ∧ ((Layout.digitsOf (m.shortest .even).digits).length : Int)
      + (m.shortest .even).exponent ≤ 16 then
    ⟨(m.shortest .even).digits * 10 ^ ((m.shortest .even).exponent.toNat + 1), -1⟩
  else m.shortest .even

theorem digits_shortest_fit (tie : Tie) (m : Magnitude64) :
    (m.shortest tie).digits ≤ significandMax := by
  by_cases hzero : m.significand = 0
  · rw [Magnitude64.shortest, if_pos hzero]
    exact Nat.zero_le _
  · have hdigits := Magnitude64.digits_shortest_le tie hzero
    have hsignificand := m.significand_lt
    unfold significandMax
    omega

/-- The reader takes from the text of a magnitude the significand and the exponent that the writer
put into it. -/
theorem readUnsigned_magnitudeText {negative : Bool} {m : Magnitude64} {rest : Bytes}
    (hrest : EndsNumber rest) :
    readUnsigned negative (Bytes.ofAscii (numberLayout.magnitudeText m) ++ rest)
      = (assemble negative (written m).digits (written m).exponent).map fun x => (.float x, rest) := by
  unfold Layout.magnitudeText written
  by_cases hzero : m.significand = 0
  · rw [if_pos hzero, if_pos hzero]
    have hwhole : IsWhole ['0'] := .inl rfl
    exact readUnsigned_positional negative hwhole isDigit_zero (by decide) hrest (by decide)
  have htie : numberLayout.tie = .even := rfl
  rw [if_neg hzero, if_neg hzero, htie]
  have hn := (Magnitude64.digits_shortest_pos .even hzero).ne'
  have hfits := digits_shortest_fit .even m
  have hfinest := (Magnitude64.shortest_spec .even hzero).2.1
  have hhighest := Magnitude64.exponent_shortest_lt .even hzero
  unfold Shortest.finest at hfinest
  unfold Shortest.highest at hhighest
  generalize m.shortest .even = decimal at *
  obtain ⟨n, exponent⟩ := decimal
  dsimp only [numberLayout] at *
  by_cases hpositional : -5 < (Layout.digitsOf n).length + exponent
      ∧ (Layout.digitsOf n).length + exponent ≤ 16
  · rw [if_pos (by simpa using hpositional)]
    by_cases hintegral : 0 ≤ exponent
    · rw [if_pos ⟨hintegral, hpositional.2⟩]
      exact readUnsigned_integral hn hintegral hpositional.2 hrest
    · rw [if_neg (fun h => hintegral h.1)]
      exact readUnsigned_fractional hn (Int.not_le.1 hintegral) hfits hrest
  · rw [if_neg (by simpa using hpositional), if_neg (by omega)]
    exact readUnsigned_exponent hn hfits (by omega) (by omega) hrest

theorem head_digits {cs : List Char} (hsome : cs ≠ []) (hdigits : ∀ c ∈ cs, c.isDigit = true) :
    ∃ c ∈ cs.head?, c.isDigit = true := by
  cases cs with
  | nil => exact absurd rfl hsome
  | cons c cs => exact ⟨c, rfl, hdigits c List.mem_cons_self⟩

/-- Besides the digits there are only zeros and a point. -/
theorem forall_positionalText {p : Char → Prop} (layout : Layout) {cs : List Char} (point : Int)
    (h : ∀ c ∈ cs, p c) (hzero : p '0') (hpoint : p '.') :
    ∀ c ∈ layout.positionalText cs point, p c := by
  have hzeros (n : Nat) : ∀ c ∈ List.replicate n '0', p c := fun c hc =>
    List.eq_of_mem_replicate hc ▸ hzero
  unfold Layout.positionalText
  split
  · simp only [List.forall_mem_append]
    refine ⟨⟨h, hzeros _⟩, ?_⟩
    split
    · exact List.forall_mem_cons.2 ⟨hpoint, List.forall_mem_singleton.2 hzero⟩
    · exact fun c hc => absurd hc List.not_mem_nil
  · split
    · simp only [List.forall_mem_append, List.forall_mem_cons]
      exact ⟨fun c hc => h c (List.mem_of_mem_take hc), hpoint,
        fun c hc => h c (List.mem_of_mem_drop hc)⟩
    · simp only [List.forall_mem_append, List.forall_mem_cons]
      exact ⟨hzero, hpoint, hzeros _, h⟩

theorem head_positionalText (layout : Layout) {cs : List Char} (point : Int)
    (hhead : ∃ c ∈ cs.head?, c.isDigit = true) :
    ∃ c ∈ (layout.positionalText cs point).head?, c.isDigit = true := by
  obtain ⟨c, hc, hdigit⟩ := hhead
  cases cs with
  | nil => cases hc
  | cons d cs =>
    cases hc
    unfold Layout.positionalText
    split
    · exact ⟨c, rfl, hdigit⟩
    · split
      · obtain ⟨count, hcount⟩ : ∃ count, point.toNat = count + 1 :=
          Nat.exists_eq_succ_of_ne_zero (by omega)
        rw [hcount]
        exact ⟨c, rfl, hdigit⟩
      · exact ⟨'0', rfl, rfl⟩

theorem head_magnitudeText (layout : Layout) (m : Magnitude64) :
    ∃ c ∈ (layout.magnitudeText m).head?, c.isDigit = true := by
  have hhead (n : Nat) := head_digits (digitsOf_ne_nil n) fun _ => isDigit_digitsOf
  unfold Layout.magnitudeText
  split
  · exact head_positionalText layout 1 ⟨'0', rfl, rfl⟩
  · dsimp only
    generalize (m.shortest layout.tie).digits = n
    split
    · exact head_positionalText layout _ (hhead n)
    · split
      · exact head_positionalText layout _ (hhead n)
      · obtain ⟨c, hc, hdigit⟩ := hhead n
        cases htext : Layout.digitsOf n with
        | nil => exact absurd htext (digitsOf_ne_nil n)
        | cons d cs =>
          rw [htext] at hc
          cases hc
          exact ⟨c, rfl, hdigit⟩

/-- The number that is read from the text of a number is assembled from what was written. -/
theorem read_floatText {negative : Bool} {m : Magnitude64} {rest : Bytes}
    (hrest : EndsNumber rest) :
    read (Bytes.ofAscii (floatText (.finite negative m)) ++ rest)
      = (assemble negative (written m).digits (written m).exponent).map fun x => (.float x, rest) := by
  rw [floatText, Layout.finiteText, read_signed negative (head_magnitudeText numberLayout m)]
  exact readUnsigned_magnitudeText hrest

theorem readTail_end {negative : Bool} {significand : Nat} {rest : Bytes}
    (hrest : EndsNumber rest) :
    readTail negative significand rest = .ok (ofSignificand negative significand, rest) := by
  cases rest with
  | nil => rfl
  | cons b rest =>
    obtain ⟨-, hpoint, hlower, hupper⟩ := hrest b rfl
    simp [readTail, hpoint, hlower, hupper]

theorem isWhole_digitsOf (n : Nat) : IsWhole (Layout.digitsOf n) := by
  by_cases hzero : n = 0
  · subst hzero
    exact .inl (Nat.toDigits_zero 10)
  · exact .inr ⟨digitsOf_ne_nil n, digitsOf_head hzero, fun _ => isDigit_digitsOf⟩

theorem read_integerText {n : Int} (hlow : -0x8000000000000000 ≤ n) (hhigh : n ≤ significandMax)
    {rest : Bytes} (hrest : EndsNumber rest) :
    read (Bytes.ofAscii (integerText n) ++ rest)
      = .ok (if n < 0 then .negative n else .natural n.toNat, rest) := by
  unfold significandMax at hhigh
  have hunsigned (negative : Bool) :
      readUnsigned negative (Bytes.ofAscii (Layout.digitsOf n.natAbs) ++ rest)
        = .ok (ofSignificand negative n.natAbs, rest) := by
    have hfits : n.natAbs ≤ significandMax := by
      unfold significandMax
      omega
    rw [readUnsigned_whole (isWhole_digitsOf n.natAbs) hrest.endsRun
      (by rwa [ofDigitChars_digitsOf]), ofDigitChars_digitsOf, readTail_end hrest]
  have hsigned (negative : Bool) := read_signed negative
    (head_digits (digitsOf_ne_nil n.natAbs) fun _ => isDigit_digitsOf) rest
  unfold integerText
  split
  · have hread := (hsigned true).trans (hunsigned true)
    have hsignificand : ofSignificand true n.natAbs = .negative n := by
      rw [ofSignificand, if_neg (by decide), if_neg (by simp; omega)]
      exact congrArg Numeral.negative (by omega)
    rw [hsignificand] at hread
    exact hread
  · have hread := (hsigned false).trans (hunsigned false)
    have hsignificand : ofSignificand false n.natAbs = .natural n.toNat := by
      rw [ofSignificand, if_pos (by decide)]
      exact congrArg Numeral.natural (by omega)
    rw [hsignificand] at hread
    exact hread

end Telemetry.Json.Numeral
