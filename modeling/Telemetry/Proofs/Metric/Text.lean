import Telemetry.Proofs.Number.Literal

/-!
# Values read back from their text

A value is shown as an optional minus sign and digits, with a point among the digits of a gauge that is
not integral. The reader takes from such a text the digits and the number of those after the point, so
that it comes to a decimal equal to the shortest one, whose last zeros were written out. The shortest
decimal of a number lies in the interval of the number, and the reader rounds every decimal of that
interval to the number, however many digits the text has.
-/

namespace Telemetry.Number

open Json.Numeral (isDigit_digitsOf ofDigitChars_digitsOf digitsOf_ne_nil head_digits
  head_magnitudeText)

namespace Literal

/-! ### Integers -/

theorem readInt_digits {most : Nat} {cs : List Char} (hsome : cs ≠ [])
    (hdigits : ∀ c ∈ cs, c.isDigit = true) :
    readInt most cs = (readDigits most .tooLarge 0 cs).map fun n => (n : Int) := by
  have hsign (c : Char) (hc : c.isDigit = false) : cs.head? ≠ some c := fun hhead => by
    rw [hdigits c (List.mem_of_head? hhead)] at hc
    cases hc
  have hplus := hsign '+' rfl
  have hminus := hsign '-' rfl
  rw [readInt.eq_def]
  split <;> first | rfl | exact absurd rfl hsome | exact absurd rfl hplus | exact absurd rfl hminus

theorem readInt_minus {most : Nat} {cs : List Char} (hsome : cs ≠ []) :
    readInt most ('-' :: cs) = (readDigits (most + 1) .tooSmall 0 cs).map fun n => -(n : Int) := by
  cases cs with
  | nil => exact absurd rfl hsome
  | cons c cs => rfl

theorem readDigits_digitsOf {most n : Nat} (overflow : LiteralError) (hle : n ≤ most) :
    readDigits most overflow 0 (Layout.digitsOf n) = .ok n :=
  (readDigits_eq_ok_iff (Nat.zero_le most)).2
    ⟨fun _ => isDigit_digitsOf, ofDigitChars_digitsOf n, hle⟩

theorem readInt_integerText {most : Nat} {n : Int} (hlow : -(most + 1 : Nat) ≤ n) (hhigh : n ≤ most) :
    readInt most (integerText n) = .ok n := by
  unfold integerText
  split
  · rw [readInt_minus (digitsOf_ne_nil _), readDigits_digitsOf _ (by omega)]
    exact congrArg Except.ok (show -(n.natAbs : Int) = n by omega)
  · rw [readInt_digits (digitsOf_ne_nil _) fun _ => isDigit_digitsOf,
      readDigits_digitsOf _ (by omega)]
    exact congrArg Except.ok (show (n.natAbs : Int) = n by omega)

/-! ### Decimals -/

theorem takeWhile_digits {cs : List Char} (rest : List Char)
    (hdigits : ∀ c ∈ cs, c.isDigit = true) (hrest : ∀ c ∈ rest.head?, c.isDigit = false) :
    (cs ++ rest).takeWhile Char.isDigit = cs ∧ (cs ++ rest).dropWhile Char.isDigit = rest := by
  rw [List.takeWhile_append_of_pos hdigits, List.dropWhile_append_of_pos hdigits]
  cases rest with
  | nil => exact ⟨List.append_nil cs, rfl⟩
  | cons c rest =>
    have hc : c.isDigit = false := hrest c rfl
    rw [List.takeWhile_cons_of_neg (by simp [hc]), List.dropWhile_cons_of_neg (by simp [hc])]
    exact ⟨List.append_nil cs, rfl⟩

theorem decimal?_whole {whole : List Char} (hsome : whole ≠ [])
    (hdigits : ∀ c ∈ whole, c.isDigit = true) :
    decimal? whole = some (Nat.ofDigitChars 10 whole 0, 0) := by
  obtain ⟨htake, hdrop⟩ := takeWhile_digits [] hdigits nofun
  rw [List.append_nil] at htake hdrop
  simp only [decimal?, htake, hdrop, List.isEmpty_eq_false_iff.2 hsome, List.append_nil]
  rfl

theorem decimal?_point {whole fraction : List Char} (hsome : fraction ≠ [])
    (hwhole : ∀ c ∈ whole, c.isDigit = true) (hfraction : ∀ c ∈ fraction, c.isDigit = true) :
    decimal? (whole ++ '.' :: fraction)
      = some (Nat.ofDigitChars 10 (whole ++ fraction) 0, -(fraction.length : Int)) := by
  obtain ⟨htake, hdrop⟩ := takeWhile_digits ('.' :: fraction) hwhole
    fun c hc => by cases hc; rfl
  obtain ⟨htake', hdrop'⟩ := takeWhile_digits [] hfraction nofun
  rw [List.append_nil] at htake' hdrop'
  simp only [decimal?, htake, hdrop, htake', hdrop', List.isEmpty_eq_false_iff.2 hsome,
    Bool.and_false, exponentPart?, Option.map_some, Int.zero_sub]
  rfl

end Literal

/-! ### The shortest decimal without an exponent -/

/-- The decimal as it is written without an exponent: its last zeros are written out. -/
def Decimal.positional (decimal : Decimal) : Decimal :=
  if 0 ≤ decimal.exponent then ⟨decimal.digits * 10 ^ decimal.exponent.toNat, 0⟩ else decimal

theorem Decimal.units_positional (decimal : Decimal) : decimal.positional.units = decimal.units := by
  unfold positional
  split
  · rename_i hpos
    obtain ⟨digits, exponent⟩ := decimal
    obtain ⟨zeros, rfl⟩ := Int.eq_ofNat_of_zero_le hpos
    unfold units
    generalize Magnitude64.unitsPerOne = one
    rw [Int.toNat_natCast, zpow_natCast, zpow_zero]
    push_cast
    ring
  · rfl

theorem isDigit_replicate {zeros : Nat} {c : Char} (hc : c ∈ List.replicate zeros '0') :
    c.isDigit = true := by
  rw [List.eq_of_mem_replicate hc]
  rfl

theorem Literal.decimal?_positionalText {layout : Layout} (hlayout : layout.integralFraction = false)
    (decimal : Decimal) :
    decimal? (layout.positionalText (Layout.digitsOf decimal.digits)
        ((Layout.digitsOf decimal.digits).length + decimal.exponent))
      = some (decimal.positional.digits, decimal.positional.exponent) := by
  obtain ⟨n, exponent⟩ := decimal
  unfold Layout.positionalText Decimal.positional
  dsimp only
  split
  · -- An integral value.
    rename_i hwhole
    obtain ⟨zeros, rfl⟩ := Int.eq_ofNat_of_zero_le (show 0 ≤ exponent by omega)
    have hcount : ((Layout.digitsOf n).length + zeros : Int).toNat - (Layout.digitsOf n).length
        = zeros := by omega
    have hvalue : Nat.ofDigitChars 10 (Layout.digitsOf n ++ List.replicate zeros '0') 0
        = n * 10 ^ zeros := by
      rw [Nat.ofDigitChars_append, Nat.ofDigitChars_replicate_zero, ofDigitChars_digitsOf,
        Nat.mul_comm]
    rw [if_pos (Int.natCast_nonneg zeros), Int.toNat_natCast, hcount, hlayout,
      if_neg Bool.false_ne_true, List.append_nil,
      decimal?_whole (List.append_ne_nil_of_left_ne_nil (digitsOf_ne_nil n) _), hvalue]
    intro c hc
    exact (List.mem_append.1 hc).elim isDigit_digitsOf isDigit_replicate
  · rename_i hfraction
    rw [if_neg (show ¬0 ≤ exponent by omega)]
    split
    · -- The point stands among the digits.
      rename_i hinside
      obtain ⟨count, hcount⟩ := Int.eq_ofNat_of_zero_le hinside.le
      have hdropped : (Layout.digitsOf n).drop count ≠ [] := by
        rw [Ne, List.drop_eq_nil_iff]
        omega
      have hlength : (((Layout.digitsOf n).drop count).length : Int) = -exponent := by
        rw [List.length_drop]
        omega
      rw [hcount, Int.toNat_natCast, decimal?_point hdropped
        (fun c hc => isDigit_digitsOf (List.mem_of_mem_take hc))
        (fun c hc => isDigit_digitsOf (List.mem_of_mem_drop hc)),
        List.take_append_drop, ofDigitChars_digitsOf, hlength, Int.neg_neg]
    · -- The point stands before them.
      obtain ⟨zeros, hzeros⟩ := Int.eq_ofNat_of_zero_le
        (show 0 ≤ -((Layout.digitsOf n).length + exponent) by omega)
      have hvalue : Nat.ofDigitChars 10
          (['0'] ++ (List.replicate zeros '0' ++ Layout.digitsOf n)) 0 = n := by
        rw [Nat.ofDigitChars_append, Nat.ofDigitChars_append, Nat.ofDigitChars_replicate_zero]
        exact ofDigitChars_digitsOf n
      have hlength : ((List.replicate zeros '0' ++ Layout.digitsOf n).length : Int) = -exponent := by
        rw [List.length_append, List.length_replicate]
        omega
      have hread := decimal?_point
        (List.append_ne_nil_of_right_ne_nil (List.replicate zeros '0') (digitsOf_ne_nil n))
        Json.Numeral.isDigit_zero
        fun c hc => (List.mem_append.1 hc).elim isDigit_replicate isDigit_digitsOf
      rw [hvalue, hlength, Int.neg_neg] at hread
      rw [hzeros, Int.toNat_natCast]
      exact hread

/-- The decimal that is read from the text of a magnitude is rounded to the magnitude. -/
theorem Magnitude64.ofDecimal?_positional (tie : Tie) (m : Magnitude64) :
    ofDecimal? (m.shortest tie).positional.digits (m.shortest tie).positional.exponent = some m := by
  have hself := ofDecimal?_shortest tie m
  by_cases hzero : m.significand = 0
  · rw [shortest, if_pos hzero] at hself ⊢
    exact hself
  · have hfinest := (shortest_spec tie hzero).2.1
    have hhighest := exponent_shortest_lt tie hzero
    unfold Shortest.finest at hfinest
    unfold Shortest.highest at hhighest
    have hbounds : -400 ≤ (m.shortest tie).positional.exponent
        ∧ (m.shortest tie).positional.exponent ≤ 400 := by
      unfold Decimal.positional
      split
      · dsimp only
        omega
      · omega
    rw [ofDecimal?_eq_some_iff (by omega) (by omega)] at hself
    rw [ofDecimal?_eq_some_iff hbounds.2 hbounds.1]
    exact (Decimal.units_positional (m.shortest tie)).symm ▸ hself

/-- Without bounds on positional notation, a magnitude is written as its shortest decimal without an
exponent, and zero is no exception. -/
theorem Layout.magnitudeText_eq {layout : Layout} (hlayout : layout.positional = none)
    (m : Magnitude64) :
    layout.magnitudeText m = layout.positionalText (digitsOf (m.shortest layout.tie).digits)
      ((digitsOf (m.shortest layout.tie).digits).length + (m.shortest layout.tie).exponent) := by
  unfold magnitudeText
  split
  · rename_i hzero
    have hdigits : digitsOf 0 = ['0'] := Nat.toDigits_zero 10
    rw [Magnitude64.shortest, if_pos hzero, hdigits]
    rfl
  · rw [hlayout]

/-- The sign is read apart from the decimal. -/
theorem Literal.readFloatWith_signed (round : Bool → Nat → Int → Binary64) (negative : Bool)
    {cs : List Char} (hhead : ∃ c ∈ cs.head?, c.isDigit = true) {digits : Nat} {exponent : Int}
    (hdecimal : decimal? cs = some (digits, exponent)) :
    readFloatWith round ((if negative then ['-'] else []) ++ cs)
      = .ok (round negative digits exponent) := by
  cases negative with
  | true => simp [readFloatWith, hdecimal]
  | false =>
    obtain ⟨c, hc, hdigit⟩ := hhead
    cases cs with
    | nil => cases hc
    | cons d cs =>
      cases hc
      have hminus : c ≠ '-' := by rintro rfl; cases hdigit
      have hplus : c ≠ '+' := by rintro rfl; cases hdigit
      simp [readFloatWith, hminus, hplus, hdecimal]

theorem Literal.readFloat_finiteText {layout : Layout} (hpositional : layout.positional = none)
    (hfraction : layout.integralFraction = false) (negative : Bool) (m : Magnitude64) :
    readFloat (layout.finiteText negative m) = .ok (.finite negative m) := by
  have hdecimal : decimal? (layout.magnitudeText m) = some ((m.shortest layout.tie).positional.digits,
      (m.shortest layout.tie).positional.exponent) := by
    rw [Layout.magnitudeText_eq hpositional, decimal?_positionalText hfraction]
  rw [readFloat, Layout.finiteText, readFloatWith_signed Binary64.ofDecimal negative
    (head_magnitudeText layout m) hdecimal, Binary64.ofDecimal, Magnitude64.ofDecimal?_positional]
  rfl

end Telemetry.Number

namespace Telemetry

open Number

theorem readFloat_gaugeText {x : Binary64} (hfinite : x.isFinite = true) :
    Literal.readFloat (gaugeText x) = .ok x := by
  cases x with
  | nan => cases hfinite
  | infinite negative => cases hfinite
  | finite negative m => exact Literal.readFloat_finiteText rfl rfl negative m

/-- A finite value is read back from its text, a gauge with every bit. -/
theorem Value.read_text {value : Value} (hfinite : value.isFinite = true) :
    Value.read value.kind value.text = .ok value := by
  cases value with
  | gauge x =>
    have hread := readFloat_gaugeText hfinite
    have hgauge : finiteGauge x = .ok x := if_pos hfinite
    simp only [Value.read, kind, text, String.toList_ofList, hread, hgauge]
    rfl
  | counter n =>
    have hlow := n.le_toInt
    have hhigh := n.toInt_lt
    have hread : Literal.readInt int64Max (integerText n.toInt) = .ok n.toInt :=
      Literal.readInt_integerText (by unfold int64Max; omega) (by unfold int64Max; omega)
    simp only [Value.read, kind, text, String.toList_ofList, hread, Int64.ofInt_toInt]

end Telemetry
