import Telemetry.Proofs.Json.Documents

/-!
# Values that are read and values that are passed over

A value whose content is not wanted is passed over without being looked at: digits are not added up,
code units are not paired, and no range is checked. It still ends where it ends when it is read, so a
reader that takes a value leaves what is left when the value is passed over.
-/

namespace Telemetry.Json

open Telemetry.Number

/-! ### Numbers -/

namespace Numeral

variable {negative : Bool} {significand : Nat} {bytes rest : Bytes} {n : Numeral} {x : Binary64}

theorem skipDigits_takeSignificand (significand taken : Nat) (bytes : Bytes) :
    skipDigits (takeSignificand significand taken bytes).2.2 = skipDigits bytes := by
  induction bytes generalizing significand taken with
  | nil => rfl
  | cons b bytes ih =>
    rw [takeSignificand]
    split
    · rename_i hb
      have hdigit : isDigit b = true := (Bool.and_eq_true_iff.1 hb).1
      rw [ih, skipDigits, skipDigits, List.dropWhile_cons_of_pos hdigit]
    · rfl

theorem takeExponent_rest (acc : Nat) (bytes : Bytes) :
    (takeExponent acc bytes).2 = skipDigits bytes := by
  induction bytes generalizing acc with
  | nil => rfl
  | cons b bytes ih =>
    rw [takeExponent]
    split
    · rename_i hdigit
      have hskip : skipDigits (b :: bytes) = skipDigits bytes := List.dropWhile_cons_of_pos hdigit
      rw [hskip]
      split
      · exact ih _
      · rfl
    · rename_i hdigit
      rw [skipDigits, List.dropWhile_cons_of_neg hdigit]

theorem skipExponent_of_readExponent {start : Int}
    (h : readExponent negative significand start bytes = .ok (x, rest)) :
    skipExponent bytes = .ok rest := by
  rw [readExponent] at h
  dsimp only at h
  rw [skipExponent]
  cases hsign : dropSign bytes with
  | nil =>
    rw [hsign] at h
    cases h
  | cons b tail =>
    rw [hsign] at h
    dsimp only at h ⊢
    rw [takeExponent_rest] at h
    cases hdigit : isDigit b with
    | false =>
      rw [hdigit] at h
      cases h
    | true =>
      rw [hdigit] at h
      rw [if_pos rfl]
      split at h
      · cases h
      · split at h
        · obtain ⟨y, -, hy⟩ := map_ok h
          rw [(Prod.mk.inj hy).2]
        · split at h
          · cases h
          · cases h
            rfl

theorem skipScale_of_readScale {exponent : Int}
    (h : readScale negative significand exponent bytes = .ok (x, rest)) :
    skipScale bytes = .ok rest := by
  unfold readScale at h
  split at h
  · obtain ⟨y, -, hy⟩ := map_ok h
    rw [← (Prod.mk.inj hy).2]
    rfl
  · rw [skipScale]
    split at h
    · rename_i hletter
      rw [if_pos hletter]
      exact skipExponent_of_readExponent h
    · rename_i hletter
      obtain ⟨y, -, hy⟩ := map_ok h
      rw [if_neg hletter, (Prod.mk.inj hy).2]

/-- A fraction has a digit, whether the significand takes it or not. -/
theorem skipScale_of_readFraction {start : Int}
    (h : readFraction negative significand start bytes = .ok (x, rest)) :
    ∃ c more, bytes = c :: more ∧ isDigit c = true ∧ skipScale (skipDigits more) = .ok rest := by
  have hdigits := skipDigits_takeSignificand significand 0 bytes
  unfold readFraction at h
  cases bytes with
  | nil => cases h
  | cons c more =>
    cases hdigit : isDigit c with
    | false =>
      have htake : takeSignificand significand 0 (c :: more) = (significand, 0, c :: more) := by
        rw [takeSignificand, hdigit]
        rfl
      rw [htake] at h
      dsimp only at h
      rw [hdigit] at h
      cases h
    | true =>
      refine ⟨c, more, rfl, hdigit, ?_⟩
      have hmore : skipDigits (c :: more) = skipDigits more := List.dropWhile_cons_of_pos hdigit
      rw [hmore] at hdigits
      rw [← hdigits]
      generalize takeSignificand significand 0 (c :: more) = parts at h ⊢
      obtain ⟨digits, taken, left⟩ := parts
      dsimp only at h ⊢
      split at h
      · split at h
        · cases h
        · exact skipScale_of_readScale h
      · rename_i b tail
        cases hb : isDigit b with
        | true =>
          rw [hb, if_pos rfl] at h
          rw [skipDigits, List.dropWhile_cons_of_pos hb]
          exact skipScale_of_readScale h
        | false =>
          rw [hb, if_neg (by decide)] at h
          rw [skipDigits, List.dropWhile_cons_of_neg (by rw [hb]; decide)]
          split at h
          · cases h
          · exact skipScale_of_readScale h

theorem skipTail_point {c : UInt8} {more : Bytes} (hdigit : isDigit c = true) :
    skipTail (46 :: c :: more) = skipScale (skipDigits more) := by
  rw [skipTail, if_pos rfl, if_pos hdigit]

theorem skipTail_of_ne {b : UInt8} (hpoint : b ≠ 46) (rest : Bytes) :
    skipTail (b :: rest) = skipScale (b :: rest) := by
  unfold skipTail
  exact if_neg hpoint

theorem skipTail_of_readLong (h : readLong negative significand bytes = .ok (x, rest)) :
    skipTail (skipDigits bytes) = .ok rest := by
  unfold readLong at h
  dsimp only at h
  split at h
  · rename_i hnil
    rw [hnil]
    exact skipScale_of_readScale h
  · rename_i b tail hcons
    rw [hcons]
    split at h
    · rename_i hpoint
      obtain ⟨c, more, rfl, hdigit, hskip⟩ := skipScale_of_readFraction h
      rw [hpoint, skipTail_point hdigit, hskip]
    · rename_i hpoint
      rw [skipTail_of_ne hpoint]
      exact skipScale_of_readScale h

theorem skipTail_of_readTail (h : readTail negative significand bytes = .ok (n, rest)) :
    skipTail bytes = .ok rest := by
  unfold readTail at h
  split at h
  · cases h
    rfl
  · rename_i b tail
    split at h
    · rename_i hpoint
      obtain ⟨⟨y, after⟩, hfraction, hparts⟩ := map_ok h
      obtain ⟨c, more, rfl, hdigit, hskip⟩ := skipScale_of_readFraction hfraction
      rw [hpoint, skipTail_point hdigit, hskip, ← (Prod.mk.inj hparts).2]
    · rename_i hpoint
      rw [skipTail_of_ne hpoint, skipScale]
      split at h
      · rename_i hletter
        obtain ⟨⟨y, after⟩, hexponent, hparts⟩ := map_ok h
        rw [if_pos hletter, skipExponent_of_readExponent hexponent, ← (Prod.mk.inj hparts).2]
      · rename_i hletter
        rw [if_neg hletter]
        cases h
        rfl

theorem skip_of_read (h : read bytes = .ok (n, rest)) : skip bytes = .ok rest := by
  unfold read readUnsigned at h
  rw [skip]
  split at h
  · cases h
  · rename_i b tail hminus
    split at h
    · rename_i hzero
      rw [if_pos hzero]
      split at h
      · exact skipTail_of_readTail h
      · rename_i c more
        split at h
        · cases h
        · rename_i hdigit
          rw [if_neg hdigit]
          exact skipTail_of_readTail h
    · rename_i hzero
      rw [if_neg hzero]
      cases hdigit : isDigit b with
      | false =>
        rw [hdigit] at h
        cases h
      | true =>
        rw [hdigit] at h
        rw [if_pos rfl, ← skipDigits_takeSignificand (digit b) 1 tail]
        dsimp only [Bool.not_true] at h
        rw [if_neg (by decide)] at h
        generalize takeSignificand (digit b) 1 tail = parts at h ⊢
        obtain ⟨digits, taken, left⟩ := parts
        dsimp only at h ⊢
        split at h
        · exact skipTail_of_readTail h
        · rename_i c more
          split at h
          · obtain ⟨⟨y, after⟩, hlong, hparts⟩ := map_ok h
            rw [skipTail_of_readLong hlong, ← (Prod.mk.inj hparts).2]
          · rename_i hc
            rw [skipDigits, List.dropWhile_cons_of_neg hc]
            exact skipTail_of_readTail h

end Numeral

/-! ### Strings and words -/

section Strings

variable {bytes rest chunk acc content : Bytes} {s : String}

theorem skipString_escape (h : skipEscape bytes = .ok rest) :
    skipString (92 :: bytes) = skipString rest := by
  rw [skipString, if_neg (by decide), if_pos rfl]
  split
  · rename_i heq
    cases heq.symm.trans h
    rfl
  · rename_i heq
    cases heq.symm.trans h

theorem skipString_unit {n : Nat} (h : readUnit bytes = .ok (n, rest)) :
    skipString (92 :: 117 :: bytes) = skipString rest := by
  refine skipString_escape ?_
  rw [skipEscape, if_pos rfl, h]
  rfl

/-- The two halves of a pair are passed over one after the other. -/
theorem skipString_of_readEscapedPoint (h : readEscapedPoint bytes = .ok (chunk, rest)) :
    skipString (92 :: 117 :: bytes) = skipString rest := by
  unfold readEscapedPoint at h
  split at h
  · cases h
  · rename_i high after hunit
    rw [skipString_unit hunit]
    split at h
    · cases h
    · split at h
      · cases h
        rfl
      · split at h
        · cases h
        · rename_i b behind
          split at h
          · cases h
          · rename_i hb
            split at h
            · cases h
            · rename_i c low
              split at h
              · cases h
              · rename_i hc
                rw [not_not.1 hb, not_not.1 hc]
                unfold readLowUnit at h
                split at h
                · cases h
                · rename_i hlow
                  rw [skipString_unit hlow]
                  split at h
                  · rw [(Prod.mk.inj (Except.ok.inj h)).2]
                  · cases h

theorem skipString_of_readEscape (h : readEscape bytes = .ok (chunk, rest)) :
    skipString (92 :: bytes) = skipString rest := by
  unfold readEscape at h
  split at h
  · cases h
  · rename_i b tail
    split at h
    · rename_i hb
      rw [hb]
      exact skipString_of_readEscapedPoint h
    · rename_i hb
      split at h
      · rename_i c hsimple
        cases h
        refine skipString_escape ?_
        rw [skipEscape, if_neg hb, hsimple]
        rfl
      · cases h

theorem skipString_of_readStringBytes (h : readStringBytes acc bytes = .ok (content, rest)) :
    skipString bytes = .ok rest := by
  fun_induction readStringBytes acc bytes with
  | case1 => cases h
  | case2 =>
    cases h
    rw [skipString, if_pos rfl]
  | case3 acc tail chunk after hescape _ _ ih =>
    rw [skipString_of_readEscape hescape]
    exact ih h
  | case4 => cases h
  | case5 => cases h
  | case6 acc b tail hquote hslash hcontrol ih =>
    rw [skipString, if_neg hquote, if_neg hslash, if_neg hcontrol]
    exact ih h

/-- A string that is passed over ends where it ends when it is read. -/
theorem skipString_of_readString (h : readString bytes = .ok (s, rest)) :
    skipString bytes = .ok rest := by
  unfold readString at h
  split at h
  · cases h
  · rename_i content after hread
    split at h
    · cases h
      exact skipString_of_readStringBytes hread
    · cases h

theorem readWord_of_wordResult {α : Type} {a b : α} {word : Bytes}
    (h : wordResult a word bytes = .ok (b, rest)) : readWord word bytes = .ok rest := by
  unfold wordResult at h
  split at h
  · cases h
  · rename_i hword
    cases h
    exact hword

end Strings

/-! ### Readers -/

theorem skipValue_of_skipStart {bytes rest : Bytes}
    (h : skipStart (skipSpace bytes) = .ok (none, rest)) : skipValue bytes = .ok rest := by
  rw [skipValue, skipValues_eq h]
  rfl

theorem skipValue_of_skipSpace {bytes rest : Bytes} (h : skipValue (skipSpace bytes) = .ok rest) :
    skipValue bytes = .ok rest := by
  have hspace := skipSpace_skipSpace bytes
  cases hstart : skipStart (skipSpace bytes) with
  | error e =>
    rw [skipValue, skipValues] at h
    rw [← hspace] at hstart
    split at h
    · cases h
    · rename_i heq
      cases hstart.symm.trans heq
  | ok start =>
    rw [skipValue, skipValues_eq hstart]
    rw [← hspace] at hstart
    rwa [skipValue, skipValues_eq hstart] at h

namespace Reader

variable {α β : Type} {reader : Reader α}

/-- What the reader takes ends where the value ends when it is passed over. -/
def Skips (reader : Reader α) : Prop :=
  ∀ ⦃bytes rest : Bytes⦄ ⦃a : α⦄, reader.run bytes = .ok (a, rest) → skipValue bytes = .ok rest

theorem Skips.filterMap (h : reader.Skips) (f : α → Except Error β) :
    (reader.filterMap f).Skips := by
  intro bytes rest b hread
  dsimp only [Reader.filterMap] at hread
  split at hread
  · cases hread
  · rename_i hrun
    split at hread
    · cases hread
    · cases hread
      exact h hrun

theorem Skips.map (h : reader.Skips) (f : α → β) : (reader.map f).Skips := h.filterMap _

/-- It is enough to know the start of the value behind the blanks. -/
theorem skips_of_runFirst {read : UInt8 → Bytes → Result α}
    (hrun : ∀ bytes, reader.run bytes = runFirst read bytes)
    (h : ∀ {b : UInt8} {tail rest : Bytes} {a : α}, read b tail = .ok (a, rest) →
      skipStart (b :: tail) = .ok (none, rest)) : reader.Skips := by
  intro bytes rest a hread
  rw [hrun, runFirst] at hread
  refine skipValue_of_skipStart ?_
  split at hread
  · cases hread
  · rename_i b tail hspace
    rw [hspace]
    exact h hread

theorem skips_text (expected : String) : (text expected).Skips := by
  refine skips_of_runFirst (fun _ => rfl) fun {b tail rest s} h => ?_
  split at h
  · rename_i hquote
    subst hquote
    rw [skipStart, skipString_of_readString h]
    rfl
  · cases h

theorem skips_numeral (expected : String) : (numeral expected).Skips := by
  refine skips_of_runFirst (fun _ => rfl) fun {b tail rest n} h => ?_
  split at h
  · rename_i hb
    have hne : b ≠ 110 ∧ b ≠ 116 ∧ b ≠ 102 ∧ b ≠ 34 ∧ b ≠ 91 ∧ b ≠ 123 := by
      refine ⟨?_, ?_, ?_, ?_, ?_, ?_⟩ <;> (rintro rfl; revert hb; decide)
    obtain ⟨h1, h2, h3, h4, h5, h6⟩ := hne
    rw [skipStart_cons, if_neg h1, if_neg h2, if_neg h3, if_neg h4, if_neg h5, if_neg h6,
      if_pos hb, Numeral.skip_of_read (mapError_ok h)]
    rfl
  · cases h

theorem skips_uint64 (expected : String) : (uint64 expected).Skips :=
  ((skips_numeral expected).filterMap _).map _

theorem skips_boolean : boolean.Skips := by
  refine skips_of_runFirst (fun _ => rfl) fun {b tail rest a} h => ?_
  split at h
  · rename_i hb
    subst hb
    rw [skipStart, readWord_of_wordResult h]
    rfl
  · split at h
    · rename_i hb
      subst hb
      rw [skipStart, readWord_of_wordResult h]
      rfl
    · cases h

theorem Skips.optional (h : reader.Skips) : reader.optional.Skips := by
  intro bytes rest a hread
  change reader.runOptional bytes = _ at hread
  unfold runOptional at hread
  split at hread
  · exact absurd ((reader.map some).shrinks hread) (Nat.not_lt_zero _)
  · rename_i b tail hspace
    split at hread
    · rename_i hb
      subst hb
      refine skipValue_of_skipStart ?_
      rw [hspace, skipStart, readWord_of_wordResult hread]
      rfl
    · exact skipValue_of_skipSpace (hspace ▸ h.map some hread)

end Reader

end Telemetry.Json
