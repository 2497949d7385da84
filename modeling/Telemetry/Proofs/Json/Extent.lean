import Telemetry.Json.Reader

/-!
# Reading on

What is read from the front of some bytes is read in the same way when more bytes follow, and these
bytes are then left too. A word and a string end by themselves. A number ends where a byte stands that
cannot belong to it, so that this holds of a number only if something is left behind it: at the end of
the bytes, further digits would have made another number.
-/

namespace Telemetry.Json

variable {bytes rest : Bytes}

theorem dropWhile_append_of_ne_nil {p : UInt8 → Bool} (h : bytes.dropWhile p ≠ []) (more : Bytes) :
    (bytes ++ more).dropWhile p = bytes.dropWhile p ++ more := by
  rw [List.dropWhile_append, if_neg (by simpa using h)]

theorem takeWhile_append_of_ne_nil {p : UInt8 → Bool} (h : bytes.dropWhile p ≠ []) (more : Bytes) :
    (bytes ++ more).takeWhile p = bytes.takeWhile p := by
  induction bytes with
  | nil => exact absurd rfl h
  | cons b bytes ih =>
    rw [List.cons_append, List.takeWhile_cons, List.takeWhile_cons]
    rw [List.dropWhile_cons] at h
    split
    · rw [if_pos ‹_›] at h
      rw [ih h]
    · rfl

theorem skipSpace_append {b : UInt8} (h : skipSpace bytes = b :: rest) (more : Bytes) :
    skipSpace (bytes ++ more) = b :: (rest ++ more) := by
  have hsome : skipSpace bytes ≠ [] := h ▸ List.cons_ne_nil b rest
  exact (dropWhile_append_of_ne_nil hsome more).trans (congrArg (· ++ more) h)

/-! ### Words and strings -/

theorem readWord_append {word : Bytes} (h : readWord word bytes = .ok rest) (more : Bytes) :
    readWord word (bytes ++ more) = .ok (rest ++ more) := by
  induction word generalizing bytes with
  | nil =>
    cases h
    rfl
  | cons expected word ih =>
    cases bytes with
    | nil => cases h
    | cons b bytes =>
      rw [readWord] at h
      rw [List.cons_append, readWord]
      split at h
      · rw [if_pos ‹_›]
        exact ih h
      · cases h

theorem readUnit_append {n : Nat} (h : readUnit bytes = .ok (n, rest)) (more : Bytes) :
    readUnit (bytes ++ more) = .ok (n, rest ++ more) := by
  unfold readUnit at h
  split at h
  · rename_i a b c d tail
    change readUnit (a :: b :: c :: d :: (tail ++ more)) = _
    split at h
    · rename_i w x y z ha hb hc hd
      have hparts := Prod.mk.inj (Except.ok.inj h)
      unfold readUnit
      simp only [ha, hb, hc, hd, hparts.1, hparts.2]
    · cases h
  · cases h

theorem readLowUnit_append {high : Nat} {chunk : Bytes} (h : readLowUnit high bytes = .ok (chunk, rest))
    (more : Bytes) : readLowUnit high (bytes ++ more) = .ok (chunk, rest ++ more) := by
  unfold readLowUnit at h ⊢
  split at h
  · cases h
  · rename_i low after hunit
    rw [readUnit_append hunit]
    dsimp only
    split at h
    · obtain ⟨rfl, rfl⟩ := Prod.mk.inj (Except.ok.inj h)
      rw [if_pos ‹_›]
    · cases h

theorem readEscapedPoint_append {chunk : Bytes} (h : readEscapedPoint bytes = .ok (chunk, rest))
    (more : Bytes) : readEscapedPoint (bytes ++ more) = .ok (chunk, rest ++ more) := by
  unfold readEscapedPoint at h ⊢
  split at h
  · cases h
  · rename_i high after hunit
    rw [readUnit_append hunit]
    dsimp only
    split at h
    · cases h
    · rw [if_neg ‹_›]
      split at h
      · cases h
        rw [if_pos ‹_›]
      · rw [if_neg ‹_›]
        split at h
        · cases h
        · rw [List.cons_append]
          dsimp only
          split at h
          · cases h
          · rw [if_neg ‹_›]
            split at h
            · cases h
            · rw [List.cons_append]
              dsimp only
              split at h
              · cases h
              · rw [if_neg ‹_›]
                exact readLowUnit_append h more

theorem readEscape_append {chunk : Bytes} (h : readEscape bytes = .ok (chunk, rest)) (more : Bytes) :
    readEscape (bytes ++ more) = .ok (chunk, rest ++ more) := by
  unfold readEscape at h
  split at h
  · cases h
  · rw [List.cons_append, readEscape]
    split at h
    · rw [if_pos ‹_›]
      exact readEscapedPoint_append h more
    · rw [if_neg ‹_›]
      split at h
      · cases h
        simp only [*]
      · cases h

theorem readStringBytes_append {acc content : Bytes}
    (h : readStringBytes acc bytes = .ok (content, rest)) (more : Bytes) :
    readStringBytes acc (bytes ++ more) = .ok (content, rest ++ more) := by
  fun_induction readStringBytes acc bytes with
  | case1 => cases h
  | case2 acc after =>
    cases h
    rw [List.cons_append, readStringBytes, if_pos rfl]
  | case3 acc after chunk behind hread hshort hquote ih =>
    rw [List.cons_append, readStringBytes, if_neg hquote, if_pos rfl]
    split
    · rename_i heq
      cases (readEscape_append hread more).symm.trans heq
      exact ih h
    · rename_i heq
      cases (readEscape_append hread more).symm.trans heq
  | case4 => cases h
  | case5 => cases h
  | case6 acc b after hquote hescape hcontrol ih =>
    rw [List.cons_append, readStringBytes, if_neg hquote, if_neg hescape, if_neg hcontrol]
    exact ih h

theorem readString_append {s : String} (h : readString bytes = .ok (s, rest)) (more : Bytes) :
    readString (bytes ++ more) = .ok (s, rest ++ more) := by
  unfold readString at h ⊢
  split at h
  · cases h
  · rename_i content after hread
    rw [readStringBytes_append hread]
    dsimp only
    split at h
    · cases h
      rfl
    · cases h

theorem skipEscape_append (h : skipEscape bytes = .ok rest) (more : Bytes) :
    skipEscape (bytes ++ more) = .ok (rest ++ more) := by
  unfold skipEscape at h
  split at h
  · cases h
  · rename_i b after
    rw [List.cons_append, skipEscape]
    split at h
    · rw [if_pos ‹_›]
      obtain ⟨⟨n, behind⟩, hunit, rfl⟩ := Numeral.map_ok h
      rw [readUnit_append hunit]
      rfl
    · rw [if_neg ‹_›]
      split at h
      · cases h
        rw [if_pos ‹_›]
      · cases h

theorem skipString_append (h : skipString bytes = .ok rest) (more : Bytes) :
    skipString (bytes ++ more) = .ok (rest ++ more) := by
  fun_induction skipString bytes with
  | case1 => cases h
  | case2 after =>
    cases h
    rw [List.cons_append, skipString, if_pos rfl]
  | case3 after behind hskip hshort hquote ih =>
    rw [List.cons_append, skipString, if_neg hquote, if_pos rfl]
    split
    · rename_i heq
      cases (skipEscape_append hskip more).symm.trans heq
      exact ih h
    · rename_i heq
      cases (skipEscape_append hskip more).symm.trans heq
  | case4 => cases h
  | case5 => cases h
  | case6 b after hquote hescape hcontrol ih =>
    rw [List.cons_append, skipString, if_neg hquote, if_neg hescape, if_neg hcontrol]
    exact ih h

/-! ### Numbers -/

namespace Numeral

theorem ne_nil_of_length_le {left right : Bytes} (h : left ≠ []) (hle : left.length ≤ right.length) :
    right ≠ [] := by
  rintro rfl
  exact h (List.eq_nil_of_length_eq_zero (Nat.le_zero.1 hle))

theorem takeSignificand_append {significand taken most count : Nat}
    (h : takeSignificand significand taken bytes = (most, count, rest)) (hrest : rest ≠ [])
    (more : Bytes) :
    takeSignificand significand taken (bytes ++ more) = (most, count, rest ++ more) := by
  induction bytes generalizing significand taken with
  | nil =>
    cases h
    exact absurd rfl hrest
  | cons b bytes ih =>
    rw [takeSignificand] at h
    rw [List.cons_append, takeSignificand]
    split at h
    · rw [if_pos ‹_›]
      exact ih h
    · cases h
      rw [if_neg ‹_›]
      rfl

theorem takeExponent_append {acc : Nat} {exponent : Option Nat}
    (h : takeExponent acc bytes = (exponent, rest)) (hrest : rest ≠ []) (more : Bytes) :
    takeExponent acc (bytes ++ more) = (exponent, rest ++ more) := by
  induction bytes generalizing acc with
  | nil =>
    cases h
    exact absurd rfl hrest
  | cons b bytes ih =>
    rw [takeExponent] at h
    rw [List.cons_append, takeExponent]
    split at h
    · rw [if_pos ‹_›]
      split at h
      · rw [if_pos ‹_›]
        exact ih h
      · cases h
        rw [if_neg ‹_›, skipDigits, dropWhile_append_of_ne_nil hrest]
        rfl
    · cases h
      rw [if_neg ‹_›]
      rfl

theorem dropSign_append (h : dropSign bytes ≠ []) (more : Bytes) :
    dropSign (bytes ++ more) = dropSign bytes ++ more ∧
      startsWithMinus (bytes ++ more) = startsWithMinus bytes := by
  cases bytes with
  | nil => exact absurd rfl h
  | cons b bytes =>
    refine ⟨?_, rfl⟩
    rw [List.cons_append, dropSign, dropSign]
    split <;> rfl

theorem dropMinus_append (h : dropMinus bytes ≠ []) (more : Bytes) :
    dropMinus (bytes ++ more) = dropMinus bytes ++ more ∧
      startsWithMinus (bytes ++ more) = startsWithMinus bytes := by
  cases bytes with
  | nil => exact absurd rfl h
  | cons b bytes =>
    refine ⟨?_, rfl⟩
    rw [List.cons_append, dropMinus, dropMinus]
    split <;> rfl

variable {negative : Bool} {significand : Nat} {start : Int} {x : Number.Binary64} {n : Numeral}

theorem readExponent_append (h : readExponent negative significand start bytes = .ok (x, rest))
    (hrest : rest ≠ []) (more : Bytes) :
    readExponent negative significand start (bytes ++ more) = .ok (x, rest ++ more) := by
  unfold readExponent at h ⊢
  dsimp only at h ⊢
  cases hsign : dropSign bytes with
  | nil =>
    rw [hsign] at h
    cases h
  | cons b tail =>
    have hsome : dropSign bytes ≠ [] := hsign ▸ List.cons_ne_nil b tail
    obtain ⟨hdrop, hminus⟩ := dropSign_append hsome more
    rw [hsign] at h hdrop
    rw [hdrop, hminus]
    dsimp only [List.cons_append] at h ⊢
    split at h
    · cases h
    · rw [if_neg ‹_›]
      rcases htake : takeExponent (digit b) tail with ⟨exponent, after⟩
      rw [htake] at h
      dsimp only at h
      cases exponent with
      | some e =>
        obtain ⟨y, hassemble, hparts⟩ := map_ok h
        obtain ⟨rfl, rfl⟩ := Prod.mk.inj hparts
        rw [takeExponent_append htake hrest]
        dsimp only
        rw [hassemble]
        rfl
      | none =>
        dsimp only at h
        split at h
        · cases h
        · obtain ⟨rfl, rfl⟩ := Prod.mk.inj (Except.ok.inj h)
          rw [takeExponent_append htake hrest]
          dsimp only
          rw [if_neg ‹_›]

theorem readScale_append (h : readScale negative significand start bytes = .ok (x, rest))
    (hrest : rest ≠ []) (more : Bytes) :
    readScale negative significand start (bytes ++ more) = .ok (x, rest ++ more) := by
  cases bytes with
  | nil =>
    have hlength := readScale_length h
    exact absurd rfl (ne_nil_of_length_le hrest hlength)
  | cons b bytes =>
    rw [readScale] at h
    rw [List.cons_append, readScale]
    split at h
    · rw [if_pos ‹_›]
      exact readExponent_append h hrest more
    · obtain ⟨y, hassemble, hparts⟩ := map_ok h
      obtain ⟨rfl, rfl⟩ := Prod.mk.inj hparts
      rw [if_neg ‹_›, hassemble]
      rfl

theorem readFraction_append (h : readFraction negative significand start bytes = .ok (x, rest))
    (hrest : rest ≠ []) (more : Bytes) :
    readFraction negative significand start (bytes ++ more) = .ok (x, rest ++ more) := by
  unfold readFraction at h ⊢
  rcases htake : takeSignificand significand 0 bytes with ⟨most, count, after⟩
  rw [htake] at h
  dsimp only at h
  cases after with
  | nil =>
    -- Nothing is left behind the digits, so nothing is left at all.
    dsimp only at h
    split at h
    · cases h
    · exact absurd rfl (ne_nil_of_length_le hrest (readScale_length h))
  | cons b after =>
    rw [takeSignificand_append htake (List.cons_ne_nil b after)]
    dsimp only [List.cons_append] at h ⊢
    split at h
    · rw [if_pos ‹_›, skipDigits,
        dropWhile_append_of_ne_nil (ne_nil_of_length_le hrest (readScale_length h))]
      exact readScale_append h hrest more
    · rw [if_neg ‹_›]
      split at h
      · cases h
      · rw [if_neg ‹_›]
        exact readScale_append h hrest more

theorem readLong_append (h : readLong negative significand bytes = .ok (x, rest)) (hrest : rest ≠ [])
    (more : Bytes) : readLong negative significand (bytes ++ more) = .ok (x, rest ++ more) := by
  unfold readLong at h ⊢
  dsimp only at h ⊢
  cases hskip : skipDigits bytes with
  | nil =>
    rw [hskip] at h
    exact absurd rfl (ne_nil_of_length_le hrest (readScale_length h))
  | cons b after =>
    have hsome : skipDigits bytes ≠ [] := hskip ▸ List.cons_ne_nil b after
    have hdigits : skipDigits (bytes ++ more) = b :: (after ++ more) :=
      (dropWhile_append_of_ne_nil hsome more).trans (congrArg (· ++ more) hskip)
    rw [hskip] at h
    rw [takeWhile_append_of_ne_nil hsome, hdigits]
    dsimp only at h ⊢
    split at h
    · rw [if_pos ‹_›]
      exact readFraction_append h hrest more
    · rw [if_neg ‹_›]
      exact readScale_append h hrest more

theorem readTail_append (h : readTail negative significand bytes = .ok (n, rest)) (hrest : rest ≠ [])
    (more : Bytes) : readTail negative significand (bytes ++ more) = .ok (n, rest ++ more) := by
  cases bytes with
  | nil => exact absurd rfl (ne_nil_of_length_le hrest (readTail_length h))
  | cons b bytes =>
    rw [readTail] at h
    rw [List.cons_append, readTail]
    split at h
    · obtain ⟨⟨y, after⟩, hread, hparts⟩ := map_ok h
      obtain ⟨rfl, rfl⟩ := Prod.mk.inj hparts
      rw [if_pos ‹_›, readFraction_append hread hrest]
      rfl
    · rw [if_neg ‹_›]
      split at h
      · obtain ⟨⟨y, after⟩, hread, hparts⟩ := map_ok h
        obtain ⟨rfl, rfl⟩ := Prod.mk.inj hparts
        rw [if_pos ‹_›, readExponent_append hread hrest]
        rfl
      · obtain ⟨rfl, rfl⟩ := Prod.mk.inj (Except.ok.inj h)
        rw [if_neg ‹_›]
        rfl

theorem readUnsigned_append (h : readUnsigned negative bytes = .ok (n, rest)) (hrest : rest ≠ [])
    (more : Bytes) : readUnsigned negative (bytes ++ more) = .ok (n, rest ++ more) := by
  cases bytes with
  | nil => cases h
  | cons b bytes =>
    rw [List.cons_append]
    unfold readUnsigned at h ⊢
    dsimp only at h ⊢
    split at h
    · rw [if_pos ‹_›]
      cases bytes with
      | nil => exact absurd rfl (ne_nil_of_length_le hrest (readTail_length h))
      | cons c bytes =>
        dsimp only [List.cons_append] at h ⊢
        split at h
        · cases h
        · rw [if_neg ‹_›]
          exact readTail_append h hrest more
    · rw [if_neg ‹_›]
      split at h
      · cases h
      · rw [if_neg ‹_›]
        rcases htake : takeSignificand (digit b) 1 bytes with ⟨most, count, after⟩
        rw [htake] at h
        dsimp only at h
        cases after with
        | nil => exact absurd rfl (ne_nil_of_length_le hrest (readTail_length h))
        | cons c after =>
          rw [takeSignificand_append htake (List.cons_ne_nil c after)]
          dsimp only [List.cons_append] at h ⊢
          split at h
          · obtain ⟨⟨y, behind⟩, hread, hparts⟩ := map_ok h
            obtain ⟨rfl, rfl⟩ := Prod.mk.inj hparts
            have hlong := readLong_append hread hrest more
            rw [List.cons_append] at hlong
            rw [if_pos ‹_›, hlong]
            rfl
          · rw [if_neg ‹_›]
            exact readTail_append h hrest more

theorem read_append (h : read bytes = .ok (n, rest)) (hrest : rest ≠ []) (more : Bytes) :
    read (bytes ++ more) = .ok (n, rest ++ more) := by
  have hsome := ne_nil_of_length_le hrest (Nat.le_of_lt (readUnsigned_length h))
  obtain ⟨hdrop, hminus⟩ := dropMinus_append hsome more
  rw [read, hdrop, hminus]
  exact readUnsigned_append h hrest more

theorem skipExponent_append (h : skipExponent bytes = .ok rest) (hrest : rest ≠ []) (more : Bytes) :
    skipExponent (bytes ++ more) = .ok (rest ++ more) := by
  unfold skipExponent at h ⊢
  cases hsign : dropSign bytes with
  | nil =>
    rw [hsign] at h
    cases h
  | cons b tail =>
    have hsome : dropSign bytes ≠ [] := hsign ▸ List.cons_ne_nil b tail
    rw [(dropSign_append hsome more).1, hsign]
    rw [hsign] at h
    dsimp only [List.cons_append] at h ⊢
    split at h
    · rw [if_pos ‹_›, skipDigits]
      cases h
      rw [dropWhile_append_of_ne_nil hrest]
      rfl
    · cases h

theorem skipScale_append (h : skipScale bytes = .ok rest) (hrest : rest ≠ []) (more : Bytes) :
    skipScale (bytes ++ more) = .ok (rest ++ more) := by
  cases bytes with
  | nil => exact absurd rfl (ne_nil_of_length_le hrest (skipScale_length h))
  | cons b bytes =>
    rw [skipScale] at h
    rw [List.cons_append, skipScale]
    split at h
    · rw [if_pos ‹_›]
      exact skipExponent_append h hrest more
    · cases h
      rw [if_neg ‹_›]
      rfl

theorem skipTail_append (h : skipTail bytes = .ok rest) (hrest : rest ≠ []) (more : Bytes) :
    skipTail (bytes ++ more) = .ok (rest ++ more) := by
  cases bytes with
  | nil => exact absurd rfl (ne_nil_of_length_le hrest (skipTail_length h))
  | cons b bytes =>
    rw [List.cons_append]
    unfold skipTail at h ⊢
    dsimp only at h ⊢
    split at h
    · rw [if_pos ‹_›]
      cases bytes with
      | nil => cases h
      | cons c bytes =>
        dsimp only [List.cons_append] at h ⊢
        split at h
        · rw [if_pos ‹_›, skipDigits,
            dropWhile_append_of_ne_nil (ne_nil_of_length_le hrest (skipScale_length h))]
          exact skipScale_append h hrest more
        · cases h
    · rw [if_neg ‹_›]
      exact skipScale_append h hrest more

theorem skip_append (h : skip bytes = .ok rest) (hrest : rest ≠ []) (more : Bytes) :
    skip (bytes ++ more) = .ok (rest ++ more) := by
  unfold skip at h ⊢
  cases hminus : dropMinus bytes with
  | nil =>
    rw [hminus] at h
    cases h
  | cons b tail =>
    have hsome : dropMinus bytes ≠ [] := hminus ▸ List.cons_ne_nil b tail
    rw [(dropMinus_append hsome more).1, hminus]
    rw [hminus] at h
    dsimp only [List.cons_append] at h ⊢
    split at h
    · rw [if_pos ‹_›]
      cases tail with
      | nil =>
        cases h
        exact absurd rfl hrest
      | cons c tail =>
        dsimp only [List.cons_append] at h ⊢
        split at h
        · cases h
        · rw [if_neg ‹_›]
          exact skipTail_append h hrest more
    · rw [if_neg ‹_›]
      split at h
      · rw [if_pos ‹_›, skipDigits,
          dropWhile_append_of_ne_nil (ne_nil_of_length_le hrest (skipTail_length h))]
        exact skipTail_append h hrest more
      · cases h

end Numeral

end Telemetry.Json
