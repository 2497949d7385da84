import Telemetry.Json.Text
import Telemetry.Json.Writer

/-!
# Strings read back

A string is written with its quotes, backslashes and control characters escaped, and the reader
gives back the same string, whatever bytes stand behind the closing quote. The two meet at one
character: the reader turns what the writer makes of a character into the UTF-8 bytes of that
character.
-/

namespace Telemetry

namespace Bytes

def encode (cs : List Char) : Bytes := cs.flatMap String.utf8EncodeChar

theorem encode_cons (c : Char) (cs : List Char) :
    encode (c :: cs) = String.utf8EncodeChar c ++ encode cs := List.flatMap_cons

theorem encode_singleton (c : Char) : encode [c] = String.utf8EncodeChar c :=
  List.flatMap_singleton ..

theorem encode_append (cs ds : List Char) : encode (cs ++ ds) = encode cs ++ encode ds :=
  List.flatMap_append

theorem ofString_ofList (cs : List Char) : ofString (String.ofList cs) = encode cs := by
  rw [ofString, String.toUTF8_eq_toByteArray, String.toByteArray_ofList, List.utf8Encode,
    List.toList_data_toByteArray, encode]

theorem ofString_eq (s : String) : ofString s = encode s.toList := by
  rw [← ofString_ofList, String.ofList_toList]

theorem toString?_encode (s : String) : toString? (encode s.toList) = some s := by
  rw [← ofString_eq]
  exact dif_pos s.isValidUTF8

theorem utf8EncodeChar_ascii {c : Char} (h : c.toNat < 128) :
    String.utf8EncodeChar c = [c.toNat.toUInt8] := by
  rw [String.utf8EncodeChar]
  exact if_pos (Nat.le_of_lt_succ h)

/-- The bytes of a character that is not ASCII are not ASCII either. -/
theorem le_of_mem_utf8EncodeChar {c : Char} (h : 128 ≤ c.toNat) {b : UInt8}
    (hb : b ∈ String.utf8EncodeChar c) : 128 ≤ b.toNat := by
  have hlarge : ¬c.val.toNat ≤ 127 := Nat.not_le.2 h
  have hhigh (v base : Nat) (hbase : 128 ≤ base) (hlt : v + base < 256) :
      128 ≤ (UInt8.ofNat (v + base)).toNat := by
    rw [UInt8.toNat_ofNat']
    omega
  unfold String.utf8EncodeChar at hb
  dsimp only at hb
  rw [if_neg hlarge] at hb
  split at hb
  · simp only [List.mem_cons, List.not_mem_nil, or_false] at hb
    rcases hb with rfl | rfl
    · exact hhigh _ 192 (by omega) (by omega)
    · exact hhigh _ 128 (by omega) (by omega)
  · split at hb
    · simp only [List.mem_cons, List.not_mem_nil, or_false] at hb
      rcases hb with rfl | rfl | rfl
      · exact hhigh _ 224 (by omega) (by omega)
      · exact hhigh _ 128 (by omega) (by omega)
      · exact hhigh _ 128 (by omega) (by omega)
    · simp only [List.mem_cons, List.not_mem_nil, or_false] at hb
      rcases hb with rfl | rfl | rfl | rfl
      · exact hhigh _ 240 (by omega) (by omega)
      · exact hhigh _ 128 (by omega) (by omega)
      · exact hhigh _ 128 (by omega) (by omega)
      · exact hhigh _ 128 (by omega) (by omega)

theorem encode_ascii {cs : List Char} (h : ∀ c ∈ cs, c.toNat < 128) : encode cs = ofAscii cs := by
  induction cs with
  | nil => rfl
  | cons c cs ih =>
    rw [encode_cons, utf8EncodeChar_ascii (h c List.mem_cons_self),
      ih fun d hd => h d (List.mem_cons_of_mem c hd)]
    rfl

end Bytes

namespace Json

open Bytes

theorem readStringBytes_quote (acc rest : Bytes) :
    readStringBytes acc (34 :: rest) = .ok (acc.reverse, rest) := by
  rw [readStringBytes]
  rfl

theorem readStringBytes_escape {acc bytes chunk after : Bytes}
    (h : readEscape bytes = .ok (chunk, after)) :
    readStringBytes acc (92 :: bytes) = readStringBytes (chunk.reverse ++ acc) after := by
  rw [readStringBytes]
  split
  · rename_i hquote
    cases hquote
  · split
    · split
      · rename_i heq
        cases h.symm.trans heq
        rfl
      · rename_i heq
        cases h.symm.trans heq
    · rename_i hslash
      exact absurd rfl hslash

/-- Bytes that neither end a string nor begin an escape are taken as they are. -/
theorem readStringBytes_plain {bytes : Bytes}
    (hplain : ∀ b ∈ bytes, b ≠ 34 ∧ b ≠ 92 ∧ ¬b < 32) (acc rest : Bytes) :
    readStringBytes acc (bytes ++ rest) = readStringBytes (bytes.reverse ++ acc) rest := by
  induction bytes generalizing acc with
  | nil => rfl
  | cons b bytes ih =>
    obtain ⟨hquote, hslash, hcontrol⟩ := hplain b List.mem_cons_self
    rw [List.cons_append, readStringBytes, if_neg hquote, if_neg hslash, if_neg hcontrol,
      ih (fun c hc => hplain c (List.mem_cons_of_mem b hc)), List.reverse_cons, List.append_assoc,
      List.singleton_append]

/-- The two digits in which the escapes of the control characters differ. -/
theorem hexDigits_control : ∀ n < 32,
    hexDigit? (if n < 16 then '0' else '1').toNat.toUInt8 = some (n / 16) ∧
      hexDigit? (Nat.digitChar (n % 16)).toNat.toUInt8 = some (n % 16) ∧
      (Nat.digitChar (n % 16)).toNat < 128 := by
  decide

theorem readEscape_control {c : Char} (h : c.toNat < 32) (rest : Bytes) :
    readEscape (encode ((controlEscape c).drop 1) ++ rest) = .ok ([c.toNat.toUInt8], rest) := by
  obtain ⟨hhigh, hlow, hascii⟩ := hexDigits_control c.toNat h
  have hbytes : encode ((controlEscape c).drop 1)
      = [117, 48, 48, (if c.toNat < 16 then '0' else '1').toNat.toUInt8,
        (Nat.digitChar (c.toNat % 16)).toNat.toUInt8] := by
    rw [encode_ascii]
    · rfl
    · intro d hd
      simp only [controlEscape, List.drop_succ_cons, List.drop_zero, List.mem_cons,
        List.not_mem_nil, or_false] at hd
      rcases hd with rfl | rfl | rfl | rfl | rfl
      · decide
      · decide
      · decide
      · split <;> decide
      · exact hascii
  have hunit : readUnit (48 :: 48 :: (if c.toNat < 16 then '0' else '1').toNat.toUInt8 ::
      (Nat.digitChar (c.toNat % 16)).toNat.toUInt8 :: rest) = .ok (c.toNat, rest) := by
    have hzero : hexDigit? 48 = some 0 := by decide
    simp only [readUnit, hzero, hhigh, hlow]
    exact congrArg (fun n => Except.ok (n, rest)) (by omega)
  have hnotlow : isLowSurrogate c.toNat = false := by
    rw [isLowSurrogate, decide_eq_false (by omega), Bool.false_and]
  have hnothigh : isHighSurrogate c.toNat = false := by
    rw [isHighSurrogate, decide_eq_false (by omega), Bool.false_and]
  rw [hbytes]
  change readEscapedPoint (48 :: 48 :: (if c.toNat < 16 then '0' else '1').toNat.toUInt8 ::
    (Nat.digitChar (c.toNat % 16)).toNat.toUInt8 :: rest) = _
  unfold readEscapedPoint
  simp only [hunit, hnotlow, hnothigh, Bool.false_eq_true, if_false, Bool.not_false, if_true]
  rw [encodePoint, if_pos (by omega)]

theorem plain_of_mem {c : Char} (hquote : c ≠ '"') (hslash : c ≠ '\\') (hprintable : 32 ≤ c.toNat)
    {b : UInt8} (hb : b ∈ String.utf8EncodeChar c) : b ≠ 34 ∧ b ≠ 92 ∧ ¬b < 32 := by
  have hvalue : b.toNat ≠ 34 ∧ b.toNat ≠ 92 ∧ ¬b.toNat < 32 := by
    by_cases hascii : c.toNat < 128
    · rw [utf8EncodeChar_ascii hascii, List.mem_singleton] at hb
      have hbyte : b.toNat = c.toNat := by
        rw [hb, Nat.toUInt8, UInt8.toNat_ofNat']
        omega
      rw [hbyte]
      exact ⟨fun h => hquote (Char.toNat_inj.1 h), fun h => hslash (Char.toNat_inj.1 h),
        Nat.not_lt.2 hprintable⟩
    · have := le_of_mem_utf8EncodeChar (Nat.not_lt.1 hascii) hb
      omega
  refine ⟨?_, ?_, fun h => hvalue.2.2 (UInt8.lt_iff_toNat_lt.1 h)⟩
  · rintro rfl
    exact hvalue.1 rfl
  · rintro rfl
    exact hvalue.2.1 rfl

/-- The reader turns what is written of a character into the bytes of that character. -/
theorem readStringBytes_writeChar (c : Char) (acc rest : Bytes) :
    readStringBytes acc (encode (writeChar c) ++ rest)
      = readStringBytes ((String.utf8EncodeChar c).reverse ++ acc) rest := by
  -- Each one-letter escape stands for one ASCII character.
  have hsimple {d letter : Char} (hletter : letter.toNat < 128) (hd : d.toNat < 128)
      (hu : letter.toNat.toUInt8 ≠ 117)
      (hcode : simpleEscape? letter.toNat.toUInt8 = some d.toNat.toUInt8) :
      readStringBytes acc (encode ['\\', letter] ++ rest)
        = readStringBytes ((String.utf8EncodeChar d).reverse ++ acc) rest := by
    have hescape : readEscape (letter.toNat.toUInt8 :: rest) = .ok ([d.toNat.toUInt8], rest) := by
      simp only [readEscape, if_neg hu, hcode]
    have hbytes : encode ['\\', letter] = [92, letter.toNat.toUInt8] := by
      rw [encode_ascii]
      · rfl
      · intro e he
        simp only [List.mem_cons, List.not_mem_nil, or_false] at he
        rcases he with rfl | rfl
        · decide
        · exact hletter
    rw [hbytes, utf8EncodeChar_ascii hd]
    exact readStringBytes_escape hescape
  unfold writeChar
  iterate 7
    split
    · rename_i h
      subst h
      exact hsimple (by decide) (by decide) (by decide) (by decide)
  rename_i hquote hslash _ _ _ _ _
  split
  · rename_i hcontrol
    rw [utf8EncodeChar_ascii (by omega)]
    exact readStringBytes_escape (readEscape_control hcontrol rest)
  · rename_i hprintable
    rw [encode_singleton]
    exact readStringBytes_plain (fun b => plain_of_mem hquote hslash (by omega)) acc rest

theorem readStringBytes_written (cs : List Char) (acc rest : Bytes) :
    readStringBytes acc (encode (cs.flatMap writeChar) ++ 34 :: rest)
      = .ok (acc.reverse ++ encode cs, rest) := by
  induction cs generalizing acc with
  | nil =>
    have hnil : encode [] = [] := rfl
    rw [List.flatMap_nil, hnil, List.append_nil]
    exact readStringBytes_quote acc rest
  | cons c cs ih =>
    rw [List.flatMap_cons, encode_append, List.append_assoc, readStringBytes_writeChar, ih,
      List.reverse_append, List.reverse_reverse, List.append_assoc, encode_cons]

theorem readString_writeString (s : String) (rest : Bytes) :
    readString (encode (s.toList.flatMap writeChar ++ ['"']) ++ rest) = .ok (s, rest) := by
  have hbytes : encode (s.toList.flatMap writeChar ++ ['"']) ++ rest
      = encode (s.toList.flatMap writeChar) ++ 34 :: rest := by
    rw [encode_append, List.append_assoc]
    rfl
  rw [hbytes, readString, readStringBytes_written]
  simp only [List.reverse_nil, List.nil_append, toString?_encode]

end Json

end Telemetry
