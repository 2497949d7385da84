import Telemetry.Proofs.Json.Text

/-!
# The order of texts and of their bytes

Texts are compared by their characters and sequences of bytes byte by byte. The UTF-8 encoding keeps
this order: the first byte of a character tells how many bytes it has, more of them for a later
character, and of two characters with the same number of bytes the first byte that is different is less
in the earlier one. So the comparison is decided within the first two characters that differ, whatever
stands behind them.
-/

namespace Telemetry.Bytes

variable {m n : Nat} {left right : Bytes}

theorem cons_lt_of_lt (hlt : m < n) (hn : n < 256) :
    UInt8.ofNat m :: left < UInt8.ofNat n :: right := by
  refine List.cons_lt_cons_iff.2 (.inl (UInt8.lt_iff_toNat_lt.2 ?_))
  rw [UInt8.toNat_ofNat', UInt8.toNat_ofNat']
  omega

/-- Where a byte may be the same, the rest decides. -/
theorem cons_lt_of_le (hle : m ≤ n) (hn : n < 256) (hrest : m = n → left < right) :
    UInt8.ofNat m :: left < UInt8.ofNat n :: right := by
  rcases Nat.lt_or_eq_of_le hle with hlt | rfl
  · exact cons_lt_of_lt hlt hn
  · exact List.cons_lt_cons_iff.2 (.inr ⟨rfl, hrest rfl⟩)

/-- The bytes of a character are less than those of a later one, whatever follows. -/
theorem utf8EncodeChar_append_lt {c d : Char} (h : c < d) (left right : Bytes) :
    String.utf8EncodeChar c ++ left < String.utf8EncodeChar d ++ right := by
  have hlt : c.val.toNat < d.val.toNat := UInt32.lt_iff_toNat_lt.1 h
  have hd : d.val.toNat < 1114112 := by
    rcases d.valid with hsmall | hlarge <;> omega
  unfold String.utf8EncodeChar
  dsimp only
  generalize c.val.toNat = v at *
  generalize d.val.toNat = w at *
  repeat' split
  -- A later character does not have fewer bytes.
  all_goals try omega
  -- With more bytes, or as ASCII, it has a greater first byte.
  all_goals try exact cons_lt_of_lt (by omega) (by omega)
  · exact cons_lt_of_le (by omega) (by omega) fun _ => cons_lt_of_lt (by omega) (by omega)
  · exact cons_lt_of_le (by omega) (by omega) fun _ => cons_lt_of_le (by omega) (by omega) fun _ =>
      cons_lt_of_lt (by omega) (by omega)
  · exact cons_lt_of_le (by omega) (by omega) fun _ => cons_lt_of_le (by omega) (by omega) fun _ =>
      cons_lt_of_le (by omega) (by omega) fun _ => cons_lt_of_lt (by omega) (by omega)

theorem encode_lt {cs ds : List Char} (h : cs < ds) : encode cs < encode ds := by
  induction h with
  | nil =>
    rename_i d ds
    rw [encode_cons]
    cases hbytes : String.utf8EncodeChar d with
    | nil => exact absurd hbytes String.utf8EncodeChar_ne_nil
    | cons b bytes => exact List.nil_lt_cons b _
  | rel hlt =>
    rw [encode_cons, encode_cons]
    exact utf8EncodeChar_append_lt hlt _ _
  | cons hrest ih =>
    rw [encode_cons, encode_cons]
    exact List.append_left_lt ih

/-- The bytes of texts are in the order of the texts. -/
theorem ofString_lt {s t : String} (h : s < t) : ofString s < ofString t := by
  rw [ofString_eq, ofString_eq]
  exact encode_lt h

end Telemetry.Bytes
