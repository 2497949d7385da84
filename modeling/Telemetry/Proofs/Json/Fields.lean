import Mathlib.Data.List.DropRight
import Telemetry.Json.Fields
import Telemetry.Proofs.Json.Assembly
import Telemetry.Proofs.Json.Text

/-!
# Documents read back

A reader reads a text as a value when it gives the value for the text and leaves whatever follows,
as long as that does not go on with a number. Such laws compose: an object is read as soon as each of
its members is, and the rest of the project knows the readers through the laws of this module.
-/

namespace Telemetry.Json

open Telemetry.Number Bytes

/-- The reader takes the text, with anything behind it that ends a number, for the value. -/
def Reader.Reads {α : Type} (reader : Reader α) (text : List Char) (a : α) : Prop :=
  ∀ rest, Numeral.EndsNumber rest → reader.run (encode text ++ rest) = .ok (a, rest)

theorem Reader.Reads.document {α : Type} {reader : Reader α} {text : List Char} {a : α}
    (h : reader.Reads text a) : reader.document (encode text) = .ok a := by
  have hread := h [] (by rintro b ⟨⟩)
  rw [List.append_nil] at hread
  rw [Reader.document, hread]
  rfl

theorem skipSpace_cons {b : UInt8} (h : isSpace b = false) (rest : Bytes) :
    skipSpace (b :: rest) = b :: rest := by
  rw [skipSpace, List.dropWhile_cons_of_neg (by rw [h]; decide)]

theorem skipSpace_skipSpace (bytes : Bytes) : skipSpace (skipSpace bytes) = skipSpace bytes := by
  rw [skipSpace, skipSpace, List.dropWhile_idempotent]

theorem runFirst_cons {α : Type} {b : UInt8} (h : isSpace b = false)
    (read : UInt8 → Bytes → Result α) (rest : Bytes) :
    Reader.runFirst read (b :: rest) = read b rest := by
  rw [Reader.runFirst, skipSpace_cons h]

theorem encode_writeString (s : String) (rest : Bytes) :
    encode (writeString s) ++ rest = 34 :: (encode (s.toList.flatMap writeChar ++ ['"']) ++ rest) :=
  rfl

theorem head_of_read {bytes rest : Bytes} {n : Numeral} (h : Numeral.read bytes = .ok (n, rest)) :
    ∃ b more, bytes = b :: more ∧ (b = 45 ∨ Numeral.isDigit b = true) := by
  cases bytes with
  | nil => cases h
  | cons b more =>
    refine ⟨b, more, rfl, ?_⟩
    by_cases hminus : b = 45
    · exact .inl hminus
    · right
      rw [Numeral.read, Numeral.dropMinus, if_neg hminus] at h
      unfold Numeral.readUnsigned at h
      dsimp only at h
      split at h
      · rename_i hzero
        rw [hzero]
        rfl
      · by_contra hdigit
        rw [Bool.not_eq_true] at hdigit
        rw [hdigit] at h
        cases h

theorem notSpace_of_number {b : UInt8} (h : b = 45 ∨ Numeral.isDigit b = true) :
    isSpace b = false ∧ b ≠ 110 := by
  rcases h with rfl | h
  · decide
  · have hne {c : UInt8} (hc : Numeral.isDigit c = false) : b ≠ c := by
      rintro rfl
      exact Bool.false_ne_true (hc.symm.trans h)
    simp [isSpace, hne (c := 32) rfl, hne (c := 9) rfl, hne (c := 10) rfl, hne (c := 13) rfl,
      hne (c := 110) rfl]

/-- The text is a number of a document, with anything behind it that ends a number. -/
def IsNumber (text : List Char) (n : Numeral) : Prop :=
  ∀ rest, Numeral.EndsNumber rest → Numeral.read (encode text ++ rest) = .ok (n, rest)

theorem ascii_digits {cs : List Char} (h : ∀ c ∈ cs, c.isDigit = true) : ∀ c ∈ cs, c.toNat < 128 := by
  intro c hc
  have hdigit := h c hc
  simp only [Char.isDigit, ge_iff_le, Bool.and_eq_true, decide_eq_true_eq,
    UInt32.le_iff_toNat_le] at hdigit
  exact Nat.lt_of_le_of_lt hdigit.2 (by decide)

theorem ascii_integerText (n : Int) : ∀ c ∈ integerText n, c.toNat < 128 := by
  have hdigits := ascii_digits fun c (hc : c ∈ Layout.digitsOf n.natAbs) =>
    Numeral.isDigit_digitsOf hc
  unfold integerText
  split
  · intro c hc
    rcases List.mem_cons.1 hc with rfl | hc
    · decide
    · exact hdigits c hc
  · exact hdigits

theorem ascii_positionalText (layout : Layout) {cs : List Char} (point : Int)
    (h : ∀ c ∈ cs, c.toNat < 128) : ∀ c ∈ layout.positionalText cs point, c.toNat < 128 :=
  Numeral.forall_positionalText layout point h (by decide) (by decide)

theorem ascii_scientificText {cs : List Char} (point : Int) (h : ∀ c ∈ cs, c.toNat < 128) :
    ∀ c ∈ Layout.scientificText cs point, c.toNat < 128 := by
  unfold Layout.scientificText
  simp only [List.forall_mem_append, List.forall_mem_cons]
  refine ⟨⟨fun c hc => h c (List.mem_of_mem_take hc), ?_⟩, by decide, ?_,
    ascii_digits fun _ => Numeral.isDigit_digitsOf⟩
  · split
    · exact fun c hc => absurd hc List.not_mem_nil
    · simp only [List.forall_mem_cons]
      exact ⟨by decide, fun c hc => h c (List.mem_of_mem_drop hc)⟩
  · split <;> simp

theorem ascii_floatText (negative : Bool) (m : Magnitude64) :
    ∀ c ∈ floatText (.finite negative m), c.toNat < 128 := by
  have hdigits (n : Nat) := ascii_digits fun c (hc : c ∈ Layout.digitsOf n) =>
    Numeral.isDigit_digitsOf hc
  unfold floatText Layout.finiteText Layout.magnitudeText
  simp only [List.forall_mem_append]
  refine ⟨by cases negative <;> simp, ?_⟩
  split
  · exact ascii_positionalText numberLayout 1 (by simp)
  · split
    · exact ascii_positionalText numberLayout _ (hdigits _)
    · split
      · exact ascii_positionalText numberLayout _ (hdigits _)
      · exact ascii_scientificText _ (hdigits _)

theorem isNumber_integerText {n : Int} (hlow : -0x8000000000000000 ≤ n)
    (hhigh : n ≤ Numeral.significandMax) :
    IsNumber (integerText n) (if n < 0 then .negative n else .natural n.toNat) := by
  intro rest hrest
  rw [encode_ascii (ascii_integerText n)]
  exact Numeral.read_integerText hlow hhigh hrest

theorem isNumber_floatText (negative : Bool) (m : Magnitude64) :
    IsNumber (floatText (.finite negative m)) (.float (.finite negative (Numeral.reread m))) := by
  intro rest hrest
  rw [encode_ascii (ascii_floatText negative m), Numeral.read_floatText hrest,
    Numeral.assemble_eq (Numeral.assembled?_written m)]
  rfl

namespace Reader

variable {α β : Type}

theorem Reads.map {reader : Reader α} {text : List Char} {a : α} (h : reader.Reads text a)
    (f : α → β) : (reader.map f).Reads text (f a) := by
  intro rest hrest
  rw [Reader.map, filterMap]
  dsimp only
  rw [h rest hrest]

theorem reads_text (expected s : String) : (text expected).Reads (writeString s) s := by
  intro rest _
  rw [encode_writeString]
  have hrun (bytes : Bytes) : (text expected).run bytes = runFirst (fun b rest =>
      if b = 34 then readString rest else .error (mismatch expected b rest)) bytes := rfl
  rw [hrun, runFirst_cons (b := 34) rfl, if_pos rfl, readString_writeString]

theorem reads_numeral (expected : String) {text : List Char} {n : Numeral} (h : IsNumber text n) :
    (numeral expected).Reads text n := by
  intro rest hrest
  have hread := h rest hrest
  obtain ⟨b, more, hbytes, hb⟩ := head_of_read hread
  rw [hbytes] at hread ⊢
  change runFirst (fun b rest => if b = 45 || Numeral.isDigit b
    then (Numeral.read (b :: rest)).mapError NumeralError.toError
    else .error (mismatch expected b rest)) _ = _
  rw [runFirst_cons (notSpace_of_number hb).1, if_pos (by simpa using hb), hread]
  rfl

theorem Reads.filterMap {reader : Reader α} {text : List Char} {a : α} {b : β}
    {f : α → Except Error β} (h : reader.Reads text a) (hf : f a = .ok b) :
    (reader.filterMap f).Reads text b := by
  intro rest hrest
  rw [Reader.filterMap]
  dsimp only
  rw [h rest hrest]
  dsimp only
  rw [hf]

theorem isNumber_int64 (n : Int64) : IsNumber (integerText n.toInt)
    (if n.toInt < 0 then .negative n.toInt else .natural n.toInt.toNat) := by
  have hhigh := n.toInt_lt
  exact isNumber_integerText n.le_toInt (by unfold Numeral.significandMax; omega)

theorem reads_int64 (n : Int64) : int64.Reads (integerText n.toInt) n.toInt := by
  have hlow := n.le_toInt
  have hhigh := n.toInt_lt
  have hrange : integer.inRange (-0x8000000000000000) 0x7fffffffffffffff "i64" n.toInt
      = .ok n.toInt := if_pos (by simp; omega)
  refine (reads_numeral "i64" (isNumber_int64 n)).filterMap ?_
  by_cases hneg : n.toInt < 0
  · rw [if_pos hneg]
    exact hrange
  · rw [if_neg hneg]
    dsimp only
    rw [Int.toNat_of_nonneg (Int.not_lt.1 hneg)]
    exact hrange

theorem isNumber_natural {n : Nat} (h : n ≤ Numeral.significandMax) :
    IsNumber (integerText n) (.natural n) := by
  have hnumber := isNumber_integerText (n := n) (by omega) (by exact_mod_cast h)
  rwa [if_neg (by omega), Int.toNat_natCast] at hnumber

theorem reads_uint64 (expected : String) {n : Nat} (h : n ≤ Numeral.significandMax) :
    (uint64 expected).Reads (integerText n) n := by
  have hrange : integer.inRange 0 0xffffffffffffffff expected (n : Int) = .ok (n : Int) := by
    unfold Numeral.significandMax at h
    exact if_pos (by simp; omega)
  have hinteger : (integer 0 0xffffffffffffffff expected).Reads (integerText n) n :=
    (reads_numeral expected (isNumber_natural h)).filterMap hrange
  exact hinteger.map Int.toNat

theorem reads_boolean (b : Bool) : boolean.Reads (writeBool b) b := by
  intro rest _
  cases b with
  | false => rfl
  | true => rfl

theorem reads_float (negative : Bool) (m : Magnitude64) :
    float.Reads (floatText (.finite negative m)) (.finite negative (Numeral.reread m)) :=
  (reads_numeral "f64" (isNumber_floatText negative m)).map _

/-- The text of a value begins with neither a blank nor the first letter of null. -/
def Present (text : List Char) : Prop :=
  ∃ b more, encode text = b :: more ∧ isSpace b = false ∧ b ≠ 110

theorem present_of_isNumber {text : List Char} {n : Numeral} (h : IsNumber text n) :
    Present text := by
  have hread := h [] (by rintro b ⟨⟩)
  rw [List.append_nil] at hread
  obtain ⟨b, more, hbytes, hb⟩ := head_of_read hread
  exact ⟨b, more, hbytes, notSpace_of_number hb⟩

theorem reads_optional {reader : Reader α} {text : List Char} {a : α} (h : reader.Reads text a)
    (hpresent : Present text) : reader.optional.Reads text (some a) := by
  obtain ⟨b, more, hbytes, hspace, hnull⟩ := hpresent
  intro rest hrest
  have hread := h.map some rest hrest
  change reader.runOptional _ = _
  rw [hbytes, List.cons_append] at hread ⊢
  rw [runOptional, skipSpace_cons hspace]
  dsimp only
  rw [if_neg hnull, hread]

theorem present_writeString (s : String) : Present (writeString s) :=
  ⟨34, _, (List.append_nil _).symm.trans (encode_writeString s []), rfl, by decide⟩

theorem reads_null (reader : Reader α) : reader.optional.Reads ['n', 'u', 'l', 'l'] none := by
  intro rest _
  rfl

end Reader

/-- A member of a written object, with the field that its name stands for and the change that its
text makes to a record. -/
structure Member {σ : Type} (form : Form σ) where
  field : Field σ
  name : String := field.name
  text : List Char
  change : σ → σ
  found : form.field? name = some field
  reads : field.change.Reads text change

theorem nextMember_first (name : String) (rest : Bytes) :
    nextMember true (encode (writeString name) ++ rest) = .ok (some name, rest) := by
  rw [encode_writeString, nextMember, skipSpace_cons (b := 34) rfl]
  dsimp only
  rw [if_neg (by decide), if_pos rfl, if_pos rfl, nextMember.name, readString_writeString]

theorem nextMember_next (name : String) (rest : Bytes) :
    nextMember false (44 :: (encode (writeString name) ++ rest)) = .ok (some name, rest) := by
  rw [encode_writeString, nextMember, skipSpace_cons (b := 44) rfl]
  dsimp only
  rw [if_neg (by decide), if_neg (by decide), if_pos rfl, skipSpace_cons (b := 34) rfl]
  dsimp only
  rw [if_pos rfl, nextMember.name, readString_writeString]

namespace Form

variable {σ : Type} {form : Form σ}

/-- What is done with each member: a field takes its value, and any other value is passed over. -/
theorem readMembers_eq (first : Bool) (given : List String) (s : σ) (bytes : Bytes) :
    form.readMembers first given s bytes = match nextMember first bytes with
      | .error e => .error e
      | .ok (none, rest) => .ok ((given, s), rest)
      | .ok (some name, rest) => match form.field? name with
        | none => match readColon rest with
          | .error e => .error e
          | .ok value => match skipValue value with
            | .error e => .error e
            | .ok after => form.readMembers false given s after
        | some field =>
          if given.contains field.name then .error (.duplicateField field.name)
          else match readColon rest with
            | .error e => .error e
            | .ok value => match field.change.run value with
              | .error e => .error e
              | .ok (change, after) =>
                form.readMembers false (field.name :: given) (change s) after := by
  rw [readMembers]
  dsimp only
  split <;> rename_i hnext <;> rw [hnext]
  rename_i name rest
  dsimp only
  cases form.field? name with
  | none =>
    dsimp only
    split <;> rename_i hcolon <;> rw [hcolon]
    dsimp only
    split <;> rename_i hvalue <;> rw [hvalue]
  | some field =>
    dsimp only
    split
    · rfl
    · split <;> rename_i hcolon <;> rw [hcolon]
      dsimp only
      split <;> rename_i hvalue <;> rw [hvalue]

theorem readMembers_member (member : Member form) {first : Bool} {given : List String} {s : σ}
    {bytes after : Bytes} (hnew : given.contains member.field.name = false)
    (hafter : Numeral.EndsNumber after)
    (hnext : nextMember first bytes
      = .ok (some member.name, 58 :: (encode member.text ++ after))) :
    form.readMembers first given s bytes
      = form.readMembers false (member.field.name :: given) (member.change s) after := by
  have hcolon : readColon (58 :: (encode member.text ++ after))
      = .ok (encode member.text ++ after) := rfl
  rw [readMembers_eq, hnext]
  dsimp only
  rw [member.found]
  dsimp only
  rw [if_neg (by rw [hnew]; decide), hcolon]
  dsimp only
  rw [member.reads after hafter]

theorem readMembers_end (first : Bool) (given : List String) (s : σ) (rest : Bytes) :
    form.readMembers first given s (125 :: rest) = .ok ((given, s), rest) := by
  rw [readMembers]
  rfl

theorem encode_writeMember (name : String) (text : List Char) (rest : Bytes) :
    encode (writeMember name text) ++ rest
      = encode (writeString name) ++ 58 :: (encode text ++ rest) := by
  rw [writeMember, encode_append, List.append_assoc]
  rfl

/-- The members after the first one, each behind its comma, and the closing brace. -/
def tail (members : List (Member form)) (rest : Bytes) : Bytes :=
  encode (members.flatMap fun m => ',' :: writeMember m.name m.text) ++ 125 :: rest

theorem tail_cons (m : Member form) (members : List (Member form)) (rest : Bytes) :
    tail (m :: members) rest
      = 44 :: (encode (writeString m.name) ++ 58 :: (encode m.text ++ tail members rest)) := by
  rw [tail, List.flatMap_cons, encode_append, List.append_assoc, ← encode_writeMember]
  rfl

theorem endsNumber_tail (members : List (Member form)) (rest : Bytes) :
    Numeral.EndsNumber (tail members rest) := by
  cases members with
  | nil =>
    rintro b ⟨⟩
    decide
  | cons m members =>
    rw [tail_cons]
    rintro b ⟨⟩
    decide

theorem readMembers_tail {members : List (Member form)} {given : List String} (s : σ)
    (hnodup : ((members.map (·.field.name)).reverse ++ given).Nodup) (rest : Bytes) :
    form.readMembers false given s (tail members rest)
      = .ok (((members.map (·.field.name)).reverse ++ given,
          members.foldl (fun s m => m.change s) s), rest) := by
  induction members generalizing given s with
  | nil => exact readMembers_end false given s rest
  | cons m members ih =>
    rw [List.map_cons, List.reverse_cons, List.append_assoc, List.singleton_append] at hnodup ⊢
    have hnew : given.contains m.field.name = false := by
      have hcons := (List.nodup_append.1 hnodup).2.1
      have hnotin := (List.nodup_cons.1 hcons).1
      rwa [← Bool.not_eq_true, List.contains_iff_mem]
    rw [tail_cons, readMembers_member m hnew (endsNumber_tail members rest) (nextMember_next _ _),
      ih (m.change s) hnodup, List.foldl_cons]

theorem withCommas_cons (part : List Char) (parts : List (List Char)) :
    withCommas (part :: parts) = part ++ parts.flatMap fun other => ',' :: other := by
  induction parts generalizing part with
  | nil => rw [withCommas, List.flatMap_nil, List.append_nil]
  | cons other parts ih =>
    change part ++ ',' :: withCommas (other :: parts) = _
    rw [ih, List.flatMap_cons, List.cons_append]

/-- An object is read when its members are read, none of them twice and every required one given. -/
theorem reads_object {members : List (Member form)} (hsome : members ≠ [])
    (hnodup : (members.map (·.field.name)).Nodup)
    (hgiven : form.missing? (members.map (·.field.name)).reverse = none) :
    form.reader.Reads (writeObject (members.map fun m => writeMember m.name m.text))
      (members.foldl (fun s m => m.change s) form.start) := by
  intro rest _
  cases members with
  | nil => exact absurd rfl hsome
  | cons m members =>
    have hbytes : encode (writeObject ((m :: members).map fun m =>
        writeMember m.name m.text)) ++ rest
        = 123 :: (encode (writeString m.name) ++ 58 :: (encode m.text ++ tail members rest)) := by
      rw [writeObject, List.map_cons, withCommas_cons, List.flatMap_map, ← encode_writeMember, tail,
        List.append_assoc, encode_cons, encode_append, encode_append, List.append_assoc,
        List.append_assoc, List.append_assoc]
      rfl
    have hread : form.readMembers true [] form.start
        (encode (writeString m.name) ++ 58 :: (encode m.text ++ tail members rest))
        = .ok ((((m :: members).map (·.field.name)).reverse,
          (m :: members).foldl (fun s m => m.change s) form.start), rest) := by
      rw [List.map_cons, List.nodup_cons] at hnodup
      have hrest : ((members.map (·.field.name)).reverse ++ [m.field.name]).Nodup := by
        rw [List.nodup_append, List.nodup_reverse]
        refine ⟨hnodup.2, List.nodup_singleton _, ?_⟩
        intro a ha b hb
        rw [List.mem_singleton.1 hb]
        rintro rfl
        exact hnodup.1 (List.mem_reverse.1 ha)
      rw [readMembers_member m rfl (endsNumber_tail members rest) (nextMember_first _ _),
        readMembers_tail (m.change form.start) hrest, List.map_cons, List.reverse_cons,
        List.foldl_cons]
    have hrun (bytes : Bytes) : form.reader.run bytes = Reader.runFirst (fun b rest =>
        if b = 91 then form.readList rest
        else if b = 123 then form.readObject rest
        else .error (mismatch form.title b rest)) bytes := rfl
    rw [hbytes, hrun, runFirst_cons (b := 123) rfl, if_neg (by decide), if_pos rfl, readObject, hread]
    dsimp only
    rw [hgiven]

end Form

end Telemetry.Json
