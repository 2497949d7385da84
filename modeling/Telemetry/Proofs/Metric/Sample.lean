import Telemetry.Metric.Sample
import Telemetry.Proofs.Json.Fields

/-!
# Samples read back

The document of a sample is read back as the sample, whatever its name and its numbers, except that a
number comes back as its reader assembles it and a number that is not finite is left out.
-/

namespace Telemetry

open Number Json

/-- What the reader makes of the text of a number. -/
def Number.Binary64.reread? : Binary64 → Option Binary64
  | .finite negative m => some (.finite negative (Numeral.reread m))
  | _ => none

theorem Kind.reads_name (kind : Kind) : Kind.reader.Reads (writeString kind.name) kind := by
  intro rest _
  have hrun (bytes : Bytes) : Kind.reader.run bytes = Reader.runFirst (fun b rest =>
      if b = 123 then Kind.readMember rest
      else if b = 34 then Kind.readName rest
      else .error .expectedValue) bytes := rfl
  rw [encode_writeString, hrun, runFirst_cons (b := 34) rfl, if_neg (by decide), if_pos rfl,
    Kind.readName, readString_writeString]
  dsimp only
  rw [Kind.ofName?_name]

namespace Sample

/-- The sample that the reader makes of the document of a sample. -/
def reread (sample : Sample) : Sample :=
  { sample with value := sample.value.bind Binary64.reread? }

theorem reads_value (x : Binary64) : Reader.float.optional.Reads (floatText x) x.reread? := by
  cases x with
  | nan => exact Reader.reads_null Reader.float
  | infinite => exact Reader.reads_null Reader.float
  | finite negative m =>
    exact Reader.reads_optional (Reader.reads_float negative m)
      (Reader.present_of_isNumber (isNumber_floatText negative m))

def idMember (id : String) : Member form where
  field := ⟨"id", [], true, (Reader.text "a string").map fun id sample => { sample with id }⟩
  text := writeString id
  change sample := { sample with id }
  found := rfl
  reads := (Reader.reads_text "a string" id).map _

def kindMember (kind : Kind) : Member form where
  field := ⟨"type", [], true, Kind.reader.map fun kind sample => { sample with kind }⟩
  text := writeString kind.name
  change sample := { sample with kind }
  found := rfl
  reads := kind.reads_name.map _

def deltaMember (n : Int64) : Member form where
  field := ⟨"delta", [], false, Json.Reader.int64.optional.map fun delta sample =>
    { sample with delta := delta.map Int64.ofInt }⟩
  text := integerText n.toInt
  change sample := { sample with delta := some (Int64.ofInt n.toInt) }
  found := rfl
  reads := (Reader.reads_optional (Reader.reads_int64 n)
    (Reader.present_of_isNumber (Reader.isNumber_int64 n))).map _

def valueMember (x : Binary64) : Member form where
  field := ⟨"value", [], false, Json.Reader.float.optional.map fun value sample =>
    { sample with value }⟩
  text := floatText x
  change sample := { sample with value := x.reread? }
  found := rfl
  reads := (reads_value x).map _

def members (sample : Sample) : List (Member form) :=
  [idMember sample.id, kindMember sample.kind] ++ sample.delta.toList.map deltaMember
    ++ sample.value.toList.map valueMember

theorem write_eq (sample : Sample) :
    sample.write = writeObject (sample.members.map fun m => writeMember m.name m.text) := by
  obtain ⟨id, kind, delta, value⟩ := sample
  cases delta <;> cases value <;> rfl

theorem foldl_members (sample : Sample) :
    sample.members.foldl (fun s m => m.change s) form.start = sample.reread := by
  obtain ⟨id, kind, delta, value⟩ := sample
  have hint (n : Int64) : Int64.ofInt n.toInt = n := Int64.ofInt_toInt n
  cases delta with
  | none => cases value <;> rfl
  | some n =>
    cases value with
    | none => exact congrArg (fun n => Sample.mk id kind (some n) none) (hint n)
    | some x => exact congrArg (fun n => Sample.mk id kind (some n) x.reread?) (hint n)

/-- The document of a sample is read back, whatever follows it. -/
theorem reads_sample (sample : Sample) : reader.Reads sample.write sample.reread := by
  rw [write_eq, ← foldl_members]
  refine Form.reads_object (List.cons_ne_nil _ _) ?_ ?_
  · obtain ⟨id, kind, delta, value⟩ := sample
    cases delta <;> cases value <;> simp [members, idMember, kindMember, deltaMember, valueMember]
  · obtain ⟨id, kind, delta, value⟩ := sample
    cases delta <;> cases value <;> rfl

theorem toBytes_eq (sample : Sample) : sample.toBytes = Bytes.encode sample.write :=
  Bytes.ofString_ofList sample.write

theorem ofBytes_toBytes (sample : Sample) : ofBytes sample.toBytes = .ok sample.reread := by
  rw [ofBytes, toBytes_eq, (reads_sample sample).document]
  rfl

end Sample

def Value.reread : Value → Value
  | .gauge (.finite negative m) => .gauge (.finite negative (Numeral.reread m))
  | value => value

def Record.reread (record : Record) : Record := { record with value := record.value.reread }

namespace Sample

theorem toRecord_reread {record : Record} (hname : record.name ≠ "")
    (hfinite : record.value.isFinite = true) :
    (ofRecord record).reread.toRecord = .ok record.reread := by
  obtain ⟨name, value⟩ := record
  cases value with
  | counter n => exact if_neg hname
  | gauge x =>
    cases x with
    | finite negative m => exact if_neg hname
    | nan => cases hfinite
    | infinite => cases hfinite

/-- The document of a record describes the record again. -/
theorem toRecord_ofBytes {record : Record} (hname : record.name ≠ "")
    (hfinite : record.value.isFinite = true) :
    (ofBytes (ofRecord record).toBytes).bind toRecord = .ok record.reread := by
  rw [ofBytes_toBytes]
  exact toRecord_reread hname hfinite

/-- A gauge comes back under its name, with its sign and with the magnitude that the reader assembles
from the digits that were written: the same magnitude whenever these digits and their power of ten
are exact, and, where the power takes one step, exactly when the scaled digits, each part rounded,
stay in its interval. -/
theorem gauge_ofBytes {name : String} (hname : name ≠ "") (negative : Bool) (m : Magnitude64) :
    ∃ y : Magnitude64,
      (ofBytes (ofRecord ⟨name, .gauge (.finite negative m)⟩).toBytes).bind toRecord
        = .ok ⟨name, .gauge (.finite negative y)⟩ ∧
      Numeral.assembled? (Numeral.written m) = some y ∧
      ((Numeral.written m).digits < 2 ^ 53 → (Numeral.written m).exponent.natAbs ≤ 22 → y = m) ∧
      ∀ digits power : Magnitude64, (Numeral.written m).exponent.natAbs ≤ Numeral.greatestPower →
        Magnitude64.ofNat? (Numeral.written m).digits = some digits →
        Magnitude64.ofDecimal? 1 (Numeral.written m).exponent.natAbs = some power →
        (y = m ↔ (Shortest.interval m).Holds (if 0 ≤ (Numeral.written m).exponent
          then digits.units * power.units / Magnitude64.unitsPerOne
          else digits.units * Magnitude64.unitsPerOne / power.units)) :=
  ⟨Numeral.reread m, toRecord_ofBytes hname rfl, Numeral.assembled?_written m,
    Numeral.reread_eq_self, fun _ _ => Numeral.reread_eq_iff⟩

def shortGauge : Magnitude64 := ⟨7036874417766400, 1025, by decide⟩

theorem gauge_ofBytes_short :
    (ofBytes (ofRecord ⟨"a", .gauge (.finite false shortGauge)⟩).toBytes).bind toRecord
      = .ok ⟨"a", .gauge (.finite false shortGauge)⟩ := by
  have hname : "a" ≠ "" := by decide
  obtain ⟨y, hread, -, hexact, -⟩ := gauge_ofBytes hname false shortGauge
  rw [hread, hexact (by decide +kernel) (by decide +kernel)]

/-- The largest odd number with 53 binary digits. It is written with its sixteen digits and a
fraction, which is one digit more than a significand holds, and comes back as its even neighbour. -/
def largestOdd : Magnitude64 := ⟨2 ^ 53 - 1, 1074, by decide⟩

theorem reread_largestOdd : Numeral.reread largestOdd ≠ largestOdd := by
  have hread : Numeral.assembled? (Numeral.written largestOdd)
      = some ⟨2 ^ 53 - 2, 1074, by decide⟩ := by decide +kernel
  intro heq
  have hsame := Numeral.assembled?_written largestOdd
  rw [heq, hread] at hsame
  exact absurd (congrArg Magnitude.significand (Option.some.inj hsame)) (by decide)

theorem gauge_changed_by_document :
    (ofBytes (ofRecord ⟨"a", .gauge (.finite false largestOdd)⟩).toBytes).bind toRecord
      ≠ .ok ⟨"a", .gauge (.finite false largestOdd)⟩ := by
  rw [toRecord_ofBytes (by decide) rfl]
  intro heq
  simp only [Record.reread, Value.reread, Except.ok.injEq, Record.mk.injEq, Value.gauge.injEq,
    Binary64.finite.injEq, true_and] at heq
  exact reread_largestOdd heq

end Sample

end Telemetry
