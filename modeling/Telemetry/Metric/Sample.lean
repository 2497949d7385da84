import Telemetry.Metric.Record
import Telemetry.Json.Fields
import Telemetry.Json.Writer

/-!
# Samples

A sample is a metric as it travels: in requests, in batches and in snapshot files. A counter carries
a delta and a gauge a value; a query carries neither. A sample is written as one compact document
whose fields have a fixed order, and the absent ones are left out.
-/

namespace Telemetry

open Number

/-- A metric as it travels. -/
structure Sample where
  id : String
  kind : Kind
  delta : Option Int64
  value : Option Binary64
deriving DecidableEq

namespace Sample

def gauge (id : String) (x : Binary64) : Sample := ⟨id, .gauge, none, some x⟩

def counter (id : String) (delta : Int64) : Sample := ⟨id, .counter, some delta, none⟩

def ofRecord (record : Record) : Sample :=
  match record.value with
  | .gauge x => gauge record.name x
  | .counter n => counter record.name n

/-- The value that the sample carries for its kind. -/
def content (sample : Sample) : Except Failure Value :=
  match sample.kind, sample.delta, sample.value with
  | .counter, some delta, _ => .ok (.counter delta)
  | .gauge, _, some x => (finiteGauge x).map .gauge
  | kind, _, _ => .error (.invalidMetric (kind.name ++ " " ++ sample.id ++ " carries no value"))

/-- The record that the sample describes, if it has a name and a value for its kind. -/
def toRecord (sample : Sample) : Except Failure Record :=
  if sample.id = "" then .error (.invalidMetric "metric name is empty")
  else sample.content.map fun value => ⟨sample.id, value⟩

/-- Whether the sample can be applied to a store. -/
def validate (sample : Sample) : Except Failure Unit := sample.toRecord.map fun _ => ()

/-- The document of a sample. -/
def write (sample : Sample) : List Char :=
  Json.writeObject <|
    [Json.writeMember "id" (Json.writeString sample.id),
      Json.writeMember "type" (Json.writeString sample.kind.name)]
    ++ (sample.delta.toList.map fun n => Json.writeMember "delta" (integerText n.toInt))
    ++ (sample.value.toList.map fun x => Json.writeMember "value" (Json.floatText x))

def toText (sample : Sample) : String := String.ofList sample.write

def toBytes (sample : Sample) : Bytes := Bytes.ofString sample.toText

def listToBytes (samples : List Sample) : Bytes :=
  Bytes.ofString (String.ofList (Json.writeList (samples.map write)))

end Sample

/-- The kind that an open kind object names: its only member has the name and the value null. -/
def Kind.readMember (bytes : Bytes) : Json.Result Kind :=
  match (Json.Reader.text "variant identifier").run bytes with
  | .error e => .error e
  | .ok (name, rest) => match Kind.ofName? name with
    | none => .error (.unknownVariant name)
    | some kind => match Json.readColon rest with
      | .error e => .error e
      | .ok rest => match Json.Reader.unit.run rest with
        | .error e => .error e
        | .ok ((), rest) => match Json.skipSpace rest with
          | [] => .error .endsInObject
          | b :: rest => if b = 125 then .ok (kind, rest) else .error .expectedValue

/-- The kind whose name an open string holds. -/
def Kind.readName (bytes : Bytes) : Json.Result Kind :=
  match Json.readString bytes with
  | .error e => .error e
  | .ok (name, rest) => match Kind.ofName? name with
    | none => .error (.unknownVariant name)
    | some kind => .ok (kind, rest)

theorem Kind.readMember_length {bytes rest : Bytes} {kind : Kind}
    (h : Kind.readMember bytes = .ok (kind, rest)) : rest.length < bytes.length := by
  unfold Kind.readMember at h
  split at h
  · simp at h
  · rename_i hname
    have := Json.Reader.shrinks _ hname
    split at h
    · simp at h
    · split at h
      · simp at h
      · rename_i hcolon
        have := Json.readColon_length hcolon
        split at h
        · simp at h
        · rename_i tail hunit
          have := Json.Reader.shrinks _ hunit
          have space := Json.skipSpace_length tail
          split at h
          · simp at h
          · rename_i heq
            rw [heq, List.length_cons] at space
            split at h
            · cases h; omega
            · simp at h

theorem Kind.readName_length {bytes rest : Bytes} {kind : Kind}
    (h : Kind.readName bytes = .ok (kind, rest)) : rest.length < bytes.length := by
  unfold Kind.readName at h
  split at h
  · simp at h
  · rename_i hname
    have := Json.readString_length hname
    split at h
    · simp at h
    · cases h; omega

/-- A kind: its name, or an object with the name and null. -/
def Kind.reader : Json.Reader Kind :=
  Json.Reader.ofFirst (fun b rest =>
    if b = 123 then Kind.readMember rest
    else if b = 34 then Kind.readName rest
    else .error .expectedValue) <| by
    intro b bytes rest kind h
    split at h
    · exact Nat.le_of_lt (Kind.readMember_length h)
    · split at h
      · exact Nat.le_of_lt (Kind.readName_length h)
      · simp at h

namespace Sample

/-- The fields of a sample in documents. What a record starts with is never seen, since the name and
the kind are required. -/
def form : Json.Form Sample where
  title := "struct Metrics"
  start := ⟨"", .gauge, none, none⟩
  fields := [
    ⟨"id", [], true, (Json.Reader.text "a string").map fun id sample => { sample with id }⟩,
    ⟨"type", [], true, Kind.reader.map fun kind sample => { sample with kind }⟩,
    ⟨"delta", [], false, Json.Reader.int64.optional.map fun delta sample =>
      { sample with delta := delta.map Int64.ofInt }⟩,
    ⟨"value", [], false, Json.Reader.float.optional.map fun value sample => { sample with value }⟩]

def reader : Json.Reader Sample := form.reader

def ofBytes (bytes : Bytes) : Except Failure Sample :=
  (reader.document bytes).mapError .serialization

def listOfBytes (bytes : Bytes) : Except Failure (List Sample) :=
  (reader.list.document bytes).mapError .serialization

end Sample

end Telemetry
