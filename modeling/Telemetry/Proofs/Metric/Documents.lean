import Telemetry.Proofs.Json.Lists
import Telemetry.Proofs.Metric.Sample

/-!
# What comes back from documents of samples

A sample is sent by itself or among others in a list. Either way its name, its kind and its delta come
back as they were. Only its value can change: a number that is not finite is written as nothing a
number is read from, and a finite one is written with digits, from which the reader makes a finite
number that need not be the same. So a sample can be applied after it was sent exactly when it could
be applied before.
-/

namespace Telemetry

open Number Json

namespace Number.Binary64

theorem float_document {x : Binary64} (h : x.isFinite = true) :
    ∃ y, x.reread? = some y ∧ y.isFinite = true ∧
      Reader.float.document (Bytes.ofString (String.ofList (floatText x))) = .ok y := by
  cases x with
  | nan => cases h
  | infinite => cases h
  | finite negative m =>
    refine ⟨.finite negative (Numeral.reread m), rfl, rfl, ?_⟩
    rw [Bytes.ofString_ofList, (Reader.reads_float negative m).document]

theorem reread?_of_not_finite {x : Binary64} (h : x.isFinite = false) : x.reread? = none := by
  cases x with
  | nan => rfl
  | infinite => rfl
  | finite => cases h

end Number.Binary64

namespace Sample

/-- What the document of a sample keeps. -/
structure ComesBackAs (sample back : Sample) : Prop where
  id : back.id = sample.id
  kind : back.kind = sample.kind
  delta : back.delta = sample.delta
  finite {x : Binary64} (h : sample.value = some x) (hx : x.isFinite = true) :
    ∃ y, back.value = some y ∧ y.isFinite = true ∧
      Reader.float.document (Bytes.ofString (String.ofList (floatText x))) = .ok y
  absent (h : ∀ x, sample.value = some x → x.isFinite = false) : back.value = none
  content : (∃ value, back.content = .ok value) ↔ ∃ value, sample.content = .ok value
  validate : back.validate = .ok () ↔ sample.validate = .ok ()

/-- Only the value can come back changed. -/
theorem ComesBackAs.eq {sample back : Sample} (h : sample.ComesBackAs back) :
    back = { sample with value := back.value } := by
  obtain ⟨id, kind, delta, value⟩ := back
  cases h.id
  cases h.kind
  cases h.delta
  rfl

/-- A sample carries a value for its kind if its kind's field is there, and finite if it is a gauge. -/
theorem content_ok_iff (sample : Sample) :
    (∃ value, sample.content = .ok value) ↔
      match sample.kind with
      | .counter => sample.delta ≠ none
      | .gauge => ∃ x, sample.value = some x ∧ x.isFinite = true := by
  obtain ⟨id, kind, delta, value⟩ := sample
  cases kind with
  | counter => cases delta <;> simp [content]
  | gauge =>
    cases value with
    | none => simp [content]
    | some x => cases hx : x.isFinite <;> simp [content, finiteGauge, hx, Except.map]

theorem validate_ok_iff (sample : Sample) :
    sample.validate = .ok () ↔ sample.id ≠ "" ∧ ∃ value, sample.content = .ok value := by
  rw [validate, toRecord]
  by_cases hid : sample.id = ""
  · simp [hid, Except.map]
  · cases hcontent : sample.content <;> simp [hid, Except.map]

theorem reread_value_finite_iff (sample : Sample) :
    (∃ x, sample.reread.value = some x ∧ x.isFinite = true) ↔
      ∃ x, sample.value = some x ∧ x.isFinite = true := by
  obtain ⟨id, kind, delta, value⟩ := sample
  cases value with
  | none => exact Iff.rfl
  | some x =>
    show (∃ y, x.reread? = some y ∧ y.isFinite = true) ↔ _
    cases hx : x.isFinite with
    | false => simp [Binary64.reread?_of_not_finite hx, hx]
    | true =>
      obtain ⟨y, hy, hfinite, -⟩ := Binary64.float_document hx
      simp [hy, hfinite, hx]

theorem comesBackAs_reread (sample : Sample) : sample.ComesBackAs sample.reread := by
  have hcontent : (∃ value, sample.reread.content = .ok value) ↔
      ∃ value, sample.content = .ok value := by
    rw [content_ok_iff, content_ok_iff]
    show (match sample.kind with | .counter => sample.delta ≠ none | .gauge => _) ↔ _
    cases sample.kind with
    | counter => exact Iff.rfl
    | gauge => exact sample.reread_value_finite_iff
  refine ⟨rfl, rfl, rfl, ?finite, ?absent, hcontent, ?validate⟩
  case finite =>
    intro x h hx
    obtain ⟨y, hy, hread⟩ := Binary64.float_document hx
    exact ⟨y, by rw [reread, h, ← hy]; rfl, hread⟩
  case absent =>
    intro h
    cases hvalue : sample.value with
    | none => rw [reread, hvalue]; rfl
    | some x => rw [reread, hvalue]; exact Binary64.reread?_of_not_finite (h x hvalue)
  case validate =>
    rw [validate_ok_iff, validate_ok_iff, hcontent]
    rfl

theorem starts_write (sample : Sample) : Starts sample.write := by
  rw [write_eq, writeObject]
  exact ⟨123, _, rfl, rfl, by decide⟩

theorem listOfBytes_listToBytes (samples : List Sample) :
    listOfBytes (listToBytes samples) = .ok (samples.map reread) := by
  have hread := Reader.reads_list reads_sample starts_write samples
  rw [listOfBytes, listToBytes, Bytes.ofString_ofList, hread.document]
  rfl

theorem forall₂_comesBackAs (samples : List Sample) :
    List.Forall₂ ComesBackAs samples (samples.map reread) :=
  List.forall₂_map_right_iff.2 (List.forall₂_same.2 fun sample _ => comesBackAs_reread sample)

/-- Every sample comes back from its own document, and all samples of a list, however many, come back
from the document of the list in their order. -/
theorem documents_come_back (sample : Sample) (samples : List Sample) :
    (∃ back, ofBytes sample.toBytes = .ok back ∧ sample.ComesBackAs back) ∧
      ∃ backs, listOfBytes (listToBytes samples) = .ok backs ∧
        List.Forall₂ ComesBackAs samples backs :=
  ⟨⟨sample.reread, ofBytes_toBytes sample, comesBackAs_reread sample⟩,
    ⟨samples.map reread, listOfBytes_listToBytes samples, forall₂_comesBackAs samples⟩⟩

/-- A counter whose name has a control character, a quote and a character of four bytes, and whose value
is not a number; a gauge; and a query that carries nothing. -/
theorem documents_come_back_unusual :
    let unusual : Sample := ⟨"\x01\"😀", .counter, some (-5), some .nan⟩
    let short : Sample := .gauge "b" (.finite false shortGauge)
    let query : Sample := ⟨"", .gauge, none, none⟩
    unusual.toText = "\x7b\"id\":\"\\u0001\\\"😀\",\"type\":\"counter\",\"delta\":-5,\"value\":null\x7d" ∧
      ofBytes unusual.toBytes = .ok { unusual with value := none } ∧
      listOfBytes (listToBytes [short, query, unusual])
        = .ok [short, query, { unusual with value := none }] := by
  intro unusual short query
  have hunusual {back : Sample} (h : unusual.ComesBackAs back) :
      back = { unusual with value := none } := by
    have hvalue : back.value = none := h.absent fun x hx => by cases hx; rfl
    rw [h.eq, hvalue]
  have hquery {back : Sample} (h : query.ComesBackAs back) : back = query := by
    have hvalue : back.value = none := h.absent nofun
    rw [h.eq, hvalue]
  have hshort {back : Sample} (h : short.ComesBackAs back) : back = short := by
    obtain ⟨y, hvalue, -, hread⟩ := h.finite rfl rfl
    have hexact : Reader.float.document (Bytes.ofString (String.ofList
        (floatText (.finite false shortGauge)))) = .ok (.finite false shortGauge) := by decide +kernel
    cases hread.symm.trans hexact
    rw [h.eq, hvalue]
    rfl
  obtain ⟨⟨back, hread, hback⟩, backs, hlist, hbacks⟩ :=
    documents_come_back unusual [short, query, unusual]
  refine ⟨by decide +kernel, hread.trans (congrArg _ (hunusual hback)), ?_⟩
  obtain ⟨first, others, hfirst, hothers, rfl⟩ := List.forall₂_cons_left_iff.1 hbacks
  obtain ⟨second, last, hsecond, hlast, rfl⟩ := List.forall₂_cons_left_iff.1 hothers
  obtain ⟨third, none, hthird, hnone, rfl⟩ := List.forall₂_cons_left_iff.1 hlast
  rw [hlist, hshort hfirst, hquery hsecond, hunusual hthird, List.forall₂_nil_left_iff.1 hnone]

end Sample

end Telemetry
