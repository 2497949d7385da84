import Telemetry.Proofs.Json.Fields

/-!
# Lists read back

A list is read as soon as each of its elements is, however many there are. An element must not begin
like the end of a list; what may follow it is a comma or the closing bracket, neither of which goes on
with a number.
-/

namespace Telemetry.Json

open Telemetry.Number Bytes

/-- The text of a value begins with neither a blank nor the closing bracket of a list. -/
def Starts (text : List Char) : Prop :=
  ∃ b more, encode text = b :: more ∧ isSpace b = false ∧ b ≠ 93

theorem nextElement_first {text : List Char} (h : Starts text) (rest : Bytes) :
    nextElement true (encode text ++ rest) = .ok (true, encode text ++ rest) := by
  obtain ⟨b, more, hbytes, hspace, hopen⟩ := h
  rw [hbytes, List.cons_append, nextElement, skipSpace_cons hspace]
  dsimp only
  rw [if_neg hopen, if_pos rfl]

theorem nextElement_next {text : List Char} (h : Starts text) (rest : Bytes) :
    nextElement false (44 :: (encode text ++ rest)) = .ok (true, encode text ++ rest) := by
  obtain ⟨b, more, hbytes, hspace, hopen⟩ := h
  rw [hbytes, List.cons_append, nextElement, skipSpace_cons (b := 44) rfl]
  dsimp only
  rw [if_neg (by decide), if_neg (by decide), if_pos rfl, skipSpace_cons hspace]
  dsimp only
  rw [if_neg hopen]

namespace Reader

variable {α β : Type} {element : Reader α} {write : β → List Char} {back : β → α}

theorem readElements_element {first : Bool} {acc : List α} {a : α} {bytes rest after : Bytes}
    (hnext : nextElement first bytes = .ok (true, rest)) (hread : element.run rest = .ok (a, after)) :
    readElements element first acc bytes = readElements element false (a :: acc) after := by
  rw [readElements]
  split
  · rename_i hother
    cases hnext.symm.trans hother
  · rename_i hother
    cases hnext.symm.trans hother
  · rename_i hother
    cases hnext.symm.trans hother
    split
    · rename_i hvalue
      cases hread.symm.trans hvalue
    · rename_i hvalue
      cases hread.symm.trans hvalue
      rfl

theorem readElements_end (element : Reader α) (first : Bool) (acc : List α) (rest : Bytes) :
    readElements element first acc (93 :: rest) = .ok (acc.reverse, rest) := by
  rw [readElements]
  rfl

/-- The elements after the first one, each behind its comma, and the closing bracket. -/
def elements (texts : List (List Char)) (rest : Bytes) : Bytes :=
  encode (texts.flatMap fun text => ',' :: text) ++ 93 :: rest

theorem elements_cons (text : List Char) (texts : List (List Char)) (rest : Bytes) :
    elements (text :: texts) rest = 44 :: (encode text ++ elements texts rest) := by
  rw [elements, List.flatMap_cons, encode_append, List.append_assoc]
  rfl

theorem endsNumber_elements (texts : List (List Char)) (rest : Bytes) :
    Numeral.EndsNumber (elements texts rest) := by
  cases texts with
  | nil =>
    intro b hb
    cases hb
    decide
  | cons text texts =>
    rw [elements_cons]
    intro b hb
    cases hb
    decide

theorem readElements_written (hreads : ∀ x, element.Reads (write x) (back x))
    (hstarts : ∀ x, Starts (write x)) (xs : List β) (acc : List α) (rest : Bytes) :
    readElements element false acc (elements (xs.map write) rest)
      = .ok (acc.reverse ++ xs.map back, rest) := by
  induction xs generalizing acc with
  | nil =>
    rw [List.map_nil, List.map_nil, List.append_nil]
    exact readElements_end element false acc rest
  | cons x xs ih =>
    have hread := hreads x _ (endsNumber_elements (xs.map write) rest)
    rw [List.map_cons, elements_cons, readElements_element (nextElement_next (hstarts x) _) hread, ih,
      List.reverse_cons, List.append_assoc, List.map_cons, List.singleton_append]

theorem reads_list (hreads : ∀ x, element.Reads (write x) (back x))
    (hstarts : ∀ x, Starts (write x)) (xs : List β) :
    element.list.Reads (writeList (xs.map write)) (xs.map back) := by
  intro rest _
  have hrun (bytes : Bytes) : element.list.run bytes = runFirst (fun b rest =>
      if b = 91 then readElements element true [] rest
      else .error (mismatch "a sequence" b rest)) bytes := rfl
  have hbytes : encode (writeList (xs.map write)) ++ rest
      = 91 :: (encode (withCommas (xs.map write)) ++ 93 :: rest) := by
    rw [writeList, encode_cons, encode_append, List.append_assoc, List.append_assoc]
    rfl
  rw [hbytes, hrun, runFirst_cons (b := 91) rfl, if_pos rfl]
  cases xs with
  | nil => exact readElements_end element true [] rest
  | cons x xs =>
    have hlater : encode (withCommas ((x :: xs).map write)) ++ 93 :: rest
        = encode (write x) ++ elements (xs.map write) rest := by
      rw [List.map_cons, Form.withCommas_cons, encode_append, List.append_assoc]
      rfl
    have hread := hreads x _ (endsNumber_elements (xs.map write) rest)
    rw [hlater, readElements_element (nextElement_first (hstarts x) _) hread,
      readElements_written hreads hstarts]
    rfl

end Reader

end Telemetry.Json
