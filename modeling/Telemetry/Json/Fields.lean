import Telemetry.Json.Reader

/-!
# Records in documents

A record is written as an object whose members may come in any order, or as a list of its values in
the order of its fields. In an object, unknown members are passed over and no field may be given
twice. A field that is not required keeps the value it starts with.
-/

namespace Telemetry.Json

/-- A field of a record, known by its name or one of its other names. -/
structure Field (σ : Type) where
  name : String
  aliases : List String
  required : Bool
  change : Reader (σ → σ)

/-- How a record is read: what faults call it, what it starts as, and its fields in order. -/
structure Form (σ : Type) where
  title : String
  start : σ
  fields : List (Field σ)

namespace Form

variable {σ : Type}

def field? (form : Form σ) (name : String) : Option (Field σ) :=
  form.fields.find? fun field => field.name == name || field.aliases.contains name

/-- The first required field that was not given. -/
def missing? (form : Form σ) (given : List String) : Option (Field σ) :=
  form.fields.find? fun field => field.required && !given.contains field.name

end Form

/-- The name of the next member of an object, or none at the closing brace, and the bytes after it.
The first member needs no comma. -/
def nextMember (first : Bool) (bytes : Bytes) : Result (Option String) :=
  match skipSpace bytes with
  | [] => .error .endsInObject
  | b :: rest =>
    if b = 125 then .ok (none, rest)
    else if first then
      if b = 34 then name rest else .error .keyNotString
    else if b = 44 then
      match skipSpace rest with
      | [] => .error .endsInValue
      | c :: more =>
        if c = 34 then name more
        else .error (if c = 125 then .trailingComma else .keyNotString)
    else .error .expectedObjectCommaOrEnd
where
  name (bytes : Bytes) : Result (Option String) :=
    match readString bytes with
    | .error e => .error e
    | .ok (s, rest) => .ok (some s, rest)

def readColon (bytes : Bytes) : Except Error Bytes :=
  match skipSpace bytes with
  | [] => .error .endsInObject
  | b :: rest => if b = 58 then .ok rest else .error .expectedColon

theorem readColon_length {bytes rest : Bytes} (h : readColon bytes = .ok rest) :
    rest.length < bytes.length := by
  unfold readColon at h
  have space := skipSpace_length bytes
  split at h
  · simp at h
  · rename_i heq
    rw [heq, List.length_cons] at space
    split at h
    · cases h; omega
    · simp at h

theorem nextMember_name_length {bytes rest : Bytes} {name : Option String}
    (h : nextMember.name bytes = .ok (name, rest)) : rest.length < bytes.length := by
  unfold nextMember.name at h
  split at h
  · simp at h
  · rename_i hr
    simp only [Except.ok.injEq, Prod.mk.injEq] at h
    exact h.2 ▸ readString_length hr

theorem nextMember_length {first : Bool} {bytes rest : Bytes} {name : Option String}
    (h : nextMember first bytes = .ok (name, rest)) : rest.length < bytes.length := by
  unfold nextMember at h
  have outside := skipSpace_length bytes
  split at h
  · simp at h
  · rename_i b tail heq
    rw [heq, List.length_cons] at outside
    split at h
    · cases h; omega
    · split at h
      · split at h
        · have := nextMember_name_length h
          omega
        · simp at h
      · split at h
        · have inside := skipSpace_length tail
          split at h
          · simp at h
          · rename_i heq
            rw [heq, List.length_cons] at inside
            split at h
            · have := nextMember_name_length h
              omega
            · simp at h
        · simp at h

namespace Form

variable {σ : Type}

/-- The members that remain in an open object: the names of the fields given so far and the record
as they changed it. -/
def readMembers (form : Form σ) (first : Bool) (given : List String) (s : σ) (bytes : Bytes) :
    Result (List String × σ) :=
  match hm : nextMember first bytes with
  | .error e => .error e
  | .ok (none, rest) => .ok ((given, s), rest)
  | .ok (some name, rest) =>
    have := nextMember_length hm
    match form.field? name with
    | none => match hc : readColon rest with
      | .error e => .error e
      | .ok value => match hs : skipValue value with
        | .error e => .error e
        | .ok after =>
          have := readColon_length hc
          have := skipValue_length hs
          form.readMembers false given s after
    | some field =>
      if given.contains field.name then .error (.duplicateField field.name)
      else match hc : readColon rest with
        | .error e => .error e
        | .ok value => match hr : field.change.run value with
          | .error e => .error e
          | .ok (change, after) =>
            have := readColon_length hc
            have := field.change.shrinks hr
            form.readMembers false (field.name :: given) (change s) after
termination_by bytes.length

theorem readMembers_length {form : Form σ} {first : Bool} {given : List String} {s : σ}
    {bytes rest : Bytes} {p : List String × σ}
    (h : form.readMembers first given s bytes = .ok (p, rest)) : rest.length ≤ bytes.length := by
  fun_induction readMembers form first given s bytes
  case case2 hm =>
    have := nextMember_length hm
    simp only [Except.ok.injEq, Prod.mk.injEq] at h
    rw [← h.2]; omega
  case case5 ih =>
    have := ih h
    omega
  case case9 ih =>
    have := ih h
    omega
  all_goals simp at h

/-- The fault of a list that ends before a required field. -/
def tooShort (form : Form σ) (length : Nat) : Error :=
  .wrongLength length
    (form.title ++ " with " ++ toString form.fields.length ++ " elements")

/-- The values of the remaining fields from an open list, the first of them at place `index`. -/
def readPositions (form : Form σ) : List (Field σ) → Nat → Bool → σ → Bytes → Result σ
  | [], _, _, s, bytes => .ok (s, bytes)
  | field :: fields, index, first, s, bytes =>
    match nextElement first bytes with
    | .error e => .error e
    | .ok (false, rest) =>
      if field.required then .error (form.tooShort index)
      else form.readPositions fields (index + 1) first s rest
    | .ok (true, rest) => match field.change.run rest with
      | .error e => .error e
      | .ok (change, after) => form.readPositions fields (index + 1) false (change s) after

theorem readPositions_length {form : Form σ} {fields : List (Field σ)} {index : Nat} {first : Bool}
    {s t : σ} {bytes rest : Bytes}
    (h : form.readPositions fields index first s bytes = .ok (t, rest)) :
    rest.length ≤ bytes.length := by
  induction fields generalizing index first s bytes with
  | nil => cases h; simp
  | cons field fields ih =>
    unfold readPositions at h
    split at h
    · simp at h
    · rename_i hn
      have := nextElement_length hn
      split at h
      · simp at h
      · have := ih h
        omega
    · rename_i hn
      have := nextElement_length hn
      split at h
      · simp at h
      · rename_i hr
        have := field.change.shrinks hr
        have := ih h
        omega

/-- The record of an open object, with every required field given. -/
def readObject (form : Form σ) (bytes : Bytes) : Result σ :=
  match form.readMembers true [] form.start bytes with
  | .error e => .error e
  | .ok ((given, s), rest) => match form.missing? given with
    | some field => .error (.missingField field.name)
    | none => .ok (s, rest)

def readList (form : Form σ) (bytes : Bytes) : Result σ :=
  match form.readPositions form.fields 0 true form.start bytes with
  | .error e => .error e
  | .ok (s, rest) => match endList rest with
    | .error e => .error e
    | .ok after => .ok (s, after)

theorem readObject_length {form : Form σ} {bytes rest : Bytes} {s : σ}
    (h : form.readObject bytes = .ok (s, rest)) : rest.length ≤ bytes.length := by
  unfold readObject at h
  split at h
  · simp at h
  · rename_i hm
    split at h
    · simp at h
    · simp only [Except.ok.injEq, Prod.mk.injEq] at h
      exact h.2 ▸ readMembers_length hm

theorem readList_length {form : Form σ} {bytes rest : Bytes} {s : σ}
    (h : form.readList bytes = .ok (s, rest)) : rest.length ≤ bytes.length := by
  unfold readList at h
  split at h
  · simp at h
  · rename_i hp
    have := readPositions_length hp
    split at h
    · simp at h
    · rename_i he
      have := endList_length he
      simp only [Except.ok.injEq, Prod.mk.injEq] at h
      rw [← h.2]; omega

def reader (form : Form σ) : Reader σ :=
  Reader.ofFirst (fun b rest =>
    if b = 91 then form.readList rest
    else if b = 123 then form.readObject rest
    else .error (mismatch form.title b rest)) <| by
    intro b bytes rest s h
    split at h
    · exact readList_length h
    · split at h
      · exact readObject_length h
      · simp at h

end Form

end Telemetry.Json
