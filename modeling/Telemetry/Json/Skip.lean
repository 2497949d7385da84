import Telemetry.Json.Text

/-!
# Unwanted values

A value under an unknown name is checked for its form and passed over. The open lists and objects
around the current place are a list of frames, so values may be nested to any depth.
-/

namespace Telemetry.Json

inductive Frame where
  | list
  | object
deriving DecidableEq, Repr

def Frame.ends : Frame → Error
  | .list => .endsInList
  | .object => .endsInObject

def Frame.expectedComma : Frame → Error
  | .list => .expectedListCommaOrEnd
  | .object => .expectedObjectCommaOrEnd

def Frame.closing : Frame → UInt8
  | .list => 93
  | .object => 125

/-- A step over the start of a value: either a complete scalar or an opened frame. -/
def skipStart (bytes : Bytes) : Result (Option Frame) :=
  let number := (Numeral.skip bytes).mapError NumeralError.toError |>.map fun rest => (none, rest)
  match bytes with
  | [] => .error .endsInValue
  | 110 :: rest => (readWord nullTail rest).map fun rest => (none, rest)
  | 116 :: rest => (readWord trueTail rest).map fun rest => (none, rest)
  | 102 :: rest => (readWord falseTail rest).map fun rest => (none, rest)
  | 34 :: rest => (skipString rest).map fun rest => (none, rest)
  | 91 :: rest => .ok (some .list, rest)
  | 123 :: rest => .ok (some .object, rest)
  | b :: _ => if b = 45 || Numeral.isDigit b then number else .error .expectedValue

/-- The bytes after the name and the colon of a member. -/
def skipName (bytes : Bytes) : Except Error Bytes :=
  match skipSpace bytes with
  | [] => .error .endsInObject
  | b :: rest =>
    if b ≠ 34 then .error .keyNotString
    else match skipString rest with
      | .error e => .error e
      | .ok after =>
        match skipSpace after with
        | [] => .error .endsInObject
        | c :: value => if c = 58 then .ok value else .error .expectedColon

/-- Closes frames after a value, or after an opening when `comma` is false, as far as they end here.
Gives the frames that stay open with the bytes of the next element, or no frame at the end. -/
def closeFrames (comma : Bool) (frames : List Frame) (bytes : Bytes) : Result (List Frame) :=
  match frames with
  | [] => .ok ([], bytes)
  | frame :: outer =>
    match skipSpace bytes with
    | [] => .error frame.ends
    | b :: rest =>
      if comma && b = 44 then .ok (frame :: outer, rest)
      else if b = frame.closing then closeFrames true outer rest
      else if comma then .error frame.expectedComma
      else .ok (frame :: outer, b :: rest)

theorem skipStart_length {bytes rest : Bytes} {opened : Option Frame}
    (h : skipStart bytes = .ok (opened, rest)) : rest.length < bytes.length := by
  have step : ∀ (tail : Bytes) {r : Except Error Bytes},
      (∀ after, r = .ok after → after.length ≤ tail.length) →
      (r.map fun rest => ((none : Option Frame), rest)) = .ok (opened, rest) →
      rest.length ≤ tail.length := by
    intro tail r bound hr
    cases r with
    | error e => simp [Except.map] at hr
    | ok after =>
      simp only [Except.map, Except.ok.injEq, Prod.mk.injEq] at hr
      obtain ⟨-, rfl⟩ := hr
      exact bound _ rfl
  unfold skipStart at h
  split at h
  · simp at h
  · have := step _ (fun _ => readWord_length) h
    simp only [List.length_cons]; omega
  · have := step _ (fun _ => readWord_length) h
    simp only [List.length_cons]; omega
  · have := step _ (fun _ => readWord_length) h
    simp only [List.length_cons]; omega
  · have := step _ (fun _ hs => Nat.le_of_lt (skipString_length hs)) h
    simp only [List.length_cons]; omega
  · cases h; simp
  · cases h; simp
  · rename_i b tail _ _ _ _ _ _
    split at h
    · have := step tail (fun after hs => by
        cases hn : Numeral.skip (b :: tail) with
        | error e => rw [hn] at hs; cases hs
        | ok r =>
          have := Numeral.skip_length hn
          rw [hn] at hs
          cases hs
          simp only [List.length_cons] at this; omega) h
      simp only [List.length_cons]; omega
    · simp at h

theorem closeFrames_length {comma : Bool} {frames left : List Frame} {bytes rest : Bytes}
    (h : closeFrames comma frames bytes = .ok (left, rest)) : rest.length ≤ bytes.length := by
  induction frames generalizing comma bytes with
  | nil => cases h; simp
  | cons frame outer ih =>
    unfold closeFrames at h
    have space := skipSpace_length bytes
    split at h
    · simp at h
    · rename_i b tail heq
      rw [heq, List.length_cons] at space
      split at h
      · cases h; omega
      · split at h
        · have := ih h; omega
        · split at h
          · simp at h
          · cases h; simpa using space

theorem skipName_length {bytes rest : Bytes} (h : skipName bytes = .ok rest) :
    rest.length < bytes.length := by
  unfold skipName at h
  have outside := skipSpace_length bytes
  split at h
  · simp at h
  · rename_i b tail heq
    rw [heq, List.length_cons] at outside
    split at h
    · simp at h
    · split at h
      · simp at h
      · rename_i after hs
        have name := skipString_length hs
        have inside := skipSpace_length after
        split at h
        · simp at h
        · rename_i c value heq
          rw [heq, List.length_cons] at inside
          split at h
          · cases h; omega
          · simp at h

/-- Passes over values until no frame is open. -/
def skipValues (frames : List Frame) (bytes : Bytes) : Except Error Bytes :=
  match hs : skipStart (skipSpace bytes) with
  | .error e => .error e
  | .ok (opened, rest) =>
    let opening := match opened with
      | some frame => frame :: frames
      | none => frames
    match hc : closeFrames opened.isNone opening rest with
    | .error e => .error e
    | .ok ([], after) => .ok after
    | .ok (.list :: outer, after) =>
      have := closeFrames_length hc
      have := skipStart_length hs
      have := skipSpace_length bytes
      skipValues (.list :: outer) after
    | .ok (.object :: outer, after) =>
      match hn : skipName after with
      | .error e => .error e
      | .ok value =>
        have := skipName_length hn
        have := closeFrames_length hc
        have := skipStart_length hs
        have := skipSpace_length bytes
        skipValues (.object :: outer) value
termination_by bytes.length

theorem skipValues_length {frames : List Frame} {bytes rest : Bytes}
    (h : skipValues frames bytes = .ok rest) : rest.length < bytes.length := by
  fun_induction skipValues frames bytes
  case case1 => simp at h
  case case2 => simp at h
  case case3 bytes _ _ hs _ _ hc =>
    cases h
    have := closeFrames_length hc
    have := skipStart_length hs
    have := skipSpace_length bytes
    omega
  case case4 bytes _ _ hs _ _ _ hc _ _ _ ih =>
    have := ih h
    have := closeFrames_length hc
    have := skipStart_length hs
    have := skipSpace_length bytes
    omega
  case case5 => simp at h
  case case6 bytes _ _ hs _ _ _ hc _ hn _ _ _ _ ih =>
    have := ih h
    have := skipName_length hn
    have := closeFrames_length hc
    have := skipStart_length hs
    have := skipSpace_length bytes
    omega

def skipValue (bytes : Bytes) : Except Error Bytes := skipValues [] bytes

theorem skipValue_length {bytes rest : Bytes} (h : skipValue bytes = .ok rest) :
    rest.length < bytes.length := skipValues_length h

end Telemetry.Json
