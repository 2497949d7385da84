import Telemetry.Json.Error

/-!
# Words, blanks and strings of documents

The leaves of a document: blanks between its parts, the three words, and strings with their escapes.
Each reader works on the bytes that remain and gives those after what it read. A string is kept as
bytes until it ends, since only the whole of it must be valid UTF-8.
-/

namespace Telemetry.Json

/-- Space, tab, line feed and carriage return. -/
def isSpace (b : UInt8) : Bool := b = 32 || b = 9 || b = 10 || b = 13

def skipSpace (bytes : Bytes) : Bytes := bytes.dropWhile isSpace

/-- The bytes after the rest of a word whose first letter was seen. -/
def readWord : Bytes → Bytes → Except Error Bytes
  | [], bytes => .ok bytes
  | _ :: _, [] => .error .endsInValue
  | expected :: word, b :: bytes => if b = expected then readWord word bytes else .error .expectedWord

/-- The rest of `null`, `true` and `false` after their first letters. -/
def nullTail : Bytes := [117, 108, 108]
def trueTail : Bytes := [114, 117, 101]
def falseTail : Bytes := [97, 108, 115, 101]

def hexDigit? (b : UInt8) : Option Nat :=
  if 48 ≤ b && b ≤ 57 then some (b.toNat - 48)
  else if 97 ≤ b && b ≤ 102 then some (b.toNat - 87)
  else if 65 ≤ b && b ≤ 70 then some (b.toNat - 55)
  else none

def readUnit (bytes : Bytes) : Result Nat :=
  match bytes with
  | a :: b :: c :: d :: rest =>
    match hexDigit? a, hexDigit? b, hexDigit? c, hexDigit? d with
    | some a, some b, some c, some d => .ok (((a * 16 + b) * 16 + c) * 16 + d, rest)
    | _, _, _, _ => .error .invalidEscape
  | _ => .error .endsInString

def encodePoint (n : Nat) : Bytes :=
  if n < 0x80 then [n.toUInt8]
  else if n < 0x800 then [(0xc0 + n / 64).toUInt8, (0x80 + n % 64).toUInt8]
  else if n < 0x10000 then
    [(0xe0 + n / 4096).toUInt8, (0x80 + n / 64 % 64).toUInt8, (0x80 + n % 64).toUInt8]
  else
    [(0xf0 + n / 262144).toUInt8, (0x80 + n / 4096 % 64).toUInt8, (0x80 + n / 64 % 64).toUInt8,
      (0x80 + n % 64).toUInt8]

def isHighSurrogate (n : Nat) : Bool := 0xd800 ≤ n && n ≤ 0xdbff

def isLowSurrogate (n : Nat) : Bool := 0xdc00 ≤ n && n ≤ 0xdfff

def pairedPoint (high low : Nat) : Nat := 0x10000 + (high - 0xd800) * 1024 + (low - 0xdc00)

/-- The second unit of a surrogate pair that began with `high`. -/
def readLowUnit (high : Nat) (bytes : Bytes) : Result Bytes :=
  match readUnit bytes with
  | .error e => .error e
  | .ok (low, rest) =>
    if isLowSurrogate low then .ok (encodePoint (pairedPoint high low), rest)
    else .error .loneSurrogate

/-- The character after `\u`: one unit, or two that form a surrogate pair. -/
def readEscapedPoint (bytes : Bytes) : Result Bytes :=
  match readUnit bytes with
  | .error e => .error e
  | .ok (high, rest) =>
    if isLowSurrogate high then .error .loneSurrogate
    else if !isHighSurrogate high then .ok (encodePoint high, rest)
    else match rest with
      | [] => .error .endsInString
      | b :: after =>
        if b ≠ 92 then .error .unfinishedSurrogate
        else match after with
          | [] => .error .endsInString
          | c :: low => if c ≠ 117 then .error .unfinishedSurrogate else readLowUnit high low

def simpleEscape? (b : UInt8) : Option UInt8 :=
  if b = 34 then some 34
  else if b = 92 then some 92
  else if b = 47 then some 47
  else if b = 98 then some 8
  else if b = 102 then some 12
  else if b = 110 then some 10
  else if b = 114 then some 13
  else if b = 116 then some 9
  else none

theorem readUnit_length {bytes rest : Bytes} {n : Nat} (h : readUnit bytes = .ok (n, rest)) :
    rest.length < bytes.length := by
  unfold readUnit at h
  split at h
  · split at h
    · cases h; simp; omega
    · simp at h
  · simp at h

def readEscape (bytes : Bytes) : Result Bytes :=
  match bytes with
  | [] => .error .endsInString
  | b :: rest =>
    if b = 117 then readEscapedPoint rest
    else match simpleEscape? b with
      | some c => .ok ([c], rest)
      | none => .error .invalidEscape

theorem readLowUnit_length {high : Nat} {bytes rest chunk : Bytes}
    (h : readLowUnit high bytes = .ok (chunk, rest)) : rest.length < bytes.length := by
  unfold readLowUnit at h
  split at h
  · simp at h
  · rename_i hu
    split at h
    · simp only [Except.ok.injEq, Prod.mk.injEq] at h
      exact h.2 ▸ readUnit_length hu
    · simp at h

theorem readEscapedPoint_length {bytes rest chunk : Bytes}
    (h : readEscapedPoint bytes = .ok (chunk, rest)) : rest.length < bytes.length := by
  unfold readEscapedPoint at h
  split at h
  · simp at h
  · rename_i high after hu
    have first := readUnit_length hu
    split at h
    · simp at h
    · split at h
      · simp only [Except.ok.injEq, Prod.mk.injEq] at h
        exact h.2 ▸ first
      · split at h
        · simp at h
        · split at h
          · simp at h
          · split at h
            · simp at h
            · split at h
              · simp at h
              · have second := readLowUnit_length h
                simp only [List.length_cons] at first
                omega

theorem readEscape_length {bytes rest chunk : Bytes} (h : readEscape bytes = .ok (chunk, rest)) :
    rest.length < bytes.length := by
  unfold readEscape at h
  split at h
  · simp at h
  · split at h
    · have := readEscapedPoint_length h
      simp only [List.length_cons]; omega
    · split at h
      · cases h; simp
      · simp at h

/-- The bytes of a string after its opening quote, in reverse before `acc`. -/
def readStringBytes (acc : Bytes) (bytes : Bytes) : Result Bytes :=
  match bytes with
  | [] => .error .endsInString
  | b :: rest =>
    if b = 34 then .ok (acc.reverse, rest)
    else if b = 92 then
      match h : readEscape rest with
      | .ok (chunk, after) =>
        have := readEscape_length h
        readStringBytes (chunk.reverse ++ acc) after
      | .error e => .error e
    else if b < 32 then .error .controlCharacter
    else readStringBytes (b :: acc) rest
termination_by bytes.length
decreasing_by all_goals simp only [List.length_cons]; omega

def readString (bytes : Bytes) : Result String :=
  match readStringBytes [] bytes with
  | .error e => .error e
  | .ok (content, rest) =>
    match Bytes.toString? content with
    | some s => .ok (s, rest)
    | none => .error .invalidCodePoint

/-- What stands after a backslash of a string whose text is not wanted: a code unit is not paired. -/
def skipEscape (bytes : Bytes) : Except Error Bytes :=
  match bytes with
  | [] => .error .endsInString
  | b :: rest =>
    if b = 117 then (readUnit rest).map Prod.snd
    else if (simpleEscape? b).isSome then .ok rest
    else .error .invalidEscape

theorem skipEscape_length {bytes rest : Bytes} (h : skipEscape bytes = .ok rest) :
    rest.length < bytes.length := by
  unfold skipEscape at h
  split at h
  · simp at h
  · rename_i b tail
    split at h
    · cases hu : readUnit tail with
      | error e => simp [hu, Except.map] at h
      | ok p =>
        obtain ⟨n, after⟩ := p
        have := readUnit_length hu
        simp only [hu, Except.map, Except.ok.injEq] at h
        subst h
        simp only [List.length_cons]; omega
    · split at h
      · cases h; simp
      · simp at h

/-- The bytes after a string whose text is not wanted; its code points are not looked at. -/
def skipString (bytes : Bytes) : Except Error Bytes :=
  match bytes with
  | [] => .error .endsInString
  | b :: rest =>
    if b = 34 then .ok rest
    else if b = 92 then
      match h : skipEscape rest with
      | .ok after =>
        have := skipEscape_length h
        skipString after
      | .error e => .error e
    else if b < 32 then .error .controlCharacter
    else skipString rest
termination_by bytes.length
decreasing_by all_goals simp only [List.length_cons]; omega

theorem skipString_length {bytes rest : Bytes} (h : skipString bytes = .ok rest) :
    rest.length < bytes.length := by
  fun_induction skipString bytes <;> simp_all <;> omega

theorem skipSpace_length (bytes : Bytes) : (skipSpace bytes).length ≤ bytes.length :=
  (List.dropWhile_suffix _).length_le

theorem readWord_length {word bytes rest : Bytes} (h : readWord word bytes = .ok rest) :
    rest.length ≤ bytes.length := by
  induction word generalizing bytes with
  | nil => cases h; simp
  | cons w word ih =>
    cases bytes with
    | nil => simp [readWord] at h
    | cons b bytes =>
      simp only [readWord] at h
      split at h
      · have := ih h
        simp only [List.length_cons]; omega
      · simp at h

end Telemetry.Json
