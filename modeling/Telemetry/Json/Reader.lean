import Telemetry.Json.Skip

/-!
# Readers of typed documents

A reader takes one value of a known type off the front of a document. What it leaves is shorter than
what it was given, so lists and streams of any length can be read. A value of another type is named
in the fault, and a scalar is read to its end before it is named.
-/

namespace Telemetry.Json

open Telemetry.Number

/-- Takes one value off the front of a document, after any blanks. -/
structure Reader (α : Type) where
  run : Bytes → Result α
  shrinks : ∀ {bytes rest : Bytes} {a : α}, run bytes = .ok (a, rest) → rest.length < bytes.length

namespace Reader

variable {α β : Type}

/-- Passes the first byte after the blanks, and what follows it, to a function. -/
def runFirst (read : UInt8 → Bytes → Result α) (bytes : Bytes) : Result α :=
  match skipSpace bytes with
  | [] => .error .endsInValue
  | b :: rest => read b rest

theorem runFirst_length {read : UInt8 → Bytes → Result α}
    (bound : ∀ {b : UInt8} {bytes rest : Bytes} {a : α}, read b bytes = .ok (a, rest) →
      rest.length ≤ bytes.length)
    {bytes rest : Bytes} {a : α} (h : runFirst read bytes = .ok (a, rest)) :
    rest.length < bytes.length := by
  unfold runFirst at h
  have space := skipSpace_length bytes
  split at h
  · simp at h
  · rename_i heq
    rw [heq, List.length_cons] at space
    have := bound h
    omega

/-- A reader that is told the first byte after the blanks and what follows it. -/
def ofFirst (read : UInt8 → Bytes → Result α)
    (bound : ∀ {b : UInt8} {bytes rest : Bytes} {a : α}, read b bytes = .ok (a, rest) →
      rest.length ≤ bytes.length) : Reader α where
  run := runFirst read
  shrinks := runFirst_length bound

/-- Changes what a reader gives by a function that may refuse it. -/
def filterMap (f : α → Except Error β) (reader : Reader α) : Reader β where
  run bytes := match reader.run bytes with
    | .error e => .error e
    | .ok (a, rest) => match f a with
      | .error e => .error e
      | .ok b => .ok (b, rest)
  shrinks := by
    intro bytes rest b h
    split at h
    · simp at h
    · rename_i hr
      split at h
      · simp at h
      · simp only [Except.ok.injEq, Prod.mk.injEq] at h
        exact h.2 ▸ reader.shrinks hr

def map (f : α → β) (reader : Reader α) : Reader β := reader.filterMap fun a => .ok (f a)

end Reader

/-- The value that a document holds in place of another one, named by its type and, if it is a
scalar, by its content. -/
def found (b : UInt8) (rest : Bytes) : Except Error Found :=
  if b = 110 then (readWord nullTail rest).map fun _ => .null
  else if b = 116 then (readWord trueTail rest).map fun _ => .boolean true
  else if b = 102 then (readWord falseTail rest).map fun _ => .boolean false
  else if b = 34 then (readString rest).map fun (s, _) => .text s
  else if b = 91 then .ok .sequence
  else if b = 123 then .ok .map
  else if b = 45 || Numeral.isDigit b then
    match Numeral.read (b :: rest) with
    | .error e => .error e.toError
    | .ok (.natural n, _) => .ok (.integer n)
    | .ok (.negative n, _) => .ok (.integer n)
    | .ok (.float x, _) => .ok (.float x)
  else .error .expectedValue

def mismatch (expected : String) (b : UInt8) (rest : Bytes) : Error :=
  match found b rest with
  | .error e => e
  | .ok found => .wrongType found expected

theorem readStringBytes_length {acc bytes rest content : Bytes}
    (h : readStringBytes acc bytes = .ok (content, rest)) : rest.length < bytes.length := by
  fun_induction readStringBytes acc bytes
  · simp at h
  · simp only [Except.ok.injEq, Prod.mk.injEq] at h
    rw [← h.2, List.length_cons]; omega
  · rename_i ih
    have := ih h
    simp only [List.length_cons]; omega
  · simp at h
  · simp at h
  · rename_i ih
    have := ih h
    simp only [List.length_cons]; omega

theorem readString_length {bytes rest : Bytes} {s : String} (h : readString bytes = .ok (s, rest)) :
    rest.length < bytes.length := by
  unfold readString at h
  split at h
  · simp at h
  · rename_i hr
    split at h
    · simp only [Except.ok.injEq, Prod.mk.injEq] at h
      exact h.2 ▸ readStringBytes_length hr
    · simp at h

/-- The outcome of reading the rest of a word, with the value that the word stands for. -/
def wordResult (a : α) (word bytes : Bytes) : Result α :=
  match readWord word bytes with
  | .error e => .error e
  | .ok rest => .ok (a, rest)

theorem wordResult_length {α : Type} {a b : α} {word bytes rest : Bytes}
    (h : wordResult a word bytes = .ok (b, rest)) : rest.length ≤ bytes.length := by
  unfold wordResult at h
  split at h
  · simp at h
  · rename_i hr
    simp only [Except.ok.injEq, Prod.mk.injEq] at h
    exact h.2 ▸ readWord_length hr

namespace Reader

variable {α : Type}

/-- A string; `expected` names it in faults. -/
def text (expected : String) : Reader String :=
  ofFirst (fun b rest => if b = 34 then readString rest else .error (mismatch expected b rest)) <| by
    intro b bytes rest s h
    split at h
    · exact Nat.le_of_lt (readString_length h)
    · simp at h

def numeral (expected : String) : Reader Numeral :=
  ofFirst (fun b rest =>
    if b = 45 || Numeral.isDigit b then (Numeral.read (b :: rest)).mapError NumeralError.toError
    else .error (mismatch expected b rest)) <| by
    intro b bytes rest n h
    split at h
    · cases hn : Numeral.read (b :: bytes) with
      | error e => rw [hn] at h; cases h
      | ok p =>
        have := Numeral.read_length hn
        rw [hn] at h
        cases h
        simp only [List.length_cons] at this; omega
    · simp at h

/-- An integer from `least` to `most`. A number with a fraction or exponent is of another type, and
an integer outside the range is refused as a value. -/
def integer (least most : Int) (expected : String) : Reader Int :=
  (numeral expected).filterMap fun
    | .natural n => inRange n
    | .negative n => inRange n
    | .float x => .error (.wrongType (.float x) expected)
where
  inRange (n : Int) : Except Error Int :=
    if least ≤ n && n ≤ most then .ok n else .error (.wrongValue (.integer n) expected)

def int64 : Reader Int := integer (-0x8000000000000000) 0x7fffffffffffffff "i64"

def uint64 (expected : String) : Reader Nat := (integer 0 0xffffffffffffffff expected).map Int.toNat

/-- A floating-point number, also when it is written as an integer. -/
def float : Reader Binary64 :=
  (numeral "f64").map fun
    | .natural n => Binary64.ofNat n
    | .negative n => Binary64.ofInt n
    | .float x => x

def boolean : Reader Bool :=
  ofFirst (fun b rest =>
    if b = 116 then wordResult true trueTail rest
    else if b = 102 then wordResult false falseTail rest
    else .error (mismatch "a boolean" b rest)) <| by
    intro b bytes rest v h
    split at h
    · exact wordResult_length h
    · split at h
      · exact wordResult_length h
      · simp at h

def unit : Reader Unit :=
  ofFirst (fun b rest =>
    if b = 110 then wordResult () nullTail rest else .error (mismatch "unit" b rest)) <| by
    intro b bytes rest v h
    split at h
    · exact wordResult_length h
    · simp at h

/-- Reads null, or a value of another reader. A word that begins like null is taken for it. -/
def runOptional (reader : Reader α) (bytes : Bytes) : Result (Option α) :=
  match skipSpace bytes with
  | [] => (reader.map some).run []
  | b :: rest =>
    if b = 110 then wordResult none nullTail rest else (reader.map some).run (b :: rest)

theorem runOptional_length {reader : Reader α} {bytes rest : Bytes} {a : Option α}
    (h : reader.runOptional bytes = .ok (a, rest)) : rest.length < bytes.length := by
  unfold runOptional at h
  have space := skipSpace_length bytes
  split at h
  · have := (reader.map some).shrinks h
    simp at this
  · rename_i heq
    rw [heq, List.length_cons] at space
    split at h
    · have := wordResult_length h
      omega
    · have := (reader.map some).shrinks h
      rw [List.length_cons] at this
      omega

/-- Null, or a value of another reader. -/
def optional (reader : Reader α) : Reader (Option α) where
  run := reader.runOptional
  shrinks := runOptional_length

end Reader

/-- Whether a list has another element, with the bytes where that element or the closing bracket
starts. The first element needs no comma. -/
def nextElement (first : Bool) (bytes : Bytes) : Result Bool :=
  match skipSpace bytes with
  | [] => .error .endsInList
  | b :: rest =>
    if b = 93 then .ok (false, b :: rest)
    else if first then .ok (true, b :: rest)
    else if b = 44 then
      match skipSpace rest with
      | [] => .error .endsInValue
      | c :: more => if c = 93 then .error .trailingComma else .ok (true, c :: more)
    else .error .expectedListCommaOrEnd

/-- The bytes after the closing bracket of a list from which no more elements are wanted. -/
def endList (bytes : Bytes) : Except Error Bytes :=
  match skipSpace bytes with
  | [] => .error .endsInList
  | b :: rest =>
    if b = 93 then .ok rest
    else if b = 44 then
      match skipSpace rest with
      | [] => .error .trailingCharacters
      | c :: _ => .error (if c = 93 then .trailingComma else .trailingCharacters)
    else .error .trailingCharacters

theorem nextElement_length {first more : Bool} {bytes rest : Bytes}
    (h : nextElement first bytes = .ok (more, rest)) : rest.length ≤ bytes.length := by
  unfold nextElement at h
  have outside := skipSpace_length bytes
  split at h
  · simp at h
  · rename_i b tail heq
    rw [heq, List.length_cons] at outside
    split at h
    · cases h; simpa using outside
    · split at h
      · cases h; simpa using outside
      · split at h
        · have inside := skipSpace_length tail
          split at h
          · simp at h
          · rename_i c more heq
            rw [heq, List.length_cons] at inside
            split at h
            · simp at h
            · cases h; simp only [List.length_cons]; omega
        · simp at h

theorem endList_length {bytes rest : Bytes} (h : endList bytes = .ok rest) :
    rest.length < bytes.length := by
  unfold endList at h
  have outside := skipSpace_length bytes
  split at h
  · simp at h
  · rename_i b tail heq
    rw [heq, List.length_cons] at outside
    split at h
    · cases h; omega
    · split at h
      · split at h <;> simp at h
      · simp at h

/-- The elements that remain in an open list, after those in `acc`, which are in reverse. -/
def readElements {α : Type} (element : Reader α) (first : Bool) (acc : List α) (bytes : Bytes) :
    Result (List α) :=
  match hn : nextElement first bytes with
  | .error e => .error e
  | .ok (false, rest) => match endList rest with
    | .error e => .error e
    | .ok after => .ok (acc.reverse, after)
  | .ok (true, rest) => match hr : element.run rest with
    | .error e => .error e
    | .ok (a, after) =>
      have := nextElement_length hn
      have := element.shrinks hr
      readElements element false (a :: acc) after
termination_by bytes.length

theorem readElements_length {α : Type} {element : Reader α} {first : Bool} {acc elements : List α}
    {bytes rest : Bytes} (h : readElements element first acc bytes = .ok (elements, rest)) :
    rest.length ≤ bytes.length := by
  fun_induction readElements element first acc bytes
  case case3 hn _ he =>
    have := nextElement_length hn
    have := endList_length he
    simp only [Except.ok.injEq, Prod.mk.injEq] at h
    rw [← h.2]; omega
  case case5 ih =>
    have := ih h
    omega
  all_goals simp at h

namespace Reader

variable {α : Type}

def list (element : Reader α) : Reader (List α) :=
  ofFirst (fun b rest =>
    if b = 91 then readElements element true [] rest
    else .error (mismatch "a sequence" b rest)) <| by
    intro b bytes rest elements h
    split at h
    · exact readElements_length h
    · simp at h

def document (reader : Reader α) (bytes : Bytes) : Except Error α :=
  match reader.run bytes with
  | .error e => .error e
  | .ok (a, rest) => if (skipSpace rest).isEmpty then .ok a else .error .trailingCharacters

/-- The values of documents that follow each other, up to the first fault, after those in `acc`,
which are in reverse. -/
def streamAfter (reader : Reader α) (acc : List α) (bytes : Bytes) : List α × Option Error :=
  if (skipSpace bytes).isEmpty then (acc.reverse, none)
  else match h : reader.run bytes with
    | .error e => (acc.reverse, some e)
    | .ok (a, rest) =>
      have := reader.shrinks h
      reader.streamAfter (a :: acc) rest
termination_by bytes.length

/-- The values of documents that follow each other, up to the first fault. -/
def stream (reader : Reader α) (bytes : Bytes) : List α × Option Error := reader.streamAfter [] bytes

end Reader

end Telemetry.Json
