import Telemetry.Bytes

/-!
# Compressed data

A compressed stream is a sequence of blocks, each stored or coded by two prefix codes, which are
fixed or described in front of the block. Bits are taken from the low end of each byte. A copy may
reach back before the start of the output, where zeros are found.

A code is complete unless it has at most one symbol. A prefix that no symbol has is refused as soon as
it is seen.
-/

namespace Telemetry.Inflate

inductive Fault where
  | incomplete
  | corrupt
deriving DecidableEq, Repr

/-- The bytes that remain and the number of bits already taken from the first of them. -/
structure Source where
  bytes : Bytes
  used : Nat

/-- The outcome of reading: the value and what remains. -/
abbrev Read (α : Type) := Except Fault (α × Source)

def readBit (source : Source) : Read Bool :=
  match source.bytes with
  | [] => .error .incomplete
  | b :: rest =>
    let bit := (b >>> source.used.toUInt8) &&& 1 = 1
    .ok (bit, if source.used = 7 then ⟨rest, 0⟩ else ⟨b :: rest, source.used + 1⟩)

/-- A number of so many bits, the lowest bit first. -/
def readBits : Nat → Source → Read Nat
  | 0, source => .ok (0, source)
  | n + 1, source => match readBit source with
    | .error fault => .error fault
    | .ok (bit, source) => match readBits n source with
      | .error fault => .error fault
      | .ok (high, source) => .ok (2 * high + bit.toNat, source)

/-- What remains from the next byte on. -/
def align (source : Source) : Source := if source.used = 0 then source else ⟨source.bytes.drop 1, 0⟩

/-- A prefix code as a tree: a bit leads to one of two branches, and a symbol ends the path. -/
inductive Code where
  | empty
  | symbol (n : Nat)
  | branch (zero one : Code)

namespace Code

def insert (n : Nat) : List Bool → Code → Code
  | [], _ => .symbol n
  | bit :: word, code =>
    let (zero, one) := match code with
      | .branch zero one => (zero, one)
      | _ => (.empty, .empty)
    if bit then .branch zero (insert n word one) else .branch (insert n word zero) one

def read : Code → Source → Read Nat
  | .empty, _ => .error .corrupt
  | .symbol n, source => .ok (n, source)
  | .branch zero one, source => match readBit source with
    | .error fault => .error fault
    | .ok (true, source) => one.read source
    | .ok (false, source) => zero.read source

def lengthMax : Nat := 15

/-- The word of a number of bits, the highest bit first. -/
def word (value : Nat) : Nat → List Bool
  | 0 => []
  | length + 1 => (value / Nat.pow 2 length % 2 = 1) :: word value length

def symbolsOf (lengths : List Nat) (length : Nat) : List Nat :=
  (lengths.zipIdx.filter fun p => p.1 = length).map Prod.snd

/-- Adds the symbols with words of a length, the first of which gets the word `first`. -/
def insertAll (length : Nat) : List Nat → Nat → Code → Code
  | [], _, code => code
  | n :: symbols, first, code =>
    insertAll length symbols (first + 1) (insert n (word first length) code)

/-- Adds the symbols with the given lengths; `first` is the first word of the first length. -/
def build (lengths : List Nat) : List Nat → Nat → Code → Code
  | [], _, code => code
  | length :: longer, first, code =>
    let symbols := symbolsOf lengths length
    build lengths longer (2 * (first + symbols.length)) (insertAll length symbols first code)

/-- The code whose symbols have words of the given lengths; zero stands for no word. -/
def ofLengths (lengths : List Nat) : Code :=
  build lengths ((List.range lengthMax).map (· + 1)) 0 .empty

/-- The share of all words of the greatest length that begin with a word of the code. -/
def share (lengths : List Nat) : Nat :=
  lengths.foldr (fun length others =>
    (if length = 0 then 0 else Nat.pow 2 (lengthMax - length)) + others) 0

/-- The code of given lengths if they make one: a complete code, or one with at most one symbol if
that is allowed. -/
def checked (allowSingle : Bool) (lengths : List Nat) : Except Fault Code :=
  let used := (lengths.filter (· ≠ 0)).length
  if share lengths = Nat.pow 2 lengthMax || (allowSingle && used ≤ 1) then .ok (ofLengths lengths)
  else .error .corrupt

end Code

structure Codes where
  literals : Code
  distances : Code

/-- The codes of a block that describes none. -/
def fixedCodes : Codes where
  literals := Code.ofLengths (List.replicate 144 8 ++ List.replicate 112 9
    ++ List.replicate 24 7 ++ List.replicate 8 8)
  distances := Code.ofLengths (List.replicate 32 5)

/-- The order in which the lengths of the code for lengths are given. -/
def lengthOrder : List Nat := [16, 17, 18, 0, 8, 7, 9, 6, 10, 5, 11, 4, 12, 3, 13, 2, 14, 1, 15]

/-- So many numbers of three bits. -/
def readTriples : Nat → Source → Read (List Nat)
  | 0, source => .ok ([], source)
  | n + 1, source => match readBits 3 source with
    | .error fault => .error fault
    | .ok (a, source) => match readTriples n source with
      | .error fault => .error fault
      | .ok (rest, source) => .ok (a :: rest, source)

/-- The lengths of a code in the order of its symbols, from those given in another order. -/
def reorder (given : List Nat) : List Nat :=
  (List.range 19).map fun n => ((lengthOrder.zip given).lookup n).getD 0

/-- The lengths of two codes, each given by a symbol of the code for lengths, until there are `total`
of them. The last one stands first in `acc`. -/
def readLengths (code : Code) (total : Nat) : Nat → List Nat → Source → Read (List Nat)
  | 0, _, _ => .error .corrupt
  | fuel + 1, acc, source =>
    if total < acc.length then .error .corrupt
    else if acc.length = total then .ok (acc.reverse, source)
    else match code.read source with
      | .error fault => .error fault
      | .ok (n, source) =>
        if n < 16 then readLengths code total fuel (n :: acc) source
        else
          let (bits, least, value) :=
            if n = 16 then (2, 3, acc.head?) else if n = 17 then (3, 3, some 0) else (7, 11, some 0)
          match value with
          | none => .error .corrupt
          | some value => match readBits bits source with
            | .error fault => .error fault
            | .ok (more, source) =>
              readLengths code total fuel (List.replicate (least + more) value ++ acc) source

/-- The greatest numbers of symbols of the two codes. -/
def literalsMax : Nat := 286
def distancesMax : Nat := 30

def readCodes (source : Source) : Read Codes :=
  match readBits 5 source with
  | .error fault => .error fault
  | .ok (literals, source) => match readBits 5 source with
    | .error fault => .error fault
    | .ok (distances, source) => match readBits 4 source with
      | .error fault => .error fault
      | .ok (lengths, source) =>
        let literals := literals + 257
        let distances := distances + 1
        if literalsMax < literals || distancesMax < distances then .error .corrupt
        else match readTriples (lengths + 4) source with
          | .error fault => .error fault
          | .ok (given, source) => match Code.checked false (reorder given) with
            | .error fault => .error fault
            | .ok code =>
              let total := literals + distances
              match readLengths code total (total + 1) [] source with
              | .error fault => .error fault
              | .ok (all, source) =>
                match Code.checked true (all.take literals),
                  Code.checked true (all.drop literals) with
                | .ok literals, .ok distances => .ok (⟨literals, distances⟩, source)
                | _, _ => .error .corrupt

/-- The least length of each length symbol and the number of bits that add to it. -/
def lengthBases : List (Nat × Nat) :=
  [(3, 0), (4, 0), (5, 0), (6, 0), (7, 0), (8, 0), (9, 0), (10, 0), (11, 1), (13, 1), (15, 1),
    (17, 1), (19, 2), (23, 2), (27, 2), (31, 2), (35, 3), (43, 3), (51, 3), (59, 3), (67, 4),
    (83, 4), (99, 4), (115, 4), (131, 5), (163, 5), (195, 5), (227, 5), (258, 0)]

/-- The least distance of each distance symbol and the number of bits that add to it. -/
def distanceBases : List (Nat × Nat) :=
  [(1, 0), (2, 0), (3, 0), (4, 0), (5, 1), (7, 1), (9, 2), (13, 2), (17, 3), (25, 3), (33, 4),
    (49, 4), (65, 5), (97, 5), (129, 6), (193, 6), (257, 7), (385, 7), (513, 8), (769, 8),
    (1025, 9), (1537, 9), (2049, 10), (3073, 10), (4097, 11), (6145, 11), (8193, 12), (12289, 12),
    (16385, 13), (24577, 13)]

/-- The number that a symbol of a table and the bits after it give. -/
def readBased (bases : List (Nat × Nat)) (n : Nat) (source : Source) : Read Nat :=
  match bases[n]? with
  | none => .error .corrupt
  | some (least, bits) => match readBits bits source with
    | .error fault => .error fault
    | .ok (more, source) => .ok (least + more, source)

/-- The output with bytes copied from a distance back. -/
def copy (distance : Nat) : Nat → Array UInt8 → Array UInt8
  | 0, out => out
  | n + 1, out =>
    let b := if out.size < distance then 0 else out.getD (out.size - distance) 0
    copy distance n (out.push b)

def readCoded (codes : Codes) : Nat → Array UInt8 → Source → Read (Array UInt8)
  | 0, _, _ => .error .incomplete
  | fuel + 1, out, source => match codes.literals.read source with
    | .error fault => .error fault
    | .ok (n, source) =>
      if n < 256 then readCoded codes fuel (out.push n.toUInt8) source
      else if n = 256 then .ok (out, source)
      else match readBased lengthBases (n - 257) source with
        | .error fault => .error fault
        | .ok (length, source) => match codes.distances.read source with
          | .error fault => .error fault
          | .ok (d, source) => match readBased distanceBases d source with
            | .error fault => .error fault
            | .ok (distance, source) => readCoded codes fuel (copy distance length out) source

def readStored : Nat → Array UInt8 → Bytes → Except Fault (Array UInt8 × Bytes)
  | 0, out, bytes => .ok (out, bytes)
  | _ + 1, _, [] => .error .incomplete
  | n + 1, out, b :: rest => readStored n (out.push b) rest

/-- The output after a stored block, whose length is given twice, the second time inverted. -/
def readStoredBlock (out : Array UInt8) (source : Source) : Read (Array UInt8) :=
  match readBits 16 (align source) with
  | .error fault => .error fault
  | .ok (length, source) => match readBits 16 source with
    | .error fault => .error fault
    | .ok (inverted, source) =>
      if length + inverted ≠ 65535 then .error .corrupt
      else match readStored length out source.bytes with
        | .error fault => .error fault
        | .ok (out, rest) => .ok (out, ⟨rest, 0⟩)

/-- A number of steps that no stream exceeds: each takes a bit at least. -/
def fuelFor (source : Source) : Nat := 8 * source.bytes.length + 1

def readBlock (type : Nat) (out : Array UInt8) (source : Source) : Read (Array UInt8) :=
  if type = 0 then readStoredBlock out source
  else if type = 1 then readCoded fixedCodes (fuelFor source) out source
  else if type = 2 then match readCodes source with
    | .error fault => .error fault
    | .ok (codes, source) => readCoded codes (fuelFor source) out source
  else .error .corrupt

/-- The output after all blocks up to the one that is marked as the last. -/
def readBlocks : Nat → Array UInt8 → Source → Read (Array UInt8)
  | 0, _, _ => .error .incomplete
  | fuel + 1, out, source => match readBit source with
    | .error fault => .error fault
    | .ok (last, source) => match readBits 2 source with
      | .error fault => .error fault
      | .ok (type, source) => match readBlock type out source with
        | .error fault => .error fault
        | .ok (out, source) => if last then .ok (out, source) else readBlocks fuel out source

/-- The bytes that a stream stands for, and the bytes after it. -/
def inflate (bytes : Bytes) : Except Fault (Bytes × Bytes) :=
  let source : Source := ⟨bytes, 0⟩
  match readBlocks (fuelFor source) #[] source with
  | .error fault => .error fault
  | .ok (out, source) => .ok (out.toList, (align source).bytes)

end Telemetry.Inflate
