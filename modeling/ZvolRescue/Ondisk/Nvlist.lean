import ZvolRescue.Lib.Word
import ZvolRescue.Ondisk.Error

/-!
# Lists of named values

The configuration in a label is a list of pairs in XDR: a name, a type, a number of elements
and a value.  A pair states its encoded size, and the next pair begins where that ends,
whatever its value took.
-/

namespace ZvolRescue
namespace Ondisk

open Lib

/-! ## Strings -/

def isCont (b : UInt8) : Bool := 0x80 ≤ b ∧ b ≤ 0xbf

/-- The second bytes that may follow a first byte of three or more. -/
def isSecond (b0 b1 : UInt8) : Bool :=
  if b0 = 0xe0 then 0xa0 ≤ b1 ∧ b1 ≤ 0xbf
  else if b0 = 0xed then 0x80 ≤ b1 ∧ b1 ≤ 0x9f
  else if b0 = 0xf0 then 0x90 ≤ b1 ∧ b1 ≤ 0xbf
  else if b0 = 0xf4 then 0x80 ≤ b1 ∧ b1 ≤ 0x8f
  else isCont b1

/-- The low six bits of a continuation byte. -/
def contBits (b : UInt8) : Nat := b.toNat % 64

/-- The first character and the bytes it takes; none for bytes that are not one, with the
length of the prefix of a character they make up. -/
def utf8Head : List UInt8 → Option Char × Nat
  | [] => (none, 0)
  | b0 :: rest =>
    if b0 < 0x80 then (some (Char.ofNat b0.toNat), 1)
    else if 0xc2 ≤ b0 ∧ b0 ≤ 0xdf then
      match rest with
      | b1 :: _ =>
        if isCont b1 then (some (Char.ofNat (b0.toNat % 32 * 64 + contBits b1)), 2) else (none, 1)
      | [] => (none, 1)
    else if 0xe0 ≤ b0 ∧ b0 ≤ 0xef then
      match rest with
      | b1 :: rest =>
        if isSecond b0 b1 then
          match rest with
          | b2 :: _ =>
            if isCont b2 then
              (some (Char.ofNat (b0.toNat % 16 * 4096 + contBits b1 * 64 + contBits b2)), 3)
            else (none, 2)
          | [] => (none, 2)
        else (none, 1)
      | [] => (none, 1)
    else if 0xf0 ≤ b0 ∧ b0 ≤ 0xf4 then
      match rest with
      | b1 :: rest =>
        if isSecond b0 b1 then
          match rest with
          | b2 :: rest =>
            if isCont b2 then
              match rest with
              | b3 :: _ =>
                if isCont b3 then
                  (some (Char.ofNat (b0.toNat % 8 * 262144 + contBits b1 * 4096 + contBits b2 * 64 +
                    contBits b3)), 4)
                else (none, 3)
              | [] => (none, 3)
            else (none, 2)
          | [] => (none, 2)
        else (none, 1)
      | [] => (none, 1)
    else (none, 1)

/-- The characters of UTF-8, none for each stretch that is not one; `fuel` bounds their
number. -/
def utf8Chars : Nat → List UInt8 → List (Option Char)
  | 0, _ => []
  | fuel + 1, bytes =>
    if bytes.isEmpty then []
    else
      let head := utf8Head bytes
      head.1 :: utf8Chars fuel (bytes.drop head.2)

/-- The text of the bytes, unless they are not UTF-8. -/
def fromUtf8 (bytes : List UInt8) : Option String :=
  ((utf8Chars bytes.length bytes).mapM id).map String.ofList

/-- The text of the bytes, with a replacement character where they are not UTF-8. -/
def fromUtf8Lossy (bytes : List UInt8) : String :=
  String.ofList ((utf8Chars bytes.length bytes).map (fun c => c.getD '\ufffd'))

/-! ## Values -/

mutual

inductive Value where
  /-- A flag whose presence is the value. -/
  | boolean
  | bool (b : Bool)
  /-- The types narrower than 64 bits. -/
  | int (i : Int)
  | uint64 (u : Nat)
  | int64 (i : Int)
  /-- A floating-point number, by its bits. -/
  | double (bits : Nat)
  | string (s : String)
  | bytes (b : List UInt8)
  | intArray (a : List Int)
  | uint64Array (a : List Nat)
  | int64Array (a : List Int)
  | boolArray (a : List Bool)
  | stringArray (a : List String)
  | list (l : NvList)
  | listArray (a : List NvList)
  /-- A type that is not decoded. -/
  | unknown (typeCode nelem : Int)

inductive NvList where
  | mk (version : Int) (flags : Nat) (pairs : List (String × Value))

end

namespace NvList

def pairs : NvList → List (String × Value)
  | mk _ _ pairs => pairs

/-- The first value of this name. -/
def get (l : NvList) (name : String) : Option Value :=
  (l.pairs.find? (fun p => p.1 = name)).map Prod.snd

def u64 (l : NvList) (name : String) : Option Nat :=
  match l.get name with
  | some (.uint64 v) => some v
  | some (.int v) | some (.int64 v) => if 0 ≤ v then some v.toNat else none
  | _ => none

def list (l : NvList) (name : String) : Option NvList :=
  match l.get name with
  | some (.list v) => some v
  | _ => none

end NvList

/-! ## A cursor -/

structure Cursor where
  buf : List UInt8
  pos : Nat

/-- Reading at a cursor. -/
abbrev Read (α : Type) := StateT Cursor (Except ParseError) α

namespace Read

def need (n : Nat) (what : String) : Read Unit := fun cur =>
  if cur.pos + n < word ∧ cur.pos + n ≤ cur.buf.length then .ok ((), cur)
  else .error (.malformed what cur.pos)

/-- The big-endian number of these bytes. -/
def beValue (bytes : List UInt8) : Nat := bytes.foldl (fun acc b => acc * 256 + b.toNat) 0

/-- The next `n` bytes. -/
def take (n : Nat) : Read (List UInt8) := fun cur =>
  .ok ((cur.buf.drop cur.pos).take n, { cur with pos := cur.pos + n })

def u32 (what : String) : Read Nat := do
  need 4 what
  return beValue (← take 4)

/-- A number of `width` bits in two's complement. -/
def signed (width n : Nat) : Int :=
  let n := n % 2 ^ width
  if n < 2 ^ (width - 1) then n else n - 2 ^ width

def i32 (what : String) : Read Int := do
  return signed 32 (← u32 what)

def u64 (what : String) : Read Nat := do
  need 8 what
  return beValue (← take 8)

/-- `n` bytes padded to a multiple of four. -/
def opaqueBytes (n : Nat) (what : String) : Read (List UInt8) := do
  let cur ← get
  if n + 3 < word then
    let padded := (n + 3) / 4 * 4
    need padded what
    set { cur with pos := cur.pos + padded }
    return (cur.buf.drop cur.pos).take n
  else throw (.malformed what cur.pos)

def string (what : String) : Read String := do
  let n ← u32 what
  return fromUtf8Lossy (← opaqueBytes n what)

/-- The number of elements of an array, which repeats the number the pair declares and has room
for its elements. -/
def count (nelem : Int) (elsize : Nat) (what : String) : Read Nat := do
  let n ← u32 what
  let cur ← get
  if nelem < 0 ∨ (n : Int) ≠ nelem then throw (.malformed what (cur.pos - 4))
  else if n * elsize < word then
    need (n * elsize) what
    return n
  else throw (.malformed what cur.pos)

/-- `n` elements, one after the other. -/
def times {α : Type} (element : Read α) : Nat → Read (List α)
  | 0 => return []
  | n + 1 => do
    let first ← element
    return first :: (← times element n)

/-- A declared number of elements. -/
def declared (nelem : Int) (what : String) : Read Nat := do
  let cur ← get
  if nelem < 0 then throw (.malformed what cur.pos) else return nelem.toNat

end Read

/-! ## Lists -/

/-- The deepest nesting that is accepted. -/
def nvMaxDepth : Nat := 32

/-- The most pairs of a list that are accepted. -/
def nvMaxPairs : Nat := 2 ^ 16

/-- An integer narrower than 64 bits, by the code of its type. -/
def narrowInt (typeCode raw : Int) : Int :=
  match typeCode with
  | 2 | 23 => raw % 2 ^ 8
  | 22 => Read.signed 8 (raw % 2 ^ 8).toNat
  | 3 => Read.signed 16 (raw % 2 ^ 16).toNat
  | 4 => raw % 2 ^ 16
  | 6 => raw % 2 ^ 32
  | _ => raw

/-- An element of an array of such integers. -/
def narrowElement (typeCode raw : Int) : Int :=
  match typeCode with
  | 11 => Read.signed 16 (raw % 2 ^ 16).toNat
  | 12 => raw % 2 ^ 16
  | 14 => raw % 2 ^ 32
  | 25 => Read.signed 8 (raw % 2 ^ 8).toNat
  | 26 => raw % 2 ^ 8
  | _ => raw

/-- The value of a pair, where `nested` reads a list one level deeper. -/
def parseValue (nested : Read NvList) (typeCode nelem : Int) : Read Value := do
  let what := "nvpair value"
  match typeCode with
  | 1 => return .boolean
  | 21 => return .bool ((← Read.u32 what) ≠ 0)
  | 2 | 22 | 23 | 3 | 4 | 5 | 6 => return .int (narrowInt typeCode (← Read.i32 what))
  | 7 | 18 => return .int64 (Read.signed 64 (← Read.u64 what))
  | 8 => return .uint64 (← Read.u64 what)
  | 27 => return .double (← Read.u64 what)
  | 9 => return .string (← Read.string what)
  | 10 => do
    let n ← Read.declared nelem what
    return .bytes (← Read.opaqueBytes n what)
  | 11 | 12 | 13 | 14 | 25 | 26 => do
    let n ← Read.count nelem 4 what
    return .intArray ((← Read.times (Read.i32 what) n).map (narrowElement typeCode))
  | 24 => do
    let n ← Read.count nelem 4 what
    return .boolArray ((← Read.times (Read.u32 what) n).map (fun x => x ≠ 0))
  | 15 => do
    let n ← Read.count nelem 8 what
    return .int64Array ((← Read.times (Read.u64 what) n).map (Read.signed 64))
  | 16 => do
    let n ← Read.count nelem 8 what
    return .uint64Array (← Read.times (Read.u64 what) n)
  | 17 => do
    let n ← Read.declared nelem what
    return .stringArray (← Read.times (Read.string what) n)
  | 19 => return .list (← nested)
  | 20 => do
    let n ← Read.declared nelem what
    return .listArray (← Read.times nested n)
  | _ => return .unknown typeCode nelem

/-- A pair whose sizes have been read, inside the bounds it states. -/
def parsePair (nested : Read NvList) : Read (String × Value) := do
  let name ← Read.string "nvpair name"
  let typeCode ← Read.i32 "nvpair type"
  let nelem ← Read.i32 "nvpair nelem"
  return (name, ← parseValue nested typeCode nelem)

/-- The pairs of a list from the cursor on, after `found` of them.  Every pair takes at least
16 bytes, so `fuel` need not exceed the length of the buffer. -/
def parsePairs (nested : Read NvList) : (fuel found : Nat) → Read (List (String × Value))
  | 0, _ => return []
  | fuel + 1, found => do
    let pairStart := (← get).pos
    let encoded ← Read.i32 "nvpair encoded size"
    let _decoded ← Read.i32 "nvpair decoded size"
    if encoded = 0 then return []
    else if found ≥ nvMaxPairs then throw (.malformed "more pairs than MAX_PAIRS" pairStart)
    else if encoded < 0 then throw (.malformed "negative nvpair size" pairStart)
    else
      let cur ← get
      let pairEnd := pairStart + encoded.toNat
      if pairEnd ≤ cur.buf.length ∧ encoded ≥ 16 then
        let (pair, _) ← parsePair nested { buf := cur.buf.take pairEnd, pos := cur.pos }
        set { cur with pos := pairEnd }
        return pair :: (← parsePairs nested fuel (found + 1))
      else throw (.malformed "nvpair size beyond buffer" pairStart)

/-- A list, with `depth` levels left. -/
def parseList : (depth : Nat) → Read NvList
  | 0 => fun cur => .error (.malformed "nesting deeper than MAX_DEPTH" cur.pos)
  | depth + 1 => do
    let version ← Read.i32 "nvlist version"
    let flags ← Read.u32 "nvlist flags"
    let cur ← get
    return .mk version flags (← parsePairs (parseList depth) (cur.buf.length + 1) 0)

/-- A packed list with its header, as a label holds it. -/
def parsePacked (buf : List UInt8) : Except ParseError NvList :=
  if buf.length < 4 then .error (.truncated 4 buf.length)
  else if buf.getD 0 0 ≠ 1 then .error (.malformed "XDR encoding byte" 0)
  else (parseList (nvMaxDepth + 1) { buf, pos := 4 }).map Prod.fst

/-- What does not begin with the byte of its encoding is not a list. -/
theorem parsePacked_of_getD {buf : List UInt8} (hbyte : buf.getD 0 0 ≠ 1) :
    ∃ e, parsePacked buf = .error e := by
  by_cases hshort : buf.length < 4
  · exact ⟨_, if_pos hshort⟩
  · rw [parsePacked, if_neg hshort, if_pos hbyte]
    exact ⟨_, rfl⟩

end Ondisk
end ZvolRescue
