import ZvolRescue.Lib.Window
import ZvolRescue.Ondisk.Seal
import ZvolRescue.Ondisk.Spacemap

/-!
# The entries of a space map

A log is a stream of words: an entry of one word or of two, or a marker, told apart by their two
top bits.  Offsets and runs are in units of a shift that is read from disk.  What the pool wrote
is what is read as long as nothing overflows on the way to bytes (`read_exact_iff`); the decoder
does not check the shift.
-/

namespace ZvolRescue
namespace Ondisk
namespace Spacemap

open Lib

/-! ## The decoder -/

/-- Which transaction group and sync pass the entries after it belong to. -/
structure Debug where
  txg : Nat
  syncPass : Nat
  deriving DecidableEq, Repr

inductive Step where
  | entry (e : Entry)
  | debug (d : Debug)
  deriving DecidableEq, Repr

/-- The arithmetic of a build on 64-bit numbers; `none` where it does not go on. -/
structure Arith where
  shl : Nat → Nat → Option Nat
  shr : Nat → Nat → Option Nat
  mul : Nat → Nat → Option Nat

namespace Arith

/-- A shift amount counts modulo 64, and a product keeps its low 64 bits. -/
def release : Arith :=
  { shl := fun a s => some (shl64 a s)
    shr := fun a s => some (shr64 a s)
    mul := fun a b => some (mul64 a b) }

/-- Nothing may overflow. -/
def exact : Arith :=
  { shl := fun a s => if s < 64 ∧ a * 2 ^ s < word then some (a * 2 ^ s) else none
    shr := fun a s => if s < 64 then some (a / 2 ^ s) else none
    mul := fun a b => if a * b < word then some (a * b) else none }

end Arith

def smDebugPrefix : Nat := 2

def sm2Prefix : Nat := 3

/-- The step at word `at_` and the words that it takes, in units of `2 ^ shift` bytes; none at
the end of the words, and where an entry of two words is cut short. -/
def decode (a : Arith) (words : List UInt64) (at_ shift : Nat) : Option (Option (Step × Nat)) :=
  match words[at_]? with
  | none => some none
  | some w =>
    (a.shl 1 shift).bind (fun unit =>
      if bits w 62 2 = smDebugPrefix then
        some (some (.debug { txg := bits w 0 50, syncPass := bits w 50 10 }, 1))
      else if bits w 62 2 = sm2Prefix then
        match words[at_ + 1]? with
        | none => some none
        | some second =>
          let run := bits w 24 36 + 1
          let vdev := bits w 0 24
          let kind := if bits second 63 1 = 0 then MapType.alloc else .free
          let offset := bits second 0 63
          (a.mul offset unit).bind (fun offset =>
            (a.mul run unit).map (fun run => some (.entry { kind, offset, run, vdev }, 2)))
      else
        let offset := bits w 16 47
        let kind := if bits w 15 1 = 0 then MapType.alloc else .free
        let run := bits w 0 15 + 1
        (a.mul offset unit).bind (fun offset =>
          (a.mul run unit).map (fun run => some (.entry { kind, offset, run, vdev := none }, 1))))

/-- The loop of `entries`; every round takes a word at least. -/
def entriesLoop (a : Arith) (words : List UInt64) (shift : Nat) :
    (rounds at_ : Nat) → Option (List Entry)
  | 0, _ => some []
  | rounds + 1, at_ =>
    if at_ < words.length then
      (decode a words at_ shift).bind (fun step =>
        match step with
        | none => some []
        | some (.entry e, n) => (entriesLoop a words shift rounds (at_ + n)).map (fun es => e :: es)
        | some (.debug _, n) => entriesLoop a words shift rounds (at_ + n))
    else some []

/-- The words of a log; what is left of less than a word is dropped. -/
def wordsOf (bytes : List UInt8) (endian : Endian) : List UInt64 :=
  (chunksExact 8 bytes.length bytes).map endian.value

/-- The entries of a whole log, in order; `shift` is a 32-bit number. -/
def entries (a : Arith) (bytes : List UInt8) (shift : Nat) (endian : Endian) :
    Option (List Entry) :=
  let words := wordsOf bytes endian
  entriesLoop a words shift words.length 0

/-- How many metaslabs a vdev has, where its size is known. -/
def metaslabCount (a : Arith) (asize : Option Nat) (shift : Nat) : Option (Option Nat) :=
  match asize with
  | none => some none
  | some asize => (a.shr asize shift).map (fun n => if n > 0 then some n else none)

/-- The log of metaslab `i`: how many metaslabs there are, where this one begins, and its
entries. The shifts are those of the configuration, 64 bits wide. -/
def read (a : Arith) (asize : Option Nat) (i shift ashift : Nat) (bytes : List UInt8)
    (endian : Endian) : Option (Option Nat × Nat × List Entry) :=
  (metaslabCount a asize shift).bind (fun count =>
    (a.shl i shift).bind (fun base =>
      (entries a bytes (ashift % 2 ^ 32) endian).map (fun es => (count, base, es))))

/-! ## What a pool writes -/

/-- What a log is made of, in units. -/
inductive LogEntry where
  | one (kind : MapType) (offset run : Nat)
  | two (kind : MapType) (vdev offset run : Nat)
  /-- A marker, or the padding at the end of a block. -/
  | debug (action syncPass txg : Nat)

namespace LogEntry

/-- Numbers that their fields hold. -/
def Fits : LogEntry → Prop
  | one _ offset run => offset < 2 ^ 47 ∧ 0 < run ∧ run ≤ 2 ^ 15
  | two _ vdev offset run => vdev < 2 ^ 24 ∧ offset < 2 ^ 63 ∧ 0 < run ∧ run ≤ 2 ^ 36
  | debug action syncPass txg => action < 2 ^ 2 ∧ syncPass < 2 ^ 10 ∧ txg < 2 ^ 50

instance (e : LogEntry) : Decidable e.Fits :=
  match e with
  | one _ offset run => inferInstanceAs (Decidable (offset < 2 ^ 47 ∧ 0 < run ∧ run ≤ 2 ^ 15))
  | two _ vdev offset run =>
    inferInstanceAs (Decidable (vdev < 2 ^ 24 ∧ offset < 2 ^ 63 ∧ 0 < run ∧ run ≤ 2 ^ 36))
  | debug action syncPass txg =>
    inferInstanceAs (Decidable (action < 2 ^ 2 ∧ syncPass < 2 ^ 10 ∧ txg < 2 ^ 50))

def kindBit : MapType → Nat
  | .alloc => 0
  | .free => 1

/-- The first word of an entry of two. -/
def sm2Word (vdev run : Nat) : UInt64 := UInt64.ofNat (3 * 2 ^ 62 + (run - 1) * 2 ^ 24 + vdev)

def words : LogEntry → List UInt64
  | one kind offset run => [UInt64.ofNat (offset * 2 ^ 16 + kindBit kind * 2 ^ 15 + (run - 1))]
  | two kind vdev offset run => [sm2Word vdev run, UInt64.ofNat (kindBit kind * 2 ^ 63 + offset)]
  | debug action syncPass txg =>
    [UInt64.ofNat (2 * 2 ^ 62 + action * 2 ^ 60 + syncPass * 2 ^ 50 + txg)]

/-- The entry in bytes; a marker is none. -/
def inBytes (shift : Nat) : LogEntry → Option Entry
  | one kind offset run =>
    some { kind, offset := offset * 2 ^ shift, run := run * 2 ^ shift, vdev := none }
  | two kind vdev offset run =>
    some { kind, offset := offset * 2 ^ shift, run := run * 2 ^ shift, vdev := some vdev }
  | debug _ _ _ => none

/-- Offset and run in bytes are 64-bit numbers. -/
def Scales (shift : Nat) : LogEntry → Prop
  | one _ offset run => offset * 2 ^ shift < word ∧ run * 2 ^ shift < word
  | two _ _ offset run => offset * 2 ^ shift < word ∧ run * 2 ^ shift < word
  | debug _ _ _ => True

instance (shift : Nat) (e : LogEntry) : Decidable (e.Scales shift) :=
  match e with
  | one _ offset run =>
    inferInstanceAs (Decidable (offset * 2 ^ shift < word ∧ run * 2 ^ shift < word))
  | two _ _ offset run =>
    inferInstanceAs (Decidable (offset * 2 ^ shift < word ∧ run * 2 ^ shift < word))
  | debug _ _ _ => inferInstanceAs (Decidable True)

end LogEntry

/-- The end of a log: an entry of two words that is cut short, or nothing, and less than a
word. -/
def Cut (endian : Endian) (tail : List UInt8) : Prop :=
  ∃ last part, tail = last.flatMap endian.bytes ++ part ∧ part.length < 8 ∧
    (last = [] ∨ ∃ vdev run, vdev < 2 ^ 24 ∧ run ≤ 2 ^ 36 ∧ last = [LogEntry.sm2Word vdev run])

/-! ## One entry -/

theorem bits_ofNat {n : Nat} (h : n < 2 ^ 64) (low len : Nat) :
    bits (UInt64.ofNat n) low len = n / 2 ^ low % 2 ^ len := by
  rw [bits, UInt64.toNat_ofNat', Nat.mod_eq_of_lt h]

theorem kindBit_le (kind : MapType) : LogEntry.kindBit kind ≤ 1 := by
  cases kind <;> decide

theorem kind_of_bit (kind : MapType) :
    (if LogEntry.kindBit kind = 0 then MapType.alloc else .free) = kind := by
  cases kind <;> rfl

namespace LogEntry

/-- What the decoder makes of an entry, once it has its unit. -/
def step (a : Arith) (unit : Nat) : LogEntry → Option (Option (Step × Nat))
  | one kind offset run =>
    (a.mul offset unit).bind (fun offset =>
      (a.mul run unit).map (fun run => some (.entry { kind, offset, run, vdev := none }, 1)))
  | two kind vdev offset run =>
    (a.mul offset unit).bind (fun offset =>
      (a.mul run unit).map (fun run => some (.entry { kind, offset, run, vdev := some vdev }, 2)))
  | debug _ syncPass txg => some (some (.debug { txg, syncPass }, 1))

theorem Fits.decode_one {kind : MapType} {offset run : Nat} (h : (one kind offset run).Fits)
    (a : Arith) {words rest : List UInt64} {at_ : Nat} (shift : Nat)
    (hwords : words.drop at_ = (one kind offset run).words ++ rest) :
    decode a words at_ shift =
      (a.shl 1 shift).bind (fun unit => (one kind offset run).step a unit) := by
  obtain ⟨hoffset, hpos, hrun⟩ := h
  have hbit := kindBit_le kind
  obtain ⟨hw, -⟩ := Lib.getElem?_of_drop hwords
  have hbits := bits_ofNat (n := offset * 2 ^ 16 + kindBit kind * 2 ^ 15 + (run - 1)) (by omega)
  have htop :
      bits (UInt64.ofNat (offset * 2 ^ 16 + kindBit kind * 2 ^ 15 + (run - 1))) 62 2 < 2 := by
    rw [hbits]
    omega
  have hread : bits (UInt64.ofNat (offset * 2 ^ 16 + kindBit kind * 2 ^ 15 + (run - 1))) 16 47 =
      offset := by
    rw [hbits]
    omega
  have hkind : bits (UInt64.ofNat (offset * 2 ^ 16 + kindBit kind * 2 ^ 15 + (run - 1))) 15 1 =
      kindBit kind := by
    rw [hbits]
    omega
  have hlen : bits (UInt64.ofNat (offset * 2 ^ 16 + kindBit kind * 2 ^ 15 + (run - 1))) 0 15 + 1 =
      run := by
    rw [hbits]
    omega
  have hdebug : smDebugPrefix = 2 := rfl
  have htwo : sm2Prefix = 3 := rfl
  rw [decode, hw]
  refine congrArg (Option.bind (a.shl 1 shift)) (funext (fun unit => ?_))
  rw [if_neg (by omega), if_neg (by omega), hread, hkind, hlen, kind_of_bit]
  rfl

/-- An entry of two words is known by its first. -/
theorem sm2Word_bits {vdev run : Nat} (hvdev : vdev < 2 ^ 24) (hrun : run ≤ 2 ^ 36) :
    bits (sm2Word vdev run) 62 2 = 3 ∧ bits (sm2Word vdev run) 0 24 = vdev ∧
      (0 < run → bits (sm2Word vdev run) 24 36 + 1 = run) := by
  have hbits := bits_ofNat (n := 3 * 2 ^ 62 + (run - 1) * 2 ^ 24 + vdev) (by omega)
  rw [sm2Word, hbits, hbits, hbits]
  omega

theorem Fits.decode_two {kind : MapType} {vdev offset run : Nat}
    (h : (two kind vdev offset run).Fits) (a : Arith) {words rest : List UInt64} {at_ : Nat}
    (shift : Nat) (hwords : words.drop at_ = (two kind vdev offset run).words ++ rest) :
    decode a words at_ shift =
      (a.shl 1 shift).bind (fun unit => (two kind vdev offset run).step a unit) := by
  obtain ⟨hvdev, hoffset, hpos, hrun⟩ := h
  have hbit := kindBit_le kind
  obtain ⟨hw, hnext⟩ := Lib.getElem?_of_drop hwords
  obtain ⟨hsecond, -⟩ := Lib.getElem?_of_drop hnext
  obtain ⟨htop, hread, hlen⟩ := sm2Word_bits hvdev hrun
  have hbits := bits_ofNat (n := kindBit kind * 2 ^ 63 + offset) (by omega)
  have hkind : bits (UInt64.ofNat (kindBit kind * 2 ^ 63 + offset)) 63 1 = kindBit kind := by
    rw [hbits]
    omega
  have hat : bits (UInt64.ofNat (kindBit kind * 2 ^ 63 + offset)) 0 63 = offset := by
    rw [hbits]
    omega
  rw [decode, hw]
  refine congrArg (Option.bind (a.shl 1 shift)) (funext (fun unit => ?_))
  rw [htop, if_neg (by decide), if_pos (by decide), hsecond]
  dsimp only
  rw [hread, hlen hpos, hkind, hat, kind_of_bit]
  rfl

theorem Fits.decode_debug {action syncPass txg : Nat} (h : (debug action syncPass txg).Fits)
    (a : Arith) {words rest : List UInt64} {at_ : Nat} (shift : Nat)
    (hwords : words.drop at_ = (debug action syncPass txg).words ++ rest) :
    decode a words at_ shift =
      (a.shl 1 shift).bind (fun unit => (debug action syncPass txg).step a unit) := by
  obtain ⟨haction, hpass, htxg⟩ := h
  obtain ⟨hw, -⟩ := Lib.getElem?_of_drop hwords
  have hbits := bits_ofNat (n := 2 * 2 ^ 62 + action * 2 ^ 60 + syncPass * 2 ^ 50 + txg) (by omega)
  have htop : bits (UInt64.ofNat (2 * 2 ^ 62 + action * 2 ^ 60 + syncPass * 2 ^ 50 + txg)) 62 2 =
      2 := by
    rw [hbits]
    omega
  have hlow : bits (UInt64.ofNat (2 * 2 ^ 62 + action * 2 ^ 60 + syncPass * 2 ^ 50 + txg)) 0 50 =
      txg := by
    rw [hbits]
    omega
  have hmid : bits (UInt64.ofNat (2 * 2 ^ 62 + action * 2 ^ 60 + syncPass * 2 ^ 50 + txg)) 50 10 =
      syncPass := by
    rw [hbits]
    omega
  rw [decode, hw]
  refine congrArg (Option.bind (a.shl 1 shift)) (funext (fun unit => ?_))
  rw [htop, if_pos (by decide), hlow, hmid]
  rfl

/-- An entry is decoded with all its fields, wherever it stands in the log. -/
theorem Fits.decode {e : LogEntry} (h : e.Fits) (a : Arith) {words rest : List UInt64} {at_ : Nat}
    (shift : Nat) (hwords : words.drop at_ = e.words ++ rest) :
    Spacemap.decode a words at_ shift = (a.shl 1 shift).bind (fun unit => e.step a unit) := by
  cases e with
  | one kind offset run => exact h.decode_one a shift hwords
  | two kind vdev offset run => exact h.decode_two a shift hwords
  | debug action syncPass txg => exact h.decode_debug a shift hwords

/-- The step of an entry, and the words that it takes. -/
def result (shift : Nat) (e : LogEntry) : Step × Nat :=
  match e with
  | one kind offset run =>
    (.entry { kind, offset := offset * 2 ^ shift, run := run * 2 ^ shift, vdev := none }, 1)
  | two kind vdev offset run =>
    (.entry { kind, offset := offset * 2 ^ shift, run := run * 2 ^ shift, vdev := some vdev }, 2)
  | debug _ syncPass txg => (.debug { txg, syncPass }, 1)

theorem exact_mul_iff {a b c : Nat} : Arith.exact.mul a b = some c ↔ a * b < word ∧ c = a * b := by
  show (if a * b < word then some (a * b) else none) = some c ↔ _
  by_cases h : a * b < word
  · rw [if_pos h, Option.some.injEq]
    exact ⟨fun hc => ⟨h, hc.symm⟩, fun hc => hc.2.symm⟩
  · rw [if_neg h]
    exact ⟨fun hc => (by cases hc), fun hc => absurd hc.1 h⟩

theorem exact_shl_iff {a s c : Nat} :
    Arith.exact.shl a s = some c ↔ (s < 64 ∧ a * 2 ^ s < word) ∧ c = a * 2 ^ s := by
  show (if s < 64 ∧ a * 2 ^ s < word then some (a * 2 ^ s) else none) = some c ↔ _
  by_cases h : s < 64 ∧ a * 2 ^ s < word
  · rw [if_pos h, Option.some.injEq]
    exact ⟨fun hc => ⟨h, hc.symm⟩, fun hc => hc.2.symm⟩
  · rw [if_neg h]
    exact ⟨fun hc => (by cases hc), fun hc => absurd hc.1 h⟩

theorem pow_lt_word {s : Nat} (hs : s < 64) : 1 * 2 ^ s < word := by
  rw [Nat.one_mul, word]
  exact Nat.pow_lt_pow_right (by decide) hs

theorem exact_unit_iff {s c : Nat} : Arith.exact.shl 1 s = some c ↔ s < 64 ∧ c = 2 ^ s := by
  rw [exact_shl_iff, Nat.one_mul]
  refine ⟨fun h => ⟨h.1.1, h.2⟩, fun h => ⟨⟨h.1, ?_⟩, h.2⟩⟩
  have hlt := pow_lt_word h.1
  rwa [Nat.one_mul] at hlt

/-- Without overflow, an entry comes out in bytes. -/
theorem step_exact_iff {shift : Nat} {e : LogEntry} {r : Option (Step × Nat)} :
    e.step Arith.exact (2 ^ shift) = some r ↔ e.Scales shift ∧ r = some (e.result shift) := by
  cases e with
  | one kind offset run =>
    simp only [step, Option.bind_eq_some_iff, Option.map_eq_some_iff, exact_mul_iff]
    constructor
    · rintro ⟨_, ⟨hoffset, rfl⟩, _, ⟨hrun, rfl⟩, rfl⟩
      exact ⟨⟨hoffset, hrun⟩, rfl⟩
    · rintro ⟨⟨hoffset, hrun⟩, rfl⟩
      exact ⟨_, ⟨hoffset, rfl⟩, _, ⟨hrun, rfl⟩, rfl⟩
  | two kind vdev offset run =>
    simp only [step, Option.bind_eq_some_iff, Option.map_eq_some_iff, exact_mul_iff]
    constructor
    · rintro ⟨_, ⟨hoffset, rfl⟩, _, ⟨hrun, rfl⟩, rfl⟩
      exact ⟨⟨hoffset, hrun⟩, rfl⟩
    · rintro ⟨⟨hoffset, hrun⟩, rfl⟩
      exact ⟨_, ⟨hoffset, rfl⟩, _, ⟨hrun, rfl⟩, rfl⟩
  | debug action syncPass txg =>
    show some (some (debug action syncPass txg |>.result shift)) = some r ↔ True ∧ _
    rw [Option.some.injEq, true_and]
    exact eq_comm

theorem Fits.decode_exact_iff {e : LogEntry} (h : e.Fits) {words rest : List UInt64}
    {at_ shift : Nat} (hwords : words.drop at_ = e.words ++ rest) {r : Option (Step × Nat)} :
    Spacemap.decode Arith.exact words at_ shift = some r ↔
      (shift < 64 ∧ e.Scales shift) ∧ r = some (e.result shift) := by
  rw [h.decode Arith.exact shift hwords, Option.bind_eq_some_iff]
  simp only [exact_unit_iff]
  constructor
  · rintro ⟨_, ⟨hshift, rfl⟩, hstep⟩
    obtain ⟨hscales, hr⟩ := step_exact_iff.mp hstep
    exact ⟨⟨hshift, hscales⟩, hr⟩
  · rintro ⟨⟨hshift, hscales⟩, hr⟩
    exact ⟨_, ⟨hshift, rfl⟩, step_exact_iff.mpr ⟨hscales, hr⟩⟩

theorem words_length_pos (e : LogEntry) : 0 < e.words.length := by
  cases e <;> exact Nat.succ_pos _

end LogEntry

/-! ## The whole log -/

open LogEntry

/-- A round of the loop on an entry that is decoded. -/
theorem entriesLoop_step {a : Arith} {words : List UInt64} {shift rounds at_ : Nat} {e : LogEntry}
    (hin : at_ < words.length) (h : decode a words at_ shift = some (some (e.result shift))) :
    entriesLoop a words shift (rounds + 1) at_ =
      (entriesLoop a words shift rounds (at_ + e.words.length)).map
        (fun es => (e.inBytes shift).toList ++ es) := by
  rw [entriesLoop, if_pos hin, h, Option.bind_some]
  cases e with
  | one kind offset run => rfl
  | two kind vdev offset run => rfl
  | debug action syncPass txg =>
    show entriesLoop a words shift rounds (at_ + 1) =
      (entriesLoop a words shift rounds (at_ + 1)).map id
    rw [Option.map_id, id]

/-- A round of the loop on an entry of two words that is cut short. -/
theorem decode_last {a : Arith} {words : List UInt64} {at_ vdev run : Nat} (shift : Nat)
    (hvdev : vdev < 2 ^ 24) (hrun : run ≤ 2 ^ 36) (h : words.drop at_ = [sm2Word vdev run]) :
    decode a words at_ shift = (a.shl 1 shift).bind (fun _ => some none) := by
  obtain ⟨hw, hnext⟩ := Lib.getElem?_of_drop h
  have hend : words[at_ + 1]? = none :=
    List.getElem?_eq_none (List.drop_eq_nil_iff.mp hnext)
  rw [decode, hw]
  refine congrArg (Option.bind (a.shl 1 shift)) (funext (fun unit => ?_))
  rw [(sm2Word_bits hvdev hrun).1, if_neg (by decide), if_pos (by decide), hend]

/-- What may stand behind the last whole entry. -/
def Last (last : List UInt64) : Prop :=
  last = [] ∨ ∃ vdev run, vdev < 2 ^ 24 ∧ run ≤ 2 ^ 36 ∧ last = [sm2Word vdev run]

/-- The loop goes through a log without overflow exactly where the shift and all the entries
allow it, and then yields all of them. -/
theorem entriesLoop_exact_iff {words last : List UInt64} {shift : Nat} (hlast : Last last)
    {es : List LogEntry} (hfits : ∀ e ∈ es, e.Fits) {rounds at_ : Nat}
    (hwords : words.drop at_ = es.flatMap LogEntry.words ++ last)
    (hrounds : (words.drop at_).length ≤ rounds) {found : List Entry} :
    entriesLoop Arith.exact words shift rounds at_ = some found ↔
      ((words.drop at_ = [] ∨ shift < 64) ∧ ∀ e ∈ es, e.Scales shift) ∧
        found = es.filterMap (LogEntry.inBytes shift) := by
  induction es generalizing at_ rounds found with
  | nil =>
    have hwords : words.drop at_ = last := hwords
    rw [hwords] at hrounds ⊢
    rcases hlast with hnone | ⟨vdev, run, hvdev, hrun, hcut⟩
    · rw [hnone] at hwords ⊢
      have hend := List.drop_eq_nil_iff.mp hwords
      have hstop : entriesLoop Arith.exact words shift rounds at_ = some [] := by
        cases rounds with
        | zero => rfl
        | succ rounds => rw [entriesLoop, if_neg (by omega)]
      rw [hstop, Option.some.injEq]
      exact ⟨fun h => ⟨⟨Or.inl rfl, fun e he => (by cases he)⟩, h.symm⟩, fun h => h.2.symm⟩
    · rw [hcut] at hwords hrounds ⊢
      obtain ⟨rounds, rfl⟩ : ∃ r, rounds = r + 1 := ⟨rounds - 1, by simp at hrounds; omega⟩
      have hin : at_ < words.length := by
        by_contra hout
        rw [List.drop_eq_nil_iff.mpr (by omega)] at hwords
        cases hwords
      rw [entriesLoop, if_pos hin, decode_last shift hvdev hrun hwords, Option.bind_eq_some_iff]
      simp only [Option.bind_eq_some_iff, exact_unit_iff]
      constructor
      · rintro ⟨_, ⟨_, ⟨hshift, rfl⟩, hnone⟩, hfound⟩
        cases hnone
        cases hfound
        exact ⟨⟨Or.inr hshift, fun e he => (by cases he)⟩, rfl⟩
      · rintro ⟨⟨hshift, -⟩, rfl⟩
        have hshift : shift < 64 := hshift.resolve_left (by simp)
        exact ⟨none, ⟨_, ⟨hshift, rfl⟩, rfl⟩, rfl⟩
  | cons e es ih =>
    obtain ⟨he, hrest⟩ := List.forall_mem_cons.mp hfits
    rw [List.flatMap_cons, List.append_assoc] at hwords
    have hpos := words_length_pos e
    have hlength := congrArg List.length hwords
    rw [List.length_append, List.length_drop] at hlength
    rw [List.length_drop] at hrounds
    have hin : at_ < words.length := by omega
    have hne : words.drop at_ ≠ [] := fun hnil => by
      have hend := List.drop_eq_nil_iff.mp hnil
      omega
    have hnext : words.drop (at_ + e.words.length) = es.flatMap LogEntry.words ++ last := by
      rw [← List.drop_drop, hwords, List.drop_left]
    obtain ⟨rounds, rfl⟩ : ∃ r, rounds = r + 1 := ⟨rounds - 1, by omega⟩
    have hshort : (words.drop (at_ + e.words.length)).length ≤ rounds := by
      rw [List.length_drop]
      omega
    have hconcat : (e :: es).filterMap (LogEntry.inBytes shift) =
        (e.inBytes shift).toList ++ es.filterMap (LogEntry.inBytes shift) := by
      cases e <;> rfl
    rw [hconcat, List.forall_mem_cons]
    constructor
    · intro h
      have hloop := h
      rw [entriesLoop, if_pos hin, Option.bind_eq_some_iff] at h
      obtain ⟨r, hr, -⟩ := h
      obtain ⟨⟨hshift, hscales⟩, rfl⟩ := (he.decode_exact_iff hwords).mp hr
      rw [entriesLoop_step hin hr, Option.map_eq_some_iff] at hloop
      obtain ⟨later, hlater, rfl⟩ := hloop
      obtain ⟨⟨-, hall⟩, rfl⟩ := (ih hrest hnext hshort).mp hlater
      exact ⟨⟨Or.inr hshift, hscales, hall⟩, rfl⟩
    · rintro ⟨⟨hshift, hscales, hall⟩, rfl⟩
      have hshift : shift < 64 := hshift.resolve_left hne
      have hr := (he.decode_exact_iff hwords).mpr ⟨⟨hshift, hscales⟩, rfl⟩
      rw [entriesLoop_step hin hr, (ih hrest hnext hshort).mpr ⟨⟨Or.inr hshift, hall⟩, rfl⟩]
      rfl

/-! ### Bytes -/

theorem chunksExact_words (endian : Endian) {part : List UInt8} (hpart : part.length < 8)
    (ws : List UInt64) : ∀ fuel, ws.length ≤ fuel →
      chunksExact 8 fuel (ws.flatMap endian.bytes ++ part) = ws.map endian.bytes := by
  induction ws with
  | nil =>
    intro fuel _
    cases fuel with
    | zero => rfl
    | succ fuel => exact if_pos hpart
  | cons w ws ih =>
    intro fuel hfuel
    rw [List.length_cons] at hfuel
    obtain ⟨fuel, rfl⟩ : ∃ k, fuel = k + 1 := ⟨fuel - 1, by omega⟩
    have hw := Endian.bytes_length endian w
    rw [List.flatMap_cons, List.append_assoc, chunksExact, if_neg, List.take_left' hw,
      List.drop_left' hw, ih fuel (by omega), List.map_cons]
    rw [List.length_append, hw]
    omega

/-- The words that a log was written from; less than a word at its end is dropped. -/
theorem wordsOf_bytes (endian : Endian) {part : List UInt8} (hpart : part.length < 8)
    (ws : List UInt64) : wordsOf (ws.flatMap endian.bytes ++ part) endian = ws := by
  have hlen : ws.length ≤ (ws.flatMap endian.bytes ++ part).length := by
    have hbytes : (ws.flatMap endian.bytes).length = ws.length * 8 := by
      induction ws with
      | nil => rfl
      | cons w ws ih =>
        rw [List.flatMap_cons, List.length_append, Endian.bytes_length, ih, List.length_cons]
        omega
    rw [List.length_append, hbytes]
    omega
  have hback : endian.value ∘ endian.bytes = id := funext (Endian.value_bytes endian)
  rw [wordsOf, chunksExact_words endian hpart ws _ hlen, List.map_map, hback, List.map_id]

/-! ### Builds that check, and builds that do not -/

namespace Arith

/-- What goes on in `a` goes on in `b`, with the same numbers. -/
structure Within (a b : Arith) : Prop where
  shl : ∀ {x y z}, a.shl x y = some z → b.shl x y = some z
  shr : ∀ {x y z}, a.shr x y = some z → b.shr x y = some z
  mul : ∀ {x y z}, a.mul x y = some z → b.mul x y = some z

/-- Where nothing overflows, a build without checks computes the same. -/
theorem exact_within_release : exact.Within release := by
  refine ⟨fun {x y z} h => ?_, fun {x y z} h => ?_, fun {x y z} h => ?_⟩
  · obtain ⟨⟨hs, hlt⟩, rfl⟩ := exact_shl_iff.mp h
    exact congrArg some (shl64_of_lt hs hlt)
  · by_cases hs : y < 64
    · have hz : (if y < 64 then some (x / 2 ^ y) else none) = some z := h
      rw [if_pos hs] at hz
      rw [← hz]
      exact congrArg some (shr64_of_lt hs)
    · have hz : (if y < 64 then some (x / 2 ^ y) else none) = some z := h
      rw [if_neg hs] at hz
      cases hz
  · obtain ⟨hlt, rfl⟩ := exact_mul_iff.mp h
    exact congrArg some (mul64_of_lt hlt)

end Arith

section Within

variable {a b : Arith} (hab : a.Within b)

include hab

theorem scaled_within {offset run unit : Nat} {f : Nat → Nat → Option (Step × Nat)}
    {r : Option (Step × Nat)}
    (h : (a.mul offset unit).bind (fun o => (a.mul run unit).map (fun n => f o n)) = some r) :
    (b.mul offset unit).bind (fun o => (b.mul run unit).map (fun n => f o n)) = some r := by
  obtain ⟨o, ho, h⟩ := Option.bind_eq_some_iff.mp h
  obtain ⟨n, hn, rfl⟩ := Option.map_eq_some_iff.mp h
  rw [hab.mul ho, Option.bind_some, hab.mul hn, Option.map_some]

theorem decode_within {words : List UInt64} {at_ shift : Nat} {r : Option (Step × Nat)}
    (h : decode a words at_ shift = some r) : decode b words at_ shift = some r := by
  unfold decode at h ⊢
  cases hw : words[at_]? with
  | none =>
    rw [hw] at h
    exact h
  | some w =>
    rw [hw] at h
    obtain ⟨unit, hunit, h⟩ := Option.bind_eq_some_iff.mp h
    refine Option.bind_eq_some_iff.mpr ⟨unit, hab.shl hunit, ?_⟩
    by_cases hdebug : bits w 62 2 = smDebugPrefix
    · rw [if_pos hdebug] at h ⊢
      exact h
    · rw [if_neg hdebug] at h ⊢
      by_cases htwo : bits w 62 2 = sm2Prefix
      · rw [if_pos htwo] at h ⊢
        cases hsecond : words[at_ + 1]? with
        | none =>
          rw [hsecond] at h
          exact h
        | some second =>
          rw [hsecond] at h
          exact scaled_within hab h
      · rw [if_neg htwo] at h ⊢
        exact scaled_within hab h

theorem entriesLoop_within {words : List UInt64} {shift : Nat} {rounds at_ : Nat}
    {found : List Entry} (h : entriesLoop a words shift rounds at_ = some found) :
    entriesLoop b words shift rounds at_ = some found := by
  induction rounds generalizing at_ found with
  | zero => exact h
  | succ rounds ih =>
    unfold entriesLoop at h ⊢
    by_cases hin : at_ < words.length
    · rw [if_pos hin] at h ⊢
      obtain ⟨r, hr, h⟩ := Option.bind_eq_some_iff.mp h
      rw [decode_within hab hr, Option.bind_some]
      match r, h with
      | none, h => exact h
      | some (.entry e, n), h =>
        obtain ⟨later, hlater, rfl⟩ := Option.map_eq_some_iff.mp h
        exact Option.map_eq_some_iff.mpr ⟨later, ih hlater, rfl⟩
      | some (.debug d, n), h => exact ih h
    · rw [if_neg hin] at h ⊢
      exact h

theorem metaslabCount_within {asize : Option Nat} {shift : Nat} {count : Option Nat}
    (h : metaslabCount a asize shift = some count) : metaslabCount b asize shift = some count := by
  cases asize with
  | none => exact h
  | some asize =>
    obtain ⟨n, hn, rfl⟩ := Option.map_eq_some_iff.mp h
    exact Option.map_eq_some_iff.mpr ⟨n, hab.shr hn, rfl⟩

theorem read_within {asize : Option Nat} {i shift ashift : Nat} {bytes : List UInt8}
    {endian : Endian} {r : Option Nat × Nat × List Entry}
    (h : read a asize i shift ashift bytes endian = some r) :
    read b asize i shift ashift bytes endian = some r := by
  obtain ⟨count, hcount, h⟩ := Option.bind_eq_some_iff.mp h
  obtain ⟨base, hbase, h⟩ := Option.bind_eq_some_iff.mp h
  obtain ⟨es, hes, rfl⟩ := Option.map_eq_some_iff.mp h
  have hes' : entries b bytes (ashift % 2 ^ 32) endian = some es := entriesLoop_within hab hes
  rw [read, metaslabCount_within hab hcount, Option.bind_some, hab.shl hbase, Option.bind_some,
    hes', Option.map_some]

end Within

/-! ## What is read of what was written -/

def encode (es : List LogEntry) (endian : Endian) : List UInt8 :=
  (es.flatMap LogEntry.words).flatMap endian.bytes

/-- What the pool meant: the count and the start of its metaslabs, and the entries in bytes. -/
def intended (asize : Option Nat) (i shift ashift : Nat) (es : List LogEntry) :
    Option Nat × Nat × List Entry :=
  (asize.bind (fun asize => if asize / 2 ^ shift > 0 then some (asize / 2 ^ shift) else none),
    i * 2 ^ shift, es.filterMap (LogEntry.inBytes ashift))

/-- Runs in bytes are small enough only for a shift that is not cut to 32 bits. -/
theorem scales_cut {e : LogEntry} (hfits : e.Fits) {ashift : Nat} (h : e.Scales ashift) :
    e.Scales (ashift % 2 ^ 32) ∧ e.inBytes (ashift % 2 ^ 32) = e.inBytes ashift := by
  have hcut : ∀ run : Nat, 0 < run → run * 2 ^ ashift < word → ashift % 2 ^ 32 = ashift := by
    intro run hpos hrun
    apply Nat.mod_eq_of_lt
    by_contra hlarge
    have hpow : 2 ^ 64 ≤ 2 ^ ashift := Nat.pow_le_pow_right (by decide) (by omega)
    have hle : 1 * 2 ^ ashift ≤ run * 2 ^ ashift := Nat.mul_le_mul_right _ hpos
    rw [word] at hrun
    omega
  cases e with
  | one kind offset run =>
    rw [hcut run hfits.2.1 h.2]
    exact ⟨h, rfl⟩
  | two kind vdev offset run =>
    rw [hcut run hfits.2.2.1 h.2]
    exact ⟨h, rfl⟩
  | debug action syncPass txg => exact ⟨trivial, rfl⟩

theorem inBytes_congr {s s' : Nat} {es : List LogEntry}
    (h : es.filterMap (LogEntry.inBytes s) = es.filterMap (LogEntry.inBytes s')) :
    ∀ e ∈ es, e.inBytes s = e.inBytes s' := by
  induction es with
  | nil =>
    intro e he
    cases he
  | cons e es ih =>
    have hboth : e.inBytes s = e.inBytes s' ∧
        es.filterMap (LogEntry.inBytes s) = es.filterMap (LogEntry.inBytes s') := by
      cases e with
      | one kind offset run =>
        obtain ⟨hhead, htail⟩ := List.cons.inj h
        exact ⟨congrArg some hhead, htail⟩
      | two kind vdev offset run =>
        obtain ⟨hhead, htail⟩ := List.cons.inj h
        exact ⟨congrArg some hhead, htail⟩
      | debug action syncPass txg => exact ⟨rfl, h⟩
    intro e' he'
    rcases List.mem_cons.mp he' with rfl | he'
    · exact hboth.1
    · exact ih hboth.2 e' he'

theorem scales_congr {s s' : Nat} {e : LogEntry} (h : e.inBytes s = e.inBytes s')
    (hscales : e.Scales s) : e.Scales s' := by
  cases e with
  | one kind offset run =>
    have hfields := Option.some.inj h
    rw [Entry.mk.injEq] at hfields
    obtain ⟨-, hoffset, hrun, -⟩ := hfields
    exact ⟨hoffset ▸ hscales.1, hrun ▸ hscales.2⟩
  | two kind vdev offset run =>
    have hfields := Option.some.inj h
    rw [Entry.mk.injEq] at hfields
    obtain ⟨-, hoffset, hrun, -⟩ := hfields
    exact ⟨hoffset ▸ hscales.1, hrun ▸ hscales.2⟩
  | debug action syncPass txg => trivial

/-- The entries of a whole log, without overflow. -/
theorem entries_exact_iff {es : List LogEntry} (hfits : ∀ e ∈ es, e.Fits) {endian : Endian}
    {tail : List UInt8} (hcut : Cut endian tail) {shift : Nat} {found : List Entry} :
    entries Arith.exact (encode es endian ++ tail) shift endian = some found ↔
      (((encode es endian ++ tail).length < 8 ∨ shift < 64) ∧ ∀ e ∈ es, e.Scales shift) ∧
        found = es.filterMap (LogEntry.inBytes shift) := by
  obtain ⟨last, part, rfl, hpart, hlast⟩ := hcut
  have hbytes : encode es endian ++ (last.flatMap endian.bytes ++ part) =
      (es.flatMap LogEntry.words ++ last).flatMap endian.bytes ++ part := by
    rw [List.flatMap_append, List.append_assoc]
    rfl
  have hlen : ∀ ws : List UInt64, (ws.flatMap endian.bytes ++ part).length < 8 ↔ ws = [] := by
    intro ws
    cases ws with
    | nil => simpa using hpart
    | cons w ws =>
      rw [List.flatMap_cons, List.append_assoc, List.length_append, Endian.bytes_length]
      simp
  rw [hbytes, hlen, entries, wordsOf_bytes endian hpart]
  exact entriesLoop_exact_iff hlast hfits (List.drop_zero ..) (by rw [List.drop_zero])

/-- A log is read as it was written, without overflow on the way, exactly where the metaslab
shift and the start of the metaslab are in range, there is no word at all or the unit is in
range, and all offsets and runs in bytes are. -/
theorem read_exact_iff {es : List LogEntry} (hfits : ∀ e ∈ es, e.Fits) {endian : Endian}
    {tail : List UInt8} (hcut : Cut endian tail) (asize : Option Nat) (i shift ashift : Nat) :
    (read Arith.release asize i shift ashift (encode es endian ++ tail) endian =
        some (intended asize i shift ashift es) ∧
      read Arith.exact asize i shift ashift (encode es endian ++ tail) endian =
        some (intended asize i shift ashift es)) ↔
    (shift < 64 ∧ i * 2 ^ shift < word) ∧
      ((encode es endian ++ tail).length < 8 ∨ ashift % 2 ^ 32 < 64) ∧
      ∀ e ∈ es, e.Scales ashift := by
  have hentries : ∀ found, entries Arith.exact (encode es endian ++ tail) (ashift % 2 ^ 32) endian =
      some found ↔ _ := fun found => entries_exact_iff hfits hcut
  constructor
  · rintro ⟨-, h⟩
    obtain ⟨count, hcount, h⟩ := Option.bind_eq_some_iff.mp h
    obtain ⟨base, hbase, h⟩ := Option.bind_eq_some_iff.mp h
    obtain ⟨found, hfound, h⟩ := Option.map_eq_some_iff.mp h
    obtain ⟨hstart, -⟩ := exact_shl_iff.mp hbase
    obtain ⟨⟨hunit, hscales⟩, hread⟩ := (hentries found).mp hfound
    have hsame : es.filterMap (LogEntry.inBytes (ashift % 2 ^ 32)) =
        es.filterMap (LogEntry.inBytes ashift) := by
      rw [← hread]
      exact congrArg (fun r : Option Nat × Nat × List Entry => r.2.2) h
    exact ⟨hstart, hunit, fun e he => scales_congr (inBytes_congr hsame e he) (hscales e he)⟩
  · rintro ⟨hstart, hunit, hscales⟩
    have hcount : metaslabCount Arith.exact asize shift =
        some (intended asize i shift ashift es).1 := by
      cases asize with
      | none => rfl
      | some asize =>
        show Option.map _ (if shift < 64 then some (asize / 2 ^ shift) else none) = _
        rw [if_pos hstart.1]
        rfl
    have hbase := exact_shl_iff.mpr ⟨hstart, rfl⟩
    have hsame : es.filterMap (LogEntry.inBytes ashift) =
        es.filterMap (LogEntry.inBytes (ashift % 2 ^ 32)) :=
      List.filterMap_congr (fun e he => (scales_cut (hfits e he) (hscales e he)).2.symm)
    have hfound := (hentries _).mpr
      ⟨⟨hunit, fun e he => (scales_cut (hfits e he) (hscales e he)).1⟩, hsame⟩
    have h : read Arith.exact asize i shift ashift (encode es endian ++ tail) endian =
        some (intended asize i shift ashift es) := by
      rw [read, hcount, Option.bind_some, hbase, Option.bind_some, hfound, Option.map_some]
      rfl
    exact ⟨read_within Arith.exact_within_release h, h⟩

/-- An entry of each kind, and a marker. -/
def sampleLog : List LogEntry := [.one .alloc 8 16, .debug 0 1 77, .two .free 3 5 7]

theorem sampleLog_fits : ∀ e ∈ sampleLog, e.Fits := by decide

/-- With sectors of 512 bytes, in the second metaslab; an entry of two words is cut short. -/
theorem read_exact_iff_sample :
    read Arith.release (some 4294967296) 1 29 9
        (encode sampleLog .big ++ [sm2Word 3 7].flatMap Endian.big.bytes) .big =
      some (some 8, 536870912,
        [⟨.alloc, 4096, 8192, none⟩, ⟨.free, 2560, 3584, some 3⟩]) := by
  have hcut : Cut .big ([sm2Word 3 7].flatMap Endian.big.bytes) :=
    ⟨[sm2Word 3 7], [], (List.append_nil _).symm, by decide,
      Or.inr ⟨3, 7, by decide, by decide, rfl⟩⟩
  have hscales : ∀ e ∈ sampleLog, e.Scales 9 := by decide
  exact ((read_exact_iff sampleLog_fits hcut (some 4294967296) 1 29 9).mpr
    ⟨by decide, Or.inr (by decide), hscales⟩).1

/-- A sector size of `2 ^ 64` is not refused: the shift is out of range. -/
theorem read_overflows : ¬ ∀ (es : List LogEntry) (endian : Endian) (tail : List UInt8)
    (asize : Option Nat) (i shift ashift : Nat), (∀ e ∈ es, e.Fits) → Cut endian tail →
      read Arith.release asize i shift ashift (encode es endian ++ tail) endian =
          some (intended asize i shift ashift es) ∧
        read Arith.exact asize i shift ashift (encode es endian ++ tail) endian =
          some (intended asize i shift ashift es) := by
  intro h
  have hfits : ∀ e ∈ [LogEntry.one .alloc 0 1], e.Fits := by decide
  have hcut : Cut .little [] := ⟨[], [], rfl, by decide, Or.inl rfl⟩
  have hread := (h _ .little [] none 0 0 64 hfits hcut).2
  have hstops : read Arith.exact none 0 0 64 (encode [.one .alloc 0 1] .little ++ []) .little =
      none := by decide
  rw [hstops] at hread
  cases hread

end Spacemap
end Ondisk
end ZvolRescue
