import ZvolRescue.Ondisk.BlkPtr

/-!
# Block checksums

`verifyBlock` compares the checksum of a block's bytes with the words of its pointer.  The
hash functions themselves are `Hashes`; whether a verdict can be reached depends on the
kind and the salt only (`verifyBlock_evaluable`), never on the bytes.
-/

namespace ZvolRescue
namespace Ondisk

/-- The hash functions, by their digests: at least 32 bytes each. -/
structure Hashes where
  sha256 : List UInt8 → List UInt8
  sha512_256 : List UInt8 → List UInt8
  /-- The three hashes keyed with the salt of the pool. -/
  blake3 : (salt data : List UInt8) → List UInt8
  skein : (salt data : List UInt8) → List UInt8
  edonr : (salt data : List UInt8) → List UInt8

/-- A digest written straight into the words, in the writer's byte order. -/
def nativeWords (digest : List UInt8) (e : Endian) : Words :=
  let w := fun i => (e.u64At digest (i * 8)).getD 0
  { w0 := w 0, w1 := w 1, w2 := w 2, w3 := w 3 }

/-- A digest as four big-endian words. -/
def digestWords (digest : List UInt8) : Words := nativeWords digest .big

inductive Verify where
  | ok
  | mismatch
  /-- The pointer says `off`: nothing to check. -/
  | notChecked
  /-- The algorithm is not implemented, or its salt is not known. -/
  | unsupported
  deriving DecidableEq, Repr

def computeSalted (h : Hashes) (kind : Checksum) (data : List UInt8) (e : Endian)
    (salt : Option (List UInt8)) : Option Words :=
  match kind with
  | .fletcher2 => some (fletcher2 data e)
  | .fletcher4 => some (fletcher4 data e)
  | .sha256 => some (digestWords (h.sha256 data))
  | .sha512 => some (nativeWords (h.sha512_256 data) e)
  | .blake3 => salt.map (fun s => nativeWords (h.blake3 s data) e)
  | .skein => salt.map (fun s => nativeWords (h.skein s data) e)
  | .edonr => salt.map (fun s => nativeWords (h.edonr s data) e)
  | _ => none

/-- Words as a block of an encrypted dataset compares them: the upper two hold the MAC. -/
def Words.truncated (w : Words) : Words := { w with w2 := 0, w3 := 0 }

/-- The upper words folded into the lower ones. -/
def Words.folded (w : Words) : Words := { w with w0 := w.w0 ^^^ w.w2, w1 := w.w1 ^^^ w.w3 }

def verifyBlock (h : Hashes) (kind : Checksum) (data : List UInt8) (e : Endian)
    (expected : Words) (salt : Option (List UInt8)) (crypt : Bool) : Verify :=
  match kind with
  | .off | .noParity => .notChecked
  | _ =>
    match computeSalted h kind data e salt with
    | none => .unsupported
    | some c =>
      if crypt then
        let c := if kind.dedupCapable then c else c.folded
        if c.truncated = expected.truncated then .ok else .mismatch
      else if c = expected then .ok
      else .mismatch

/-- Whether a verdict can be reached: the kind carries no checksum, or its algorithm is
implemented and the salt it needs is known. -/
def Checksum.evaluable (kind : Checksum) (salt : Option (List UInt8)) : Bool :=
  match kind with
  | .off | .noParity | .fletcher2 | .fletcher4 | .sha256 | .sha512 => true
  | .blake3 | .skein | .edonr => salt.isSome
  | .label | .gangHeader | .zilog | .unknown _ => false

theorem computeSalted_isSome (h : Hashes) (kind : Checksum) (data : List UInt8) (e : Endian)
    (salt : Option (List UInt8)) (hkind : kind ≠ .off ∧ kind ≠ .noParity) :
    (computeSalted h kind data e salt).isSome = kind.evaluable salt := by
  cases kind <;> simp_all [computeSalted, Checksum.evaluable]

/-- The bytes do not decide whether a verdict can be reached. -/
theorem verifyBlock_eq_unsupported_iff (h : Hashes) (kind : Checksum) (data : List UInt8)
    (e : Endian) (expected : Words) (salt : Option (List UInt8)) (crypt : Bool) :
    verifyBlock h kind data e expected salt crypt = .unsupported ↔
      kind.evaluable salt = false := by
  by_cases hkind : kind ≠ .off ∧ kind ≠ .noParity
  · have hsome := computeSalted_isSome h kind data e salt hkind
    have hdef : verifyBlock h kind data e expected salt crypt =
        match computeSalted h kind data e salt with
        | none => .unsupported
        | some c =>
          if crypt then
            let c := if kind.dedupCapable then c else c.folded
            if c.truncated = expected.truncated then .ok else .mismatch
          else if c = expected then .ok
          else .mismatch := by
      cases kind <;> simp_all [verifyBlock]
    rw [hdef, ← hsome]
    cases computeSalted h kind data e salt with
    | none => simp
    | some c =>
      show _ ↔ (some c).isSome = false
      simp only [Option.isSome_some, Bool.true_eq_false, iff_false]
      split_ifs <;> simp
  · have hoff : kind = .off ∨ kind = .noParity := by
      by_cases h1 : kind = .off
      · exact Or.inl h1
      · exact Or.inr (by_contra fun h2 => hkind ⟨h1, h2⟩)
    cases hoff with
    | inl hk => subst hk; simp [verifyBlock, Checksum.evaluable]
    | inr hk => subst hk; simp [verifyBlock, Checksum.evaluable]

/-! ## Embedded checksums of gang headers -/

def zecMagic : UInt64 := 0x0210da7ab10c7a11

inductive ChecksumStatus where
  | ok
  | bad
  | missing
  deriving DecidableEq, Repr

def ChecksumStatus.asStr : ChecksumStatus → String
  | ok => "ok"
  | bad => "bad"
  | missing => "missing"

/-- The eight bytes of a word. -/
def Endian.bytes (e : Endian) (w : UInt64) : List UInt8 :=
  let le := (List.range 8).map (fun i => (w >>> UInt64.ofNat (8 * i)).toUInt8)
  match e with
  | .little => le
  | .big => le.reverse

/-- The checksum at the end of `buf`, computed with the verifier in the checksum's place. -/
def verifyEmbedded (h : Hashes) (buf : List UInt8) (verifier : Words) (crypt : Bool) :
    ChecksumStatus :=
  if buf.length < eckSize then .missing
  else
    let eck := buf.length - eckSize
    let endian : Option Endian :=
      if Endian.little.u64At buf eck = some zecMagic then some .little
      else if Endian.big.u64At buf eck = some zecMagic then some .big
      else none
    match endian with
    | none => .missing
    | some e =>
      let stored := nativeWords (buf.drop (eck + 8)) e
      let tmp := buf.take (eck + 8) ++ e.bytes verifier.w0 ++ e.bytes verifier.w1 ++
        e.bytes verifier.w2 ++ e.bytes verifier.w3
      let computed := digestWords (h.sha256 tmp)
      let computed := if crypt then computed.folded.truncated else computed
      if computed = stored then .ok else .bad

/-- The verifier of a gang header: the pointer's first DVA and its birth. -/
def verifyGangHeader (h : Hashes) (buf : List UInt8) (vdev offset birth : Nat) (crypt : Bool) :
    ChecksumStatus :=
  verifyEmbedded h buf
    { w0 := UInt64.ofNat vdev, w1 := UInt64.ofNat offset, w2 := UInt64.ofNat birth, w3 := 0 }
    crypt

end Ondisk
end ZvolRescue
