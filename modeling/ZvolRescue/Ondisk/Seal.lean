import Mathlib.Tactic.Common
import ZvolRescue.Ondisk.ZeroPoint

/-!
# Sealing what carries its own checksum

The embedded checksum that `sealEmbedded` writes is the one that `verifyEmbedded` asks for.
-/

namespace ZvolRescue
namespace Ondisk

def Words.bytes (e : Endian) (w : Words) : List UInt8 :=
  e.bytes w.w0 ++ e.bytes w.w1 ++ e.bytes w.w2 ++ e.bytes w.w3

/-- The buffer with a valid embedded checksum in its last 40 bytes. -/
def sealEmbedded (h : Hashes) (buf : List UInt8) (verifier : Words) : List UInt8 :=
  let head := buf.take (buf.length - eckSize) ++ Endian.little.bytes zecMagic
  head ++ (digestWords (h.sha256 (head ++ verifier.bytes .little))).bytes .little

def sealLabel (h : Hashes) (buf : List UInt8) (vdevOffset : Nat) : List UInt8 :=
  sealEmbedded h buf { w0 := UInt64.ofNat vdevOffset, w1 := 0, w2 := 0, w3 := 0 }

@[simp] theorem Endian.bytes_length (e : Endian) (w : UInt64) : (e.bytes w).length = 8 := by
  cases e <;> simp [Endian.bytes]

@[simp] theorem Words.bytes_length (e : Endian) (w : Words) : (w.bytes e).length = 32 := by
  simp [Words.bytes]

/-- The bytes of a number spell it. -/
theorem leValue_bytes (w : UInt64) : Endian.leValue (Endian.little.bytes w) = w := by
  apply UInt64.toNat_inj.mp
  have hw := w.toNat_lt
  simp only [Endian.bytes, Endian.leValue, List.range, List.range.loop, List.map, List.foldr,
    UInt64.toNat_add, UInt64.toNat_mul, UInt8.toNat_toUInt64, UInt64.toNat_toUInt8,
    UInt64.toNat_shiftRight]
  simp only [UInt64.toNat_ofNat', Nat.shiftRight_eq_div_pow]
  simp
  omega

theorem leValue_cons (b : UInt8) (l : List UInt8) :
    (Endian.leValue (b :: l)).toNat = (b.toNat + 256 * (Endian.leValue l).toNat) % 2 ^ 64 := by
  show (b.toUInt64 + 256 * Endian.leValue l).toNat = _
  rw [UInt64.toNat_add, UInt64.toNat_mul, UInt8.toNat_toUInt64]
  show (b.toNat + 256 * _ % 2 ^ 64) % 2 ^ 64 = _
  omega

theorem leValue_lt {l : List UInt8} (h : l.length ≤ 8) :
    (Endian.leValue l).toNat < 256 ^ l.length := by
  induction l with
  | nil => decide
  | cons b l ih =>
    rw [List.length_cons] at h
    have hlt := ih (by omega)
    have hb := b.toNat_lt
    rw [leValue_cons, List.length_cons, Nat.pow_succ]
    refine Nat.lt_of_le_of_lt (Nat.mod_le _ _) ?_
    omega

theorem leValue_append (l l' : List UInt8) (h : l.length + l'.length ≤ 8) :
    (Endian.leValue (l ++ l')).toNat =
      (Endian.leValue l).toNat + 256 ^ l.length * (Endian.leValue l').toNat := by
  induction l with
  | nil =>
    rw [List.nil_append, List.length_nil, Nat.pow_zero, Nat.one_mul]
    exact (Nat.zero_add _).symm
  | cons b l ih =>
    rw [List.length_cons] at h
    have hrest := ih (by omega)
    have hlt := leValue_lt (l := l ++ l') (by rw [List.length_append]; omega)
    have hlt' := leValue_lt (l := l) (by omega)
    have hpow : 256 ^ (l ++ l').length ≤ 256 ^ 7 :=
      Nat.pow_le_pow_right (by decide) (by rw [List.length_append]; omega)
    have hpow' : 256 ^ l.length ≤ 256 ^ 7 := Nat.pow_le_pow_right (by decide) (by omega)
    have hb := b.toNat_lt
    rw [List.cons_append, leValue_cons, leValue_cons, Nat.mod_eq_of_lt (by omega),
      Nat.mod_eq_of_lt (by omega), hrest, List.length_cons, Nat.pow_succ, Nat.mul_add,
      Nat.add_assoc, Nat.mul_comm (256 ^ l.length) 256, Nat.mul_assoc]

/-- No two lists of as many bytes spell the same number. -/
theorem leValue_inj {l l' : List UInt8} (hlen : l.length = l'.length) (h : l.length ≤ 8)
    (heq : Endian.leValue l = Endian.leValue l') : l = l' := by
  induction l generalizing l' with
  | nil => exact (List.length_eq_zero_iff.mp hlen.symm).symm
  | cons b l ih =>
    cases l' with
    | nil => cases hlen
    | cons b' l' =>
      rw [List.length_cons] at h
      have hlen' : l.length = l'.length := Nat.succ.inj hlen
      have hlt := leValue_lt (l := l) (by omega)
      have hlt' := leValue_lt (l := l') (by omega)
      rw [← hlen'] at hlt'
      have hpow : 256 ^ l.length ≤ 256 ^ 7 := Nat.pow_le_pow_right (by decide) (by omega)
      have hb := b.toNat_lt
      have hb' := b'.toNat_lt
      have hnat := congrArg UInt64.toNat heq
      rw [leValue_cons, leValue_cons, Nat.mod_eq_of_lt (by omega), Nat.mod_eq_of_lt (by omega)]
        at hnat
      have hhead : b.toNat = b'.toNat := by omega
      have htail : (Endian.leValue l).toNat = (Endian.leValue l').toNat := by omega
      rw [UInt8.toNat_inj.mp hhead, ih hlen' (by omega) (UInt64.toNat_inj.mp htail)]

/-- Eight bytes are those of the number that they spell. -/
theorem bytes_leValue {l : List UInt8} (h : l.length = 8) :
    Endian.little.bytes (Endian.leValue l) = l := by
  apply leValue_inj
  · rw [Endian.bytes_length, h]
  · exact Nat.le_of_eq (Endian.bytes_length _ _)
  · exact leValue_bytes _

theorem Endian.value_bytes (e : Endian) (w : UInt64) : e.value (e.bytes w) = w := by
  cases e with
  | little => exact leValue_bytes w
  | big =>
    show leValue (Endian.little.bytes w).reverse.reverse = w
    rw [List.reverse_reverse, leValue_bytes]

/-- A number is read back from where its bytes stand. -/
theorem u64At_bytes {e : Endian} (pre : List UInt8) (w : UInt64) (post : List UInt8) {off : Nat}
    (hoff : pre.length = off) : e.u64At (pre ++ e.bytes w ++ post) off = some w := by
  have htake : ((pre ++ e.bytes w ++ post).drop off).take 8 = e.bytes w := by
    rw [List.append_assoc, ← hoff, List.drop_left, List.take_left']
    exact Endian.bytes_length _ _
  have hroom : off + 8 ≤ (pre ++ e.bytes w ++ post).length := by
    simp only [List.length_append, Endian.bytes_length]
    omega
  rw [Endian.u64At, if_pos hroom, htake, Endian.value_bytes]

theorem nativeWords_bytes (w : Words) : nativeWords (w.bytes .little) .little = w := by
  let b := Endian.little.bytes
  have h0 : Endian.little.u64At (w.bytes .little) (0 * 8) = some w.w0 := by
    simpa [Words.bytes] using u64At_bytes [] w.w0 (b w.w1 ++ b w.w2 ++ b w.w3) rfl
  have h1 : Endian.little.u64At (w.bytes .little) (1 * 8) = some w.w1 := by
    have hoff : (b w.w0).length = 8 := by simp [b]
    simpa [Words.bytes] using u64At_bytes (b w.w0) w.w1 (b w.w2 ++ b w.w3) hoff
  have h2 : Endian.little.u64At (w.bytes .little) (2 * 8) = some w.w2 := by
    have hoff : (b w.w0 ++ b w.w1).length = 16 := by simp [b]
    simpa [Words.bytes] using u64At_bytes (b w.w0 ++ b w.w1) w.w2 (b w.w3) hoff
  have h3 : Endian.little.u64At (w.bytes .little) (3 * 8) = some w.w3 := by
    have hoff : (b w.w0 ++ b w.w1 ++ b w.w2).length = 24 := by simp [b]
    simpa [Words.bytes] using u64At_bytes (b w.w0 ++ b w.w1 ++ b w.w2) w.w3 [] hoff
  simp only [nativeWords, h0, h1, h2, h3, Option.getD_some]

section Seal

variable (h : Hashes) {buf : List UInt8}

theorem sealEmbedded_length (hlength : eckSize ≤ buf.length) (verifier : Words) :
    (sealEmbedded h buf verifier).length = buf.length := by
  have hsize : eckSize = 40 := rfl
  simp only [sealEmbedded, List.length_append, List.length_take, Endian.bytes_length,
    Words.bytes_length]
  omega

/-- Sealing leaves everything before the checksum alone. -/
theorem sealEmbedded_take (hlength : eckSize ≤ buf.length) (verifier : Words) {n : Nat}
    (hn : n ≤ buf.length - eckSize) : (sealEmbedded h buf verifier).take n = buf.take n := by
  have hhead : (buf.take (buf.length - eckSize)).length = buf.length - eckSize := by
    rw [List.length_take]
    omega
  rw [sealEmbedded, List.append_assoc, List.take_append_of_le_length (by omega), List.take_take,
    Nat.min_eq_left hn]

theorem u64At_sealEmbedded (verifier : Words) :
    Endian.little.u64At (sealEmbedded h buf verifier) (buf.length - eckSize) = some zecMagic := by
  rw [sealEmbedded]
  apply u64At_bytes
  rw [List.length_take]
  omega

/-- What is sealed verifies. -/
theorem verify_sealEmbedded (hlength : eckSize ≤ buf.length) (verifier : Words) :
    verifyEmbedded h (sealEmbedded h buf verifier) verifier false = .ok := by
  have hsize : eckSize = 40 := rfl
  have hseal := sealEmbedded_length h hlength verifier
  let head := buf.take (buf.length - eckSize) ++ Endian.little.bytes zecMagic
  have hhead : head.length = buf.length - eckSize + 8 := by
    simp only [head, List.length_append, List.length_take, Endian.bytes_length]
    omega
  let stored := digestWords (h.sha256 (head ++ verifier.bytes .little))
  have hbuf : sealEmbedded h buf verifier = head ++ stored.bytes .little := rfl
  have hdrop : (sealEmbedded h buf verifier).drop (buf.length - eckSize + 8) =
      stored.bytes .little := by
    rw [hbuf, ← hhead, List.drop_left]
  have htake : (sealEmbedded h buf verifier).take (buf.length - eckSize + 8) = head := by
    rw [hbuf, ← hhead, List.take_left]
  have hshort : ¬ buf.length < eckSize := by omega
  have hcomputed : digestWords (h.sha256 (head ++ verifier.bytes .little)) = stored := rfl
  simp only [Words.bytes, List.append_assoc] at hcomputed
  simp only [verifyEmbedded, if_neg hshort, hseal, if_pos (u64At_sealEmbedded h verifier), hdrop,
    htake, nativeWords_bytes, List.append_assoc, Bool.false_eq_true, if_false,
    hcomputed, if_true]

end Seal

theorem verify_sealLabel (h : Hashes) {buf : List UInt8} (hlength : eckSize ≤ buf.length)
    (vdevOffset : Nat) : verifyLabel h (sealLabel h buf vdevOffset) vdevOffset = .ok :=
  verify_sealEmbedded h hlength _

end Ondisk
end ZvolRescue
