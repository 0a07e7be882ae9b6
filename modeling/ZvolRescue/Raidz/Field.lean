import Mathlib.Algebra.Field.Basic
import Mathlib.Data.FinEnum
import Mathlib.Data.Fintype.Card
import Mathlib.GroupTheory.OrderOfElement
import Mathlib.Tactic.NormNum.Prime

/-!
# The field GF(2^8) of the parity columns

`gfMul`, `gfPow` and `gfInv` are the shift-and-add loops of the source, on bytes.
Addition is exclusive or.  `gfMul` is additive in each argument, so the ring laws
are checked on the eight bytes with one bit set, and 2 has order 255, so every
nonzero byte is a power of it and has an inverse.  The bytes under these
operations are the type `GF256`.
-/

namespace ZvolRescue
namespace Raidz

/-! ## The loops of the source -/

/-- Multiply by `x`: shift left and reduce by `x^8 + x^4 + x^3 + x^2 + 1`. -/
def xtime (a : UInt8) : UInt8 :=
  let carry := a &&& 0x80 ≠ 0
  let a := a <<< 1
  if carry then a ^^^ 0x1d else a

/-- The loop of `gf_mul`, entered with `n` rounds left.  A byte `b` is zero after
at most eight shifts, which is the bound `gfMul` gives. -/
def gfMulLoop : Nat → UInt8 → UInt8 → UInt8 → UInt8
  | 0, _, _, p => p
  | n + 1, a, b, p =>
    if b = 0 then p
    else gfMulLoop n (xtime a) (b >>> 1) (if b &&& 1 ≠ 0 then p ^^^ a else p)

/-- Multiply in GF(2^8). -/
def gfMul (a b : UInt8) : UInt8 := gfMulLoop 8 a b 0

/-- The square-and-multiply loop of `gf_pow`, with `n` rounds left. -/
def gfPowLoop : Nat → UInt8 → Nat → UInt8 → UInt8
  | 0, _, _, result => result
  | n + 1, b, exp, result =>
    if exp = 0 then result
    else gfPowLoop n (gfMul b b) (exp / 2)
      (if exp % 2 ≠ 0 then gfMul result b else result)

/-- `base ^ exp` in GF(2^8).  The exponent is a `u32`, so 32 rounds empty it. -/
def gfPow (base : UInt8) (exp : Nat) : UInt8 := gfPowLoop 32 base exp 1

/-- Multiplicative inverse in GF(2^8) of a nonzero byte, as `a ^ 254`. -/
def gfInv (a : UInt8) : UInt8 := gfPow a 254

/-! ## Multiplication is additive in each argument -/

/-- The sum `gfMulLoop` accumulates, without its early exit. -/
def mulSum : Nat → UInt8 → UInt8 → UInt8
  | 0, _, _ => 0
  | n + 1, a, b => (if b &&& 1 ≠ 0 then a else 0) ^^^ mulSum n (xtime a) (b >>> 1)

theorem forall_byte {P : UInt8 → Prop} (h : ∀ n < 256, P (UInt8.ofNat n)) (a : UInt8) : P a := by
  have hn := h a.toNat a.toNat_lt
  rwa [UInt8.ofNat_toNat] at hn

theorem mulSum_zero (n : Nat) (a : UInt8) : mulSum n a 0 = 0 := by
  induction n generalizing a with
  | zero => rfl
  | succ n ih =>
    have hshift : (0 : UInt8) >>> 1 = 0 := by decide
    have hlow : ¬ ((0 : UInt8) &&& 1 ≠ 0) := by decide
    rw [mulSum, if_neg hlow, hshift, ih, UInt8.xor_self]

theorem gfMulLoop_eq (n : Nat) (a b p : UInt8) : gfMulLoop n a b p = p ^^^ mulSum n a b := by
  induction n generalizing a b p with
  | zero => rw [gfMulLoop, mulSum, UInt8.xor_zero]
  | succ n ih =>
    by_cases hb : b = 0
    · rw [gfMulLoop, if_pos hb, hb, mulSum_zero, UInt8.xor_zero]
    · rw [gfMulLoop, if_neg hb, ih, mulSum]
      by_cases hlow : b &&& 1 ≠ 0
      · rw [if_pos hlow, if_pos hlow, UInt8.xor_assoc]
      · rw [if_neg hlow, if_neg hlow, UInt8.zero_xor]

theorem gfMul_eq (a b : UInt8) : gfMul a b = mulSum 8 a b := by
  rw [gfMul, gfMulLoop_eq, UInt8.zero_xor]

/-- A one-bit mask leaves zero or the mask. -/
theorem and_mask (a : UInt8) :
    (a &&& 0x80 = 0 ∨ a &&& 0x80 = 0x80) ∧ (a &&& 1 = 0 ∨ a &&& 1 = 1) :=
  forall_byte
    (P := fun a => (a &&& 0x80 = 0 ∨ a &&& 0x80 = 0x80) ∧ (a &&& 1 = 0 ∨ a &&& 1 = 1))
    (by decide +kernel) a

theorem xor_and (a b c : UInt8) : (a ^^^ b) &&& c = (a &&& c) ^^^ (b &&& c) := by
  apply UInt8.toBitVec_inj.mp
  apply BitVec.eq_of_getLsbD_eq
  intro i _
  simp only [UInt8.toBitVec_and, UInt8.toBitVec_xor, BitVec.getLsbD_and, BitVec.getLsbD_xor,
    Bool.and_xor_distrib_right]

theorem xor_xor_xor_comm (a b c d : UInt8) : (a ^^^ b) ^^^ (c ^^^ d) = (a ^^^ c) ^^^ (b ^^^ d) := by
  ac_rfl

theorem xtime_xor (a b : UInt8) : xtime (a ^^^ b) = xtime a ^^^ xtime b := by
  simp only [xtime, xor_and, UInt8.shiftLeft_xor]
  rcases (and_mask a).1 with ha | ha <;> rcases (and_mask b).1 with hb | hb <;>
    rw [ha, hb] <;> simp only [UInt8.xor_self, UInt8.xor_zero, UInt8.zero_xor, ne_eq,
      not_true_eq_false, if_false, show ¬ ((128 : UInt8) = 0) by decide, not_false_eq_true, if_true]
  · ac_rfl
  · ac_rfl
  · rw [xor_xor_xor_comm, UInt8.xor_self, UInt8.xor_zero]

theorem mulSum_xor_left (n : Nat) (a a' b : UInt8) :
    mulSum n (a ^^^ a') b = mulSum n a b ^^^ mulSum n a' b := by
  induction n generalizing a a' b with
  | zero => exact UInt8.xor_self.symm
  | succ n ih =>
    rw [mulSum, mulSum, mulSum, xtime_xor, ih]
    by_cases hlow : b &&& 1 ≠ 0
    · rw [if_pos hlow, if_pos hlow, if_pos hlow, xor_xor_xor_comm]
    · rw [if_neg hlow, if_neg hlow, if_neg hlow, xor_xor_xor_comm, UInt8.xor_self]

theorem mulSum_xor_right (n : Nat) (a b b' : UInt8) :
    mulSum n a (b ^^^ b') = mulSum n a b ^^^ mulSum n a b' := by
  induction n generalizing a b b' with
  | zero => exact UInt8.xor_self.symm
  | succ n ih =>
    have hlow : (if (b ^^^ b') &&& 1 ≠ 0 then a else 0) =
        (if b &&& 1 ≠ 0 then a else 0) ^^^ (if b' &&& 1 ≠ 0 then a else 0) := by
      rw [xor_and]
      rcases (and_mask b).2 with hb | hb <;> rcases (and_mask b').2 with hb' | hb' <;>
        rw [hb, hb'] <;> simp
    rw [mulSum, mulSum, mulSum, UInt8.shiftRight_xor, ih, hlow, xor_xor_xor_comm]

theorem gfMul_xor_left (a a' b : UInt8) : gfMul (a ^^^ a') b = gfMul a b ^^^ gfMul a' b := by
  rw [gfMul_eq, gfMul_eq, gfMul_eq, mulSum_xor_left]

theorem gfMul_xor_right (a b b' : UInt8) : gfMul a (b ^^^ b') = gfMul a b ^^^ gfMul a b' := by
  rw [gfMul_eq, gfMul_eq, gfMul_eq, mulSum_xor_right]

/-! ## Laws checked on one-bit bytes -/

/-- The byte with bit `i` set. -/
def bitByte (i : Nat) : UInt8 := 1 <<< UInt8.ofNat i

/-- Additive maps on bytes. -/
def Additive (f : UInt8 → UInt8) : Prop := ∀ a b, f (a ^^^ b) = f a ^^^ f b

theorem Additive.zero {f : UInt8 → UInt8} (hf : Additive f) : f 0 = 0 := by
  have h := hf 0 0
  rwa [UInt8.xor_self, UInt8.xor_self] at h

/-- Bit `i` of a byte, as a byte. -/
def maskBit (a : UInt8) (i : Nat) : UInt8 := if a &&& bitByte i = 0 then 0 else bitByte i

theorem eq_xor_bits (a : UInt8) :
    a = (List.range 8).foldl (fun acc i => acc ^^^ maskBit a i) 0 :=
  forall_byte (P := fun a => a = (List.range 8).foldl (fun acc i => acc ^^^ maskBit a i) 0)
    (by decide +kernel) a

theorem Additive.foldl {f g : UInt8 → UInt8} (hf : Additive f) (hg : Additive g)
    (h : ∀ i < 8, f (bitByte i) = g (bitByte i)) (a : UInt8) :
    ∀ (l : List Nat) (x : UInt8), (∀ i ∈ l, i < 8) → f x = g x →
      f (l.foldl (fun acc i => acc ^^^ maskBit a i) x) =
        g (l.foldl (fun acc i => acc ^^^ maskBit a i) x) := by
  intro l
  induction l with
  | nil => exact fun x _ hx => hx
  | cons i rest ih =>
    intro x hl hx
    refine ih _ (fun j hj => hl j (List.mem_cons_of_mem i hj)) ?_
    rw [hf, hg, hx]
    unfold maskBit
    split
    · rw [hf.zero, hg.zero]
    · rw [h i (hl i List.mem_cons_self)]

/-- Additive maps that agree on the one-bit bytes agree. -/
theorem Additive.ext {f g : UInt8 → UInt8} (hf : Additive f) (hg : Additive g)
    (h : ∀ i < 8, f (bitByte i) = g (bitByte i)) (a : UInt8) : f a = g a := by
  rw [eq_xor_bits a]
  exact hf.foldl hg h a _ 0 (fun i hi => List.mem_range.mp hi) (by rw [hf.zero, hg.zero])

theorem gfMul_comm (a b : UInt8) : gfMul a b = gfMul b a := by
  have hbits : ∀ i < 8, ∀ j < 8, gfMul (bitByte i) (bitByte j) = gfMul (bitByte j) (bitByte i) := by
    decide +kernel
  refine Additive.ext (f := fun a => gfMul a b) (g := fun a => gfMul b a)
    (fun x y => gfMul_xor_left x y b) (fun x y => gfMul_xor_right b x y) (fun i hi => ?_) a
  exact Additive.ext (f := fun b => gfMul (bitByte i) b) (g := fun b => gfMul b (bitByte i))
    (fun x y => gfMul_xor_right _ x y) (fun x y => gfMul_xor_left x y _)
    (fun j hj => hbits i hi j hj) b

theorem gfMul_assoc (a b c : UInt8) : gfMul (gfMul a b) c = gfMul a (gfMul b c) := by
  have hbits : ∀ i < 8, ∀ j < 8, ∀ k < 8,
      gfMul (gfMul (bitByte i) (bitByte j)) (bitByte k) =
        gfMul (bitByte i) (gfMul (bitByte j) (bitByte k)) := by
    decide +kernel
  refine Additive.ext (f := fun a => gfMul (gfMul a b) c) (g := fun a => gfMul a (gfMul b c))
    (fun x y => by simp only [gfMul_xor_left]) (fun x y => by simp only [gfMul_xor_left])
    (fun i hi => ?_) a
  refine Additive.ext (f := fun b => gfMul (gfMul (bitByte i) b) c)
    (g := fun b => gfMul (bitByte i) (gfMul b c))
    (fun x y => by simp only [gfMul_xor_left, gfMul_xor_right])
    (fun x y => by simp only [gfMul_xor_left, gfMul_xor_right]) (fun j hj => ?_) b
  exact Additive.ext (f := fun c => gfMul (gfMul (bitByte i) (bitByte j)) c)
    (g := fun c => gfMul (bitByte i) (gfMul (bitByte j) c))
    (fun x y => by simp only [gfMul_xor_right]) (fun x y => by simp only [gfMul_xor_right])
    (fun k hk => hbits i hi j hj k hk) c

theorem gfMul_one (a : UInt8) : gfMul a 1 = a :=
  Additive.ext (f := fun a => gfMul a 1) (g := fun a => a) (fun x y => gfMul_xor_left x y 1)
    (fun _ _ => rfl) (by decide) a

/-! ## The field -/

/-- The bytes under exclusive or and `gfMul`. -/
def GF256 : Type := UInt8

namespace GF256

/-- A byte as a field element. -/
def ofByte (a : UInt8) : GF256 := a

/-- The byte of a field element. -/
def byte (a : GF256) : UInt8 := a

instance : DecidableEq GF256 := inferInstanceAs (DecidableEq UInt8)
instance : FinEnum GF256 := inferInstanceAs (FinEnum UInt8)

instance : Add GF256 := ⟨fun a b => ofByte (a.byte ^^^ b.byte)⟩
instance : Mul GF256 := ⟨fun a b => ofByte (gfMul a.byte b.byte)⟩
instance : Neg GF256 := ⟨fun a => a⟩
instance : Zero GF256 := ⟨ofByte 0⟩
instance : One GF256 := ⟨ofByte 1⟩
instance : Inv GF256 := ⟨fun a => ofByte (gfInv a.byte)⟩

theorem ofByte_xor (a b : UInt8) : ofByte (a ^^^ b) = ofByte a + ofByte b := rfl

theorem ofByte_gfMul (a b : UInt8) : ofByte (gfMul a b) = ofByte a * ofByte b := rfl

theorem ofByte_gfInv (a : UInt8) : ofByte (gfInv a) = (ofByte a)⁻¹ := rfl

theorem ofByte_zero : ofByte 0 = 0 := rfl

theorem ofByte_one : ofByte 1 = 1 := rfl

theorem ofByte_inj {a b : UInt8} : ofByte a = ofByte b ↔ a = b := Iff.rfl

theorem add_self (a : GF256) : a + a = 0 := UInt8.xor_self (a := a.byte)

instance : CommRing GF256 where
  add_assoc a b c := UInt8.xor_assoc a.byte b.byte c.byte
  zero_add a := UInt8.zero_xor (a := a.byte)
  add_zero a := UInt8.xor_zero (a := a.byte)
  add_comm a b := UInt8.xor_comm a.byte b.byte
  neg_add_cancel a := add_self a
  left_distrib a b c := gfMul_xor_right a.byte b.byte c.byte
  right_distrib a b c := gfMul_xor_left a.byte b.byte c.byte
  zero_mul a := Additive.zero (f := fun x => gfMul x a.byte)
    (fun x y => gfMul_xor_left x y a.byte)
  mul_zero a := Additive.zero (f := fun x => gfMul a.byte x)
    (fun x y => gfMul_xor_right a.byte x y)
  mul_assoc a b c := gfMul_assoc a.byte b.byte c.byte
  one_mul a := (gfMul_comm 1 a.byte).trans (gfMul_one a.byte)
  mul_one a := gfMul_one a.byte
  mul_comm a b := gfMul_comm a.byte b.byte
  nsmul := nsmulRec
  zsmul := zsmulRec

theorem sub_eq_add (a b : GF256) : a - b = a + b := by
  rw [sub_eq_iff_eq_add, add_assoc, add_self, add_zero]

/-- The loop of `gf_pow` keeps `result * b ^ exp`. -/
theorem ofByte_gfPowLoop (n : Nat) (b : UInt8) (exp : Nat) (result : UInt8) (h : exp < 2 ^ n) :
    ofByte (gfPowLoop n b exp result) = ofByte result * ofByte b ^ exp := by
  induction n generalizing b exp result with
  | zero =>
    have he : exp = 0 := by simpa using h
    rw [gfPowLoop, he, pow_zero, mul_one]
  | succ n ih =>
    by_cases he : exp = 0
    · rw [gfPowLoop, if_pos he, he, pow_zero, mul_one]
    · have hsplit : ofByte b ^ exp = ofByte b ^ (exp % 2) * (ofByte b * ofByte b) ^ (exp / 2) := by
        rw [← pow_two, ← pow_mul, ← pow_add, Nat.mod_add_div]
      rw [gfPowLoop, if_neg he, ih _ _ _ (by rw [pow_succ] at h; omega), ofByte_gfMul, hsplit]
      rcases Nat.mod_two_eq_zero_or_one exp with hodd | hodd
      · rw [hodd, if_neg (by decide), pow_zero, one_mul]
      · rw [hodd, if_pos (by decide), pow_one, ofByte_gfMul, mul_assoc]

theorem ofByte_gfPow (base : UInt8) {exp : Nat} (h : exp < 2 ^ 32) :
    ofByte (gfPow base exp) = ofByte base ^ exp := by
  rw [gfPow, ofByte_gfPowLoop 32 base exp 1 h, ofByte_one, one_mul]

/-- The generator. -/
def two : GF256 := ofByte 2

theorem two_pow (e : Nat) (h : e < 2 ^ 32) : two ^ e = ofByte (gfPow 2 e) :=
  (ofByte_gfPow 2 h).symm

/-- 2 generates the multiplicative group. -/
theorem orderOf_two : orderOf two = 255 := by
  have hone : two ^ 255 = 1 := by
    rw [two_pow 255 (by decide)]
    decide +kernel
  refine orderOf_eq_of_pow_and_pow_div_prime (by norm_num) hone (fun p hp hdvd => ?_)
  have hcases : p = 3 ∨ p = 5 ∨ p = 17 := by
    have hfac : (255 : Nat) = 3 * (5 * 17) := by norm_num
    rw [hfac] at hdvd
    rcases (Nat.Prime.dvd_mul hp).mp hdvd with h | h
    · exact Or.inl ((Nat.prime_dvd_prime_iff_eq hp (by norm_num)).mp h)
    · rcases (Nat.Prime.dvd_mul hp).mp h with h | h
      · exact Or.inr (Or.inl ((Nat.prime_dvd_prime_iff_eq hp (by norm_num)).mp h))
      · exact Or.inr (Or.inr ((Nat.prime_dvd_prime_iff_eq hp (by norm_num)).mp h))
  rcases hcases with rfl | rfl | rfl
  · rw [two_pow _ (by decide)]
    decide +kernel
  · rw [two_pow _ (by decide)]
    decide +kernel
  · rw [two_pow _ (by decide)]
    decide +kernel

/-- The powers `two ^ e` below the order are pairwise distinct. -/
theorem two_pow_injOn : Set.InjOn (fun e => two ^ e) (Set.Iio 255) := by
  have h := pow_injOn_Iio_orderOf (x := two)
  rwa [orderOf_two] at h

theorem two_pow_order : two ^ 255 = 1 := by
  rw [← orderOf_two]
  exact pow_orderOf_eq_one two

theorem one_ne_zero' : (1 : GF256) ≠ 0 := by
  rw [← ofByte_one, ← ofByte_zero, Ne, ofByte_inj]
  decide

theorem two_pow_ne_zero (e : Nat) : two ^ e ≠ 0 := by
  intro h
  apply one_ne_zero'
  calc (1 : GF256) = (two ^ 255) ^ e := by rw [two_pow_order, one_pow]
    _ = two ^ e * (two ^ 254) ^ e := by rw [← mul_pow, ← pow_succ']
    _ = 0 := by rw [h, zero_mul]

theorem card_eq : Fintype.card GF256 = 256 := by
  rw [← FinEnum.card_eq_fintypeCard]
  exact FinEnum.card_UInt8

/-- Every nonzero element is a power of `two`: there are 255 of each. -/
theorem exists_two_pow {a : GF256} (ha : a ≠ 0) : ∃ e, a = two ^ e := by
  have hcard : (Finset.univ.erase (0 : GF256)).card = 255 := by
    rw [Finset.card_erase_of_mem (Finset.mem_univ _), Finset.card_univ, card_eq]
  have hsub : (Finset.range 255).image (fun e => two ^ e) ⊆ Finset.univ.erase (0 : GF256) := by
    intro x hx
    obtain ⟨e, -, rfl⟩ := Finset.mem_image.mp hx
    exact Finset.mem_erase.mpr ⟨two_pow_ne_zero e, Finset.mem_univ _⟩
  have himage : ((Finset.range 255).image (fun e => two ^ e)).card = 255 := by
    rw [Finset.card_image_of_injOn, Finset.card_range]
    intro x hx y hy hxy
    exact two_pow_injOn (by simpa using hx) (by simpa using hy) hxy
  have heq := Finset.eq_of_subset_of_card_le hsub (by rw [hcard, himage])
  have hmem : a ∈ (Finset.range 255).image (fun e => two ^ e) := by
    rw [heq]
    exact Finset.mem_erase.mpr ⟨ha, Finset.mem_univ _⟩
  obtain ⟨e, -, he⟩ := Finset.mem_image.mp hmem
  exact ⟨e, he.symm⟩

theorem mul_gfInv {a : GF256} (ha : a ≠ 0) : a * a⁻¹ = 1 := by
  obtain ⟨e, rfl⟩ := exists_two_pow ha
  have hinv : (two ^ e)⁻¹ = (two ^ e) ^ 254 := ofByte_gfPow _ (by decide)
  rw [hinv, ← pow_succ', ← pow_mul, mul_comm, pow_mul, two_pow_order, one_pow]

theorem gfInv_zero : (0 : GF256)⁻¹ = 0 := by
  rw [← ofByte_zero, ← ofByte_gfInv, ofByte_inj]
  decide

attribute [local irreducible] gfInv in
instance : Field GF256 where
  exists_pair_ne := ⟨0, 1, fun h => one_ne_zero' h.symm⟩
  mul_inv_cancel _ ha := mul_gfInv ha
  inv_zero := gfInv_zero
  nnqsmul := _
  nnqsmul_def := fun _ _ => rfl
  qsmul := _
  qsmul_def := fun _ _ => rfl

end GF256

end Raidz
end ZvolRescue
