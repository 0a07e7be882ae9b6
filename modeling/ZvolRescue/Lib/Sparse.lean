import Mathlib.Algebra.Group.Defs
import Mathlib.Data.List.GetD
import Mathlib.Tactic.Ring

/-!
# Sparse files

A file is a list, and what lies past its end reads as zero.  A write past the end fills the
gap with zeros, and a buffer of zeros is not written at all.  `writeBlocks` writes blocks of
one size in order, `image` is what they hold; `setLen_writeBlocks_eq_iff` says when the
file, cut to the size of the volume, is what it was meant to be.
-/

namespace ZvolRescue
namespace Lib

/-! ## The blocks of a volume -/

section Volume

variable {α : Type}

/-- Blocks of a volume of `vol` elements: whole ones, and a last one that is cut. -/
def Cut (size : Nat) (content : Nat → List α) (vol : Nat) : Prop :=
  ∀ b, (content b).length = min size (vol - b * size)

/-- What `n` blocks from block `start` on hold. -/
def image (content : Nat → List α) (start : Nat) : Nat → List α
  | 0 => []
  | n + 1 => image content start n ++ content (start + n)

variable {size vol : Nat} {content : Nat → List α}

theorem image_succ (content : Nat → List α) (start n : Nat) :
    image content start (n + 1) = image content start n ++ content (start + n) := rfl

theorem image_add (content : Nat → List α) (start n k : Nat) :
    image content start (n + k) = image content start n ++ image content (start + n) k := by
  induction k with
  | zero => exact (List.append_nil _).symm
  | succ k ih =>
    rw [← Nat.add_assoc, image_succ, image_succ, ih, List.append_assoc, Nat.add_assoc]

theorem Cut.length_le (h : Cut size content vol) (b : Nat) : (content b).length ≤ size := by
  rw [h b]
  exact Nat.min_le_left _ _

theorem image_length (hcut : Cut size content vol) {start : Nat} (hstart : start * size ≤ vol)
    (n : Nat) :
    (image content start n).length = min ((start + n) * size) vol - start * size := by
  induction n with
  | zero =>
    show 0 = _
    rw [Nat.add_zero]
    omega
  | succ n ih =>
    unfold image
    rw [List.length_append, ih, hcut]
    have hsucc : (start + (n + 1)) * size = (start + n) * size + size := by ring
    have hle : start * size ≤ (start + n) * size := Nat.mul_le_mul_right _ (by omega)
    omega

theorem image_getD [Zero α] (hcut : Cut size content vol) {start : Nat}
    (hstart : start * size ≤ vol) {n i : Nat} (hlow : start * size ≤ i)
    (hhigh : i < (start + n) * size) (hvol : i < vol) :
    (image content start n).getD (i - start * size) 0 = (content (i / size)).getD (i % size) 0 := by
  induction n with
  | zero =>
    rw [Nat.add_zero] at hhigh
    omega
  | succ n ih =>
    unfold image
    have hlen := image_length hcut hstart n
    have hsucc : (start + (n + 1)) * size = (start + n) * size + size := by ring
    have hle : start * size ≤ (start + n) * size := Nat.mul_le_mul_right _ (by omega)
    rw [List.getD_eq_getElem?_getD, List.getElem?_append]
    by_cases hi : i < (start + n) * size
    · rw [if_pos (by omega), ← List.getD_eq_getElem?_getD]
      exact ih hi
    · have hb : i / size = start + n := by
        apply Nat.div_eq_of_lt_le
        · omega
        · rw [Nat.succ_mul]
          omega
      have hidx : i - start * size - (image content start n).length = i % size := by
        have hdiv := Nat.div_add_mod i size
        rw [hb, Nat.mul_comm] at hdiv
        omega
      rw [if_neg (by omega), hidx, ← List.getD_eq_getElem?_getD, hb]

/-! Blocks that are all whole. -/

theorem image_length_of_whole (hwhole : ∀ b, (content b).length = size) (n : Nat) :
    (image content 0 n).length = n * size := by
  induction n with
  | zero => exact (Nat.zero_mul size).symm
  | succ n ih => rw [image_succ, List.length_append, ih, hwhole, Nat.succ_mul]

/-- What lies in one block of the image is what the block holds there. -/
theorem image_slice (hwhole : ∀ b, (content b).length = size) {b n i k : Nat} (hb : b < n)
    (hk : i + k ≤ size) :
    ((image content 0 n).drop (b * size + i)).take k = ((content b).drop i).take k := by
  have hsplit : image content 0 n =
      image content 0 b ++ (content b ++ image content (b + 1) (n - (b + 1))) := by
    have hrest : n = b + (1 + (n - (b + 1))) := by omega
    conv_lhs => rw [hrest]
    rw [image_add, image_add, Nat.zero_add]
    rfl
  have hlen := image_length_of_whole hwhole b
  have hin : k ≤ ((content b).drop i).length := by
    rw [List.length_drop, hwhole]
    omega
  rw [hsplit, ← hlen, List.drop_length_add_append, List.drop_append_of_le_length,
    List.take_append_of_le_length hin]
  rw [hwhole]
  omega

theorem image_getD_of_whole [Zero α] (hwhole : ∀ b, (content b).length = size) {n i : Nat}
    (hi : i < n * size) :
    (image content 0 n).getD i 0 = (content (i / size)).getD (i % size) 0 := by
  have hpos : 0 < size := Nat.pos_of_mul_pos_left (Nat.lt_of_le_of_lt (Nat.zero_le i) hi)
  have hslice := image_slice hwhole (k := 1) ((Nat.div_lt_iff_lt_mul hpos).mpr hi)
    (Nat.mod_lt i hpos)
  rw [Nat.mul_comm, Nat.div_add_mod] at hslice
  have hfirst := congrArg (fun l => l.getD 0 0) hslice
  simpa [List.getD_eq_getElem?_getD, List.getElem?_take] using hfirst

end Volume

variable {α : Type} [Zero α]

/-! ## Files -/

/-- Write `buf` at `offset`; a file that is shorter grows with zeros up to there. -/
def writeAt (f : List α) (offset : Nat) (buf : List α) : List α :=
  f.take offset ++ (List.replicate (offset - f.length) 0 ++ (buf ++ f.drop (offset + buf.length)))

/-- Cut the file to `n`, or grow it with zeros. -/
def setLen (f : List α) (n : Nat) : List α := f.take n ++ List.replicate (n - f.length) 0

theorem writeAt_length (f : List α) (offset : Nat) (buf : List α) :
    (writeAt f offset buf).length = max f.length (offset + buf.length) := by
  unfold writeAt
  simp only [List.length_append, List.length_take, List.length_replicate, List.length_drop]
  omega

theorem writeAt_getD (f : List α) (offset : Nat) (buf : List α) (i : Nat) :
    (writeAt f offset buf).getD i 0 =
      if offset ≤ i ∧ i < offset + buf.length then buf.getD (i - offset) 0 else f.getD i 0 := by
  unfold writeAt
  simp only [List.getD_eq_getElem?_getD, List.getElem?_append, List.getElem?_take,
    List.getElem?_replicate, List.getElem?_drop, List.length_take, List.length_replicate]
  by_cases hlow : i < offset
  · rw [if_neg (show ¬ (offset ≤ i ∧ i < offset + buf.length) by omega)]
    by_cases hin : i < f.length
    · rw [if_pos (show i < min offset f.length by omega), if_pos hlow]
    · rw [if_neg (show ¬ i < min offset f.length by omega),
        if_pos (show i - min offset f.length < offset - f.length by omega),
        if_pos (show i - min offset f.length < offset - f.length by omega),
        List.getElem?_eq_none (by omega)]
      rfl
  · rw [if_neg (show ¬ i < min offset f.length by omega),
      if_neg (show ¬ i - min offset f.length < offset - f.length by omega)]
    have hidx : i - min offset f.length - (offset - f.length) = i - offset := by omega
    rw [hidx]
    by_cases hbuf : i < offset + buf.length
    · rw [if_pos (show i - offset < buf.length by omega), if_pos ⟨by omega, hbuf⟩]
    · rw [if_neg (show ¬ i - offset < buf.length by omega), if_neg (by omega)]
      congr 2
      omega

theorem setLen_length (f : List α) (n : Nat) : (setLen f n).length = n := by
  unfold setLen
  simp only [List.length_append, List.length_take, List.length_replicate]
  omega

theorem setLen_getD (f : List α) {n i : Nat} (h : i < n) : (setLen f n).getD i 0 = f.getD i 0 := by
  unfold setLen
  simp only [List.getD_eq_getElem?_getD, List.getElem?_append, List.getElem?_take,
    List.getElem?_replicate, List.length_take]
  by_cases hin : i < f.length
  · rw [if_pos (show i < min n f.length by omega), if_pos h]
  · rw [if_neg (show ¬ i < min n f.length by omega),
      if_pos (show i - min n f.length < n - f.length by omega), List.getElem?_eq_none (by omega)]
    rfl

/-- Files of one length are equal if they read the same. -/
theorem eq_iff_getD {a b : List α} (hlen : a.length = b.length) :
    a = b ↔ ∀ i, i < a.length → a.getD i 0 = b.getD i 0 := by
  constructor
  · intro h i _
    rw [h]
  · intro h
    apply List.ext_getElem hlen
    intro i ha hb
    have := h i ha
    rw [List.getD_eq_getElem _ _ ha, List.getD_eq_getElem _ _ hb] at this
    exact this

/-! ## Buffers of zeros -/

variable [DecidableEq α]

def allZero (buf : List α) : Bool := buf.all (fun b => decide (b = 0))

/-- Write a buffer unless it is all zeros. -/
def writeSparse (f : List α) (offset : Nat) (buf : List α) : List α :=
  if allZero buf then f else writeAt f offset buf

theorem allZero_getD {buf : List α} (h : allZero buf = true) (i : Nat) : buf.getD i 0 = 0 := by
  by_cases hi : i < buf.length
  · rw [List.getD_eq_getElem _ _ hi]
    exact of_decide_eq_true (List.all_eq_true.mp h _ (List.getElem_mem hi))
  · rw [List.getD_eq_default _ _ (by omega)]

theorem allZero_replicate (n : Nat) : allZero (List.replicate n (0 : α)) = true := by
  unfold allZero
  rw [List.all_eq_true]
  intro b hb
  rw [List.eq_of_mem_replicate hb]
  simp

theorem writeSparse_replicate (f : List α) (offset n : Nat) :
    writeSparse f offset (List.replicate n 0) = f := by
  unfold writeSparse
  rw [if_pos (allZero_replicate n)]

/-! ## Blocks of one size -/

section Blocks

variable (size : Nat) (content : Nat → List α)

/-- Write `n` blocks from block `start` on. -/
def writeBlocks (start : Nat) (f : List α) : Nat → List α
  | 0 => f
  | n + 1 => writeSparse (writeBlocks start f n) ((start + n) * size) (content (start + n))

/-- Element `i` lies in one of the blocks that are written. -/
def Written (start n i : Nat) : Prop :=
  start ≤ i / size ∧ i / size < start + n ∧ i % size < (content (i / size)).length ∧
    allZero (content (i / size)) = false

theorem writeBlocks_succ (start : Nat) (f : List α) (n : Nat) :
    writeBlocks size content start f (n + 1) =
      writeSparse (writeBlocks size content start f n) ((start + n) * size) (content (start + n)) :=
  rfl

instance (start n i : Nat) : Decidable (Written size content start n i) := by
  unfold Written
  infer_instance

/-- Only the blocks that are written matter. -/
theorem writeBlocks_congr {size : Nat} {content content' : Nat → List α} (start : Nat)
    (f : List α) {n : Nat}
    (h : ∀ i, i < n → content (start + i) = content' (start + i)) :
    writeBlocks size content start f n = writeBlocks size content' start f n := by
  induction n with
  | zero => rfl
  | succ n ih =>
    rw [writeBlocks_succ, writeBlocks_succ, ih (fun i hi => h i (by omega)), h n (by omega)]

end Blocks

variable {size : Nat} {content : Nat → List α}

/-- What the file reads after the writes. -/
theorem writeBlocks_getD (hle : ∀ b, (content b).length ≤ size) (start : Nat)
    (f : List α) (n i : Nat) :
    (writeBlocks size content start f n).getD i 0 =
      if Written size content start n i then (content (i / size)).getD (i % size) 0
      else f.getD i 0 := by
  induction n with
  | zero =>
    rw [if_neg]
    · rfl
    · intro h
      have := h.1
      have := h.2.1
      omega
  | succ n ih =>
    rw [writeBlocks_succ, writeSparse]
    by_cases hb : i / size = start + n
    · have hi : i = (start + n) * size + i % size := by
        have hdiv := Nat.div_add_mod i size
        rw [hb, Nat.mul_comm] at hdiv
        exact hdiv.symm
      have hnew : Written size content start (n + 1) i ↔
          i % size < (content (start + n)).length ∧ allZero (content (start + n)) = false := by
        unfold Written
        rw [hb]
        exact ⟨fun h => h.2.2, fun h => ⟨by omega, by omega, h⟩⟩
      rw [if_neg (fun h => by have := h.2.1; omega)] at ih
      simp only [hnew, hb]
      cases hz : allZero (content (start + n)) with
      | true =>
        rw [if_pos rfl, ih, if_neg]
        simp
      | false =>
        rw [if_neg (by simp), writeAt_getD, ih]
        have hoff : i - (start + n) * size = i % size := by omega
        have hin : (start + n) * size ≤ i ∧ i < (start + n) * size + (content (start + n)).length ↔
            i % size < (content (start + n)).length := by
          constructor <;> intro h <;> omega
        simp only [hin, hoff, and_true]
    · have hiff : Written size content start (n + 1) i ↔ Written size content start n i := by
        unfold Written
        constructor
        · intro h
          exact ⟨h.1, by omega, h.2.2⟩
        · intro h
          exact ⟨h.1, by omega, h.2.2⟩
      simp only [hiff]
      rw [← ih]
      by_cases hz : allZero (content (start + n)) = true
      · rw [if_pos hz]
      · rw [if_neg hz, writeAt_getD, if_neg]
        intro h
        apply hb
        have hlen := hle (start + n)
        apply Nat.div_eq_of_lt_le
        · exact h.1
        · rw [Nat.succ_mul]
          omega

/-- How far the file reaches after the writes. -/
theorem le_writeBlocks_length (start : Nat) (f : List α) (n p : Nat) :
    p ≤ (writeBlocks size content start f n).length ↔
      p ≤ f.length ∨ ∃ b, start ≤ b ∧ b < start + n ∧ allZero (content b) = false ∧
        p ≤ b * size + (content b).length := by
  induction n with
  | zero =>
    constructor
    · intro h
      exact Or.inl h
    · intro h
      cases h with
      | inl h => exact h
      | inr h =>
        obtain ⟨b, hb, hlt, -⟩ := h
        omega
  | succ n ih =>
    have hstep : (∃ b, start ≤ b ∧ b < start + (n + 1) ∧ allZero (content b) = false ∧
          p ≤ b * size + (content b).length) ↔
        (∃ b, start ≤ b ∧ b < start + n ∧ allZero (content b) = false ∧
          p ≤ b * size + (content b).length) ∨
        (allZero (content (start + n)) = false ∧
          p ≤ (start + n) * size + (content (start + n)).length) := by
      constructor
      · intro h
        obtain ⟨b, hb, hlt, hz, hp⟩ := h
        by_cases hbn : b = start + n
        · rw [hbn] at hz hp
          exact Or.inr ⟨hz, hp⟩
        · exact Or.inl ⟨b, hb, by omega, hz, hp⟩
      · intro h
        cases h with
        | inl h =>
          obtain ⟨b, hb, hlt, hz, hp⟩ := h
          exact ⟨b, hb, by omega, hz, hp⟩
        | inr h => exact ⟨start + n, by omega, by omega, h⟩
    rw [hstep, ← or_assoc, ← ih]
    rw [writeBlocks_succ, writeSparse]
    cases hz : allZero (content (start + n)) with
    | true => simp
    | false =>
      rw [if_neg (by simp), writeAt_length, le_max_iff]
      simp

/-! ## Files and images -/

section Images

variable {vol : Nat} (hpos : 0 < size) (hcut : Cut size content vol)

theorem div_lt_of_lt_mul {i start : Nat} (h : i < start * size) : i / size < start :=
  Nat.div_lt_of_lt_mul (by rw [Nat.mul_comm]; exact h)

include hpos hcut

theorem not_written_iff {start n i : Nat} (hlow : start * size ≤ i) (hhigh : i < (start + n) * size)
    (hvol : i < vol) :
    ¬ Written size content start n i ↔ allZero (content (i / size)) = true := by
  have hdiv := Nat.div_add_mod i size
  have hmod := Nat.mod_lt i hpos
  have hlen : i % size < (content (i / size)).length := by
    rw [hcut, Nat.mul_comm]
    omega
  have hge : start ≤ i / size := (Nat.le_div_iff_mul_le hpos).mpr hlow
  unfold Written
  cases hz : allZero (content (i / size)) with
  | true => simp
  | false => simp [hge, div_lt_of_lt_mul hhigh, hlen]

/-- The file, set to the size of the volume, is the prefix it was opened with, the blocks and
zeros for the rest if and only if it held zeros wherever nothing was written. -/
theorem setLen_writeBlocks_eq_iff {start : Nat} (hstart : start * size ≤ vol) {f : List α}
    (hf : start * size ≤ f.length) (n : Nat) :
    setLen (writeBlocks size content start f n) vol =
        f.take (start * size) ++ image content start n ++
          List.replicate (vol - min ((start + n) * size) vol) 0 ↔
      ∀ i, start * size ≤ i → i < vol → ¬ Written size content start n i → f.getD i 0 = 0 := by
  have hle : start * size ≤ (start + n) * size := Nat.mul_le_mul_right _ (by omega)
  have himage := image_length hcut hstart n
  have htake : (f.take (start * size)).length = start * size := by
    rw [List.length_take]
    omega
  rw [eq_iff_getD (by
    rw [setLen_length, List.length_append, List.length_append, htake, himage,
      List.length_replicate]
    omega), setLen_length]
  have hright : ∀ i, i < vol →
      (f.take (start * size) ++ image content start n ++
        List.replicate (vol - min ((start + n) * size) vol) 0).getD i 0 =
      if i < start * size then f.getD i 0
      else if i < (start + n) * size then (content (i / size)).getD (i % size) 0 else 0 := by
    intro i hi
    rw [List.append_assoc, List.getD_eq_getElem?_getD, List.getElem?_append, htake]
    by_cases hlow : i < start * size
    · rw [if_pos hlow, if_pos hlow, List.getElem?_take, if_pos hlow, List.getD_eq_getElem?_getD]
    · rw [if_neg hlow, if_neg hlow, List.getElem?_append, himage]
      by_cases hhigh : i < (start + n) * size
      · rw [if_pos (by omega), if_pos hhigh, ← List.getD_eq_getElem?_getD]
        exact image_getD hcut hstart (by omega) hhigh hi
      · rw [if_neg (by omega), if_neg hhigh, List.getElem?_replicate]
        split <;> rfl
  constructor
  · intro h i hlow hi hnot
    have := h i hi
    rw [setLen_getD _ hi, writeBlocks_getD hcut.length_le, if_neg hnot, hright i hi,
      if_neg (by omega)] at this
    rw [this]
    by_cases hhigh : i < (start + n) * size
    · rw [if_pos hhigh]
      exact allZero_getD ((not_written_iff hpos hcut hlow hhigh hi).mp hnot) _
    · rw [if_neg hhigh]
  · intro h i hi
    rw [setLen_getD _ hi, writeBlocks_getD hcut.length_le, hright i hi]
    by_cases hlow : i < start * size
    · rw [if_pos hlow, if_neg]
      intro hw
      have := div_lt_of_lt_mul hlow
      have := hw.1
      omega
    · rw [if_neg hlow]
      by_cases hw : Written size content start n i
      · have hhigh : i < (start + n) * size := by
          have hlt := hw.2.1
          have hsucc := Nat.mul_le_mul_right size hlt
          have hdiv := Nat.lt_div_mul_add (a := i) hpos
          rw [Nat.succ_mul] at hsucc
          omega
        rw [if_pos hw, if_pos hhigh]
      · rw [if_neg hw, h i (by omega) hi hw]
        by_cases hhigh : i < (start + n) * size
        · rw [if_pos hhigh,
            allZero_getD ((not_written_iff hpos hcut (by omega) hhigh hi).mp hw)]
        · rw [if_neg hhigh]

/-- What reads like a new file after the writes holds the blocks, up to where it reaches. -/
theorem take_eq_image {n k : Nat} (hk : k ≤ n) (hvol : k * size ≤ vol) {g : List α}
    (hlen : k * size ≤ g.length)
    (hread : ∀ i, i < k * size →
      g.getD i 0 = (writeBlocks size content 0 [] n).getD i 0) :
    g.take (k * size) = image content 0 k := by
  have hzero : 0 * size ≤ vol := by omega
  have himage := image_length hcut hzero k
  simp only [Nat.zero_add, Nat.zero_mul, Nat.sub_zero] at himage
  rw [eq_iff_getD (by rw [List.length_take, himage]; omega)]
  intro i hi
  rw [List.length_take] at hi
  have hblock := image_getD hcut hzero (n := k) (i := i) (by omega)
    (by rw [Nat.zero_add]; omega) (by omega)
  rw [Nat.zero_mul, Nat.sub_zero] at hblock
  rw [hblock, List.getD_eq_getElem?_getD, List.getElem?_take, if_pos (by omega),
    ← List.getD_eq_getElem?_getD, hread i (by omega), writeBlocks_getD hcut.length_le]
  by_cases hw : Written size content 0 n i
  · rw [if_pos hw]
  · have hle : k * size ≤ n * size := Nat.mul_le_mul_right _ hk
    rw [if_neg hw, allZero_getD ((not_written_iff hpos hcut (by omega) (by
      rw [Nat.zero_add]; omega) (by omega)).mp hw)]
    simp

/-- A new file reaches the end of block `k` if and only if that block or a later one is
written. -/
theorem le_new_length_iff {n k : Nat} (hk : 0 < k) (hvol : k * size ≤ vol) :
    k * size ≤ (writeBlocks size content 0 [] n).length ↔
      ∃ b, k - 1 ≤ b ∧ b < n ∧ allZero (content b) = false := by
  have hsucc : k * size = (k - 1) * size + size := by
    rw [← Nat.succ_mul, Nat.succ_eq_add_one, Nat.sub_add_cancel hk]
  rw [le_writeBlocks_length]
  constructor
  · intro h
    cases h with
    | inl h =>
      have : 0 < k * size := Nat.mul_pos hk hpos
      simp at h
      omega
    | inr h =>
      obtain ⟨b, -, hb, hz, hp⟩ := h
      refine ⟨b, ?_, by omega, hz⟩
      have hlen := hcut.length_le b
      by_contra hlt
      have hmul : (b + 1) * size ≤ (k - 1) * size := Nat.mul_le_mul_right _ (by omega)
      rw [Nat.succ_mul] at hmul
      omega
  · intro h
    obtain ⟨b, hb, hn, hz⟩ := h
    refine Or.inr ⟨b, by omega, by omega, hz, ?_⟩
    by_cases hbk : b = k - 1
    · rw [hbk, hcut]
      omega
    · have hmul : k * size ≤ b * size := Nat.mul_le_mul_right _ (by omega)
      omega

/-- A new file whose length was not set is the image if and only if its last block was
written. -/
theorem writeBlocks_eq_image_iff {n : Nat} (hvol : n * size ≤ vol) :
    writeBlocks size content 0 [] n = image content 0 n ↔
      n = 0 ∨ allZero (content (n - 1)) = false := by
  have hzero : 0 * size ≤ vol := by omega
  have himage := image_length hcut hzero n
  simp only [Nat.zero_add, Nat.zero_mul, Nat.sub_zero] at himage
  by_cases hn : n = 0
  · simp [hn, writeBlocks, image]
  have hreach := le_new_length_iff hpos hcut (n := n) (Nat.pos_of_ne_zero hn) hvol
  constructor
  · intro h
    have hlen : n * size ≤ (writeBlocks size content 0 [] n).length := by
      rw [h, himage]
      omega
    obtain ⟨b, hlow, hhigh, hz⟩ := hreach.mp hlen
    have hlast : b = n - 1 := Nat.le_antisymm (Nat.le_sub_one_of_lt hhigh) hlow
    rw [hlast] at hz
    exact Or.inr hz
  · intro h
    have hz := h.resolve_left hn
    have hlast : n - 1 < n := Nat.sub_lt (Nat.pos_of_ne_zero hn) Nat.one_pos
    have hlen := hreach.mpr ⟨n - 1, Nat.le_refl _, hlast, hz⟩
    have hle : (writeBlocks size content 0 [] n).length ≤ n * size := by
      by_contra hgt
      have hlong := (le_writeBlocks_length 0 [] n (n * size + 1)).mp (Nat.lt_of_not_le hgt)
      cases hlong with
      | inl h =>
        simp at h
      | inr h =>
        obtain ⟨b, -, hb, -, hp⟩ := h
        have hlenb := hcut.length_le b
        have hmul : (b + 1) * size ≤ n * size := Nat.mul_le_mul_right _ (by omega)
        rw [Nat.succ_mul] at hmul
        omega
    have htake := take_eq_image hpos hcut (Nat.le_refl n) hvol hlen (fun _ _ => rfl)
    rwa [List.take_of_length_le hle] at htake

omit hpos in
/-- Writing the rest of the blocks into the file that the first ones left makes the file of
all blocks. -/
theorem setLen_writeBlocks_add (k n : Nat) :
    setLen (writeBlocks size content k (setLen (writeBlocks size content 0 [] k) vol) n) vol =
      setLen (writeBlocks size content 0 [] (k + n)) vol := by
  rw [eq_iff_getD (by rw [setLen_length, setLen_length]), setLen_length]
  intro i hi
  rw [setLen_getD _ hi, setLen_getD _ hi, writeBlocks_getD hcut.length_le,
    writeBlocks_getD hcut.length_le, setLen_getD _ hi, writeBlocks_getD hcut.length_le]
  by_cases hlow : i / size < k
  · have hfirst : ¬ Written size content k n i := fun h => by
      have := h.1
      omega
    have hsplit : Written size content 0 k i ↔ Written size content 0 (k + n) i :=
      ⟨fun h => ⟨h.1, by omega, h.2.2⟩, fun h => ⟨h.1, by omega, h.2.2⟩⟩
    simp only [if_neg hfirst, hsplit]
  · have hfirst : ¬ Written size content 0 k i := fun h => by
      have := h.2.1
      omega
    have hsplit : Written size content k n i ↔ Written size content 0 (k + n) i :=
      ⟨fun h => ⟨by omega, by have := h.2.1; omega, h.2.2⟩,
        fun h => ⟨by omega, by have := h.2.1; omega, h.2.2⟩⟩
    simp only [if_neg hfirst, hsplit]

end Images

end Lib
end ZvolRescue
