import Mathlib.Algebra.GroupWithZero.Nat
import Mathlib.Order.Basic
import ZvolRescue.Lib.Stateful

/-!
# Reading around what cannot be read

`salvage` reads a request again in pieces and, within a piece that fails, by sector.  What
still fails is zeroed and returned as ranges, adjacent ones merged.
-/

namespace ZvolRescue
namespace Source

open Lib

/-- The smallest sector any disk has. -/
def salvageSector : Nat := 512

/-- A physical sector of 4 KiB. -/
def salvagePiece : Nat := 4096

/-- One more lost range at the end of the others, the last one first. -/
def note (start n : Nat) : List (Nat × Nat) → List (Nat × Nat)
  | [] => [(start, n)]
  | (s, l) :: bad => if s + l = start then (s, l + n) :: bad else (start, n) :: (s, l) :: bad

/-- The next absolute multiple of the unit after `at_`, relative to `offset`. -/
def nextEdge (offset at_ unit : Nat) : Nat := ((offset + at_) / unit + 1) * unit - offset

/-- The bytes so far, and the ranges lost of them, the last one first. -/
structure Kept where
  bytes : List UInt8
  bad : List (Nat × Nat)

section Loops

variable {m : Type → Type} [Monad m] {ε : Type} (read : (offset n : Nat) → m (Except ε (List UInt8)))
  (eof : ε → Bool) (offset : Nat)

/-- Read from `s` to the end of a piece by sector. -/
def salvageSectors (pieceEnd : Nat) : (rounds s : Nat) → Kept → m (Except ε Kept)
  | 0, _, kept => pure (.ok kept)
  | rounds + 1, s, kept =>
    if s < pieceEnd then do
      let sectorEnd := min (nextEdge offset s salvageSector) pieceEnd
      match ← read (offset + s) (sectorEnd - s) with
      | .ok b => salvageSectors pieceEnd rounds sectorEnd { kept with bytes := kept.bytes ++ b }
      | .error e =>
        if eof e then pure (.error e)
        else do
          let lost := List.replicate (sectorEnd - s) 0
          salvageSectors pieceEnd rounds sectorEnd
            { bytes := kept.bytes ++ lost, bad := note s (sectorEnd - s) kept.bad }
    else pure (.ok kept)

/-- Read from `at_` to the end of the request in pieces. -/
def salvagePieces (len : Nat) : (rounds at_ : Nat) → Kept → m (Except ε Kept)
  | 0, _, kept => pure (.ok kept)
  | rounds + 1, at_, kept =>
    if at_ < len then do
      let pieceEnd := min (nextEdge offset at_ salvagePiece) len
      match ← read (offset + at_) (pieceEnd - at_) with
      | .ok b => salvagePieces len rounds pieceEnd { kept with bytes := kept.bytes ++ b }
      | .error e =>
        if eof e then pure (.error e)
        else do
          match ← salvageSectors read eof offset pieceEnd (pieceEnd - at_) at_ kept with
          | .error e => pure (.error e)
          | .ok kept => salvagePieces len rounds pieceEnd kept
    else pure (.ok kept)

/-- The bytes at `offset`, zeros where they could not be read, and the ranges that could not,
relative to `offset`.  The end of the source is still an error. -/
def salvage (len : Nat) : m (Except ε (List UInt8 × List (Nat × Nat))) := do
  match ← read offset len with
  | .ok b => pure (.ok (b, []))
  | .error e =>
    if eof e then pure (.error e)
    else do
      match ← salvagePieces read eof offset len len 0 { bytes := [], bad := [] } with
      | .error e => pure (.error e)
      | .ok kept => pure (.ok (kept.bytes, kept.bad.reverse))

end Loops

/-- The bytes of the ranges, together. -/
def lostBytes (ranges : List (Nat × Nat)) : Nat := (ranges.map Prod.snd).sum

/-! ## What is lost is named -/

/-- `size` bytes with their lost ranges: in order, apart, not empty, and zeros. -/
structure Marked (size : Nat) (bytes : List UInt8) (ranges : List (Nat × Nat)) : Prop where
  length : bytes.length = size
  ascending : ranges.Pairwise (fun p q => p.1 + p.2 ≤ q.1)
  inside : ∀ p ∈ ranges, 0 < p.2 ∧ p.1 + p.2 ≤ size
  zeroed : ∀ p ∈ ranges, ∀ i, p.1 ≤ i → i < p.1 + p.2 → bytes[i]? = some 0

namespace Marked

variable {size : Nat} {bytes : List UInt8} {ranges : List (Nat × Nat)}

theorem whole (bytes : List UInt8) : Marked bytes.length bytes [] where
  length := rfl
  ascending := List.Pairwise.nil
  inside := fun _ hp => absurd hp List.not_mem_nil
  zeroed := fun _ hp => absurd hp List.not_mem_nil

/-- More bytes after those. -/
theorem append (h : Marked size bytes ranges) (more : List UInt8) :
    Marked (size + more.length) (bytes ++ more) ranges where
  length := by rw [List.length_append, h.length]
  ascending := h.ascending
  inside := fun p hp => ⟨(h.inside p hp).1, by have := (h.inside p hp).2; omega⟩
  zeroed := by
    intro p hp i hlow hhigh
    have hin := (h.inside p hp).2
    have hlen := h.length
    rw [List.getElem?_append_left (by omega)]
    exact h.zeroed p hp i hlow hhigh

/-- One more range at the end, lost. -/
theorem snoc (h : Marked size bytes ranges) {n : Nat} (hn : 0 < n) :
    Marked (size + n) (bytes ++ List.replicate n 0) (ranges ++ [(size, n)]) := by
  have hmore := h.append (List.replicate n 0)
  rw [List.length_replicate] at hmore
  refine
    { length := hmore.length
      ascending := ?_
      inside := ?_
      zeroed := ?_ }
  · rw [List.pairwise_append]
    refine ⟨h.ascending, List.pairwise_singleton _ _, ?_⟩
    intro p hp q hq
    rw [List.mem_singleton] at hq
    rw [hq]
    exact (h.inside p hp).2
  · intro p hp
    rcases List.mem_append.mp hp with hp | hp
    · exact hmore.inside p hp
    · rw [List.mem_singleton] at hp
      rw [hp]
      exact ⟨hn, Nat.le_refl _⟩
  · intro p hp i hlow hhigh
    rcases List.mem_append.mp hp with hp | hp
    · exact hmore.zeroed p hp i hlow hhigh
    · rw [List.mem_singleton] at hp
      rw [hp] at hlow hhigh
      simp only at hlow hhigh
      have hlen := h.length
      rw [List.getElem?_append_right (by omega), List.getElem?_replicate, if_pos (by omega)]

/-- Two ranges that touch are as good as one. -/
theorem merge {s l n : Nat}
    (h : Marked size bytes (ranges ++ [(s, l), (s + l, n)])) :
    Marked size bytes (ranges ++ [(s, l + n)]) := by
  have hfirst := h.inside (s, l) (by simp)
  have hlast := h.inside (s + l, n) (by simp)
  simp only at hfirst hlast
  have hsub : ∀ p ∈ ranges, p ∈ ranges ++ [(s, l), (s + l, n)] := fun p hp =>
    List.mem_append_left _ hp
  refine
    { length := h.length
      ascending := ?_
      inside := ?_
      zeroed := ?_ }
  · have hasc := h.ascending
    rw [List.pairwise_append] at hasc ⊢
    refine ⟨hasc.1, List.pairwise_singleton _ _, ?_⟩
    intro p hp q hq
    rw [List.mem_singleton] at hq
    rw [hq]
    exact hasc.2.2 p hp (s, l) (by simp)
  · intro p hp
    rcases List.mem_append.mp hp with hp | hp
    · exact h.inside p (hsub p hp)
    · rw [List.mem_singleton] at hp
      rw [hp]
      exact ⟨by simp only; omega, by simp only; omega⟩
  · intro p hp i hlow hhigh
    rcases List.mem_append.mp hp with hp | hp
    · exact h.zeroed p (hsub p hp) i hlow hhigh
    · rw [List.mem_singleton] at hp
      rw [hp] at hlow hhigh
      simp only at hlow hhigh
      by_cases hi : i < s + l
      · exact h.zeroed (s, l) (by simp) i hlow hi
      · exact h.zeroed (s + l, n) (by simp) i (by simp only; omega) (by simp only; omega)

/-- The ranges with one more noted. -/
theorem lost {bad : List (Nat × Nat)} (h : Marked size bytes bad.reverse) {n : Nat}
    (hn : 0 < n) :
    Marked (size + n) (bytes ++ List.replicate n 0) (note size n bad).reverse := by
  have hsnoc := h.snoc hn
  cases bad with
  | nil => exact hsnoc
  | cons p bad =>
    obtain ⟨s, l⟩ := p
    by_cases htouch : s + l = size
    · rw [note, if_pos htouch, List.reverse_cons]
      rw [List.reverse_cons, List.append_assoc, ← htouch] at hsnoc
      rw [← htouch]
      exact hsnoc.merge
    · rw [note, if_neg htouch, List.reverse_cons]
      exact hsnoc

end Marked

theorem lt_nextEdge (offset at_ : Nat) {unit : Nat} (h : 0 < unit) :
    at_ < nextEdge offset at_ unit := by
  have hlt := Nat.lt_div_mul_add (a := offset + at_) h
  rw [nextEdge, Nat.add_mul, Nat.one_mul]
  omega

section Keeps

variable {σ : Type} {I : σ → Prop} {ε : Type}
  {read : (offset n : Nat) → StateM σ (Except ε (List UInt8))}

/-- A read that is served fills the request. -/
def Fills (I : σ → Prop) (read : (offset n : Nat) → StateM σ (Except ε (List UInt8))) : Prop :=
  ∀ offset n, Keeps I (read offset n) (fun r => ∀ b, r = .ok b → b.length = n)

/-- What is kept so far of a request is as it should be. -/
def Kept.Upto (at_ : Nat) (r : Except ε Kept) : Prop :=
  ∀ kept, r = .ok kept → Marked at_ kept.bytes kept.bad.reverse

theorem salvageSectors_keeps (hread : Fills I read) (eof : ε → Bool) (offset pieceEnd : Nat) :
    ∀ rounds s kept, pieceEnd - s ≤ rounds → s ≤ pieceEnd →
      Marked s kept.bytes kept.bad.reverse →
      Keeps I (salvageSectors read eof offset pieceEnd rounds s kept) (Kept.Upto pieceEnd) := by
  intro rounds
  induction rounds with
  | zero =>
    intro s kept hrounds hs hkept
    apply Keeps.pure
    intro kept' heq
    cases heq
    rwa [show pieceEnd = s by omega]
  | succ rounds ih =>
    intro s kept hrounds hs hkept
    rw [salvageSectors]
    by_cases hlt : s < pieceEnd
    · rw [if_pos hlt]
      have hedge := lt_nextEdge offset s (show 0 < salvageSector by decide)
      generalize hend : min (nextEdge offset s salvageSector) pieceEnd = sectorEnd
      have hsplit : s + (sectorEnd - s) = sectorEnd := by omega
      apply Keeps.bind (hread (offset + s) (sectorEnd - s))
      intro r hr
      cases r with
      | ok b =>
        have hmore := hkept.append b
        rw [hr b rfl, hsplit] at hmore
        exact ih sectorEnd _ (by omega) (by omega) hmore
      | error e =>
        simp only
        by_cases heof : eof e = true
        · rw [if_pos heof]
          apply Keeps.pure
          intro kept' heq
          cases heq
        · rw [if_neg heof]
          have hlost := hkept.lost (show 0 < sectorEnd - s by omega)
          rw [hsplit] at hlost
          exact ih sectorEnd _ (by omega) (by omega) hlost
    · rw [if_neg hlt]
      apply Keeps.pure
      intro kept' heq
      cases heq
      rwa [show pieceEnd = s by omega]

theorem salvagePieces_keeps (hread : Fills I read) (eof : ε → Bool) (offset len : Nat) :
    ∀ rounds at_ kept, len - at_ ≤ rounds → at_ ≤ len →
      Marked at_ kept.bytes kept.bad.reverse →
      Keeps I (salvagePieces read eof offset len rounds at_ kept) (Kept.Upto len) := by
  intro rounds
  induction rounds with
  | zero =>
    intro at_ kept hrounds hat hkept
    apply Keeps.pure
    intro kept' heq
    cases heq
    rwa [show len = at_ by omega]
  | succ rounds ih =>
    intro at_ kept hrounds hat hkept
    rw [salvagePieces]
    by_cases hlt : at_ < len
    · rw [if_pos hlt]
      have hedge := lt_nextEdge offset at_ (show 0 < salvagePiece by decide)
      generalize hend : min (nextEdge offset at_ salvagePiece) len = pieceEnd
      have hsplit : at_ + (pieceEnd - at_) = pieceEnd := by omega
      apply Keeps.bind (hread (offset + at_) (pieceEnd - at_))
      intro r hr
      cases r with
      | ok b =>
        have hmore := hkept.append b
        rw [hr b rfl, hsplit] at hmore
        exact ih pieceEnd _ (by omega) (by omega) hmore
      | error e =>
        simp only
        by_cases heof : eof e = true
        · rw [if_pos heof]
          apply Keeps.pure
          intro kept' heq
          cases heq
        · rw [if_neg heof]
          apply Keeps.bind (salvageSectors_keeps hread eof offset pieceEnd (pieceEnd - at_) at_ kept
            (Nat.le_refl _) (by omega) hkept)
          intro r hr
          cases r with
          | error e =>
            apply Keeps.pure
            intro kept' heq
            cases heq
          | ok kept => exact ih pieceEnd kept (by omega) (by omega) (hr kept rfl)
    · rw [if_neg hlt]
      apply Keeps.pure
      intro kept' heq
      cases heq
      rwa [show len = at_ by omega]

/-- What a salvage gives is as long as the request, with what is lost named and zeroed. -/
theorem salvage_keeps (hread : Fills I read) (eof : ε → Bool) (offset len : Nat) :
    Keeps I (salvage read eof offset len) (fun r => ∀ s, r = .ok s → Marked len s.1 s.2) := by
  rw [salvage]
  apply Keeps.bind (hread offset len)
  intro r hr
  cases r with
  | ok b =>
    apply Keeps.pure
    intro s heq
    cases heq
    have hwhole := Marked.whole b
    rwa [hr b rfl] at hwhole
  | error e =>
    simp only
    by_cases heof : eof e = true
    · rw [if_pos heof]
      apply Keeps.pure
      intro s heq
      cases heq
    · rw [if_neg heof]
      apply Keeps.bind (salvagePieces_keeps hread eof offset len len 0 { bytes := [], bad := [] }
        (by omega) (Nat.zero_le _) (Marked.whole []))
      intro r hr
      cases r with
      | error e =>
        apply Keeps.pure
        intro s heq
        cases heq
      | ok kept =>
        apply Keeps.pure
        intro s heq
        cases heq
        exact hr kept rfl

end Keeps

end Source
end ZvolRescue
