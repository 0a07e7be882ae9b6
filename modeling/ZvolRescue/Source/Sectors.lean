import ZvolRescue.Lib.Spans
import ZvolRescue.Lib.Word
import ZvolRescue.Source.Salvage

/-!
# What a salvage keeps

A medium gives its bytes but for some that are bad, and a read fails where it touches one of these.
A salvage loses the sectors of the request that touch a bad byte, no more and no less, and names
them in merged ranges (`salvagePieces_through`).  With the 64-bit numbers of the source this is so
as long as the request does not go past the last address (`salvage64_exact_iff`).
-/

namespace ZvolRescue
namespace Source

open Lib

/-- What there is to read: the byte at each address, and which bytes are bad. -/
structure Faulty where
  byte : Nat → Option UInt8
  bad : Nat → Prop

/-- A range of `n` bytes has a bad one. -/
def Faulty.Touches (f : Faulty) (offset n : Nat) : Prop :=
  ∃ k, k < n ∧ f.bad (offset + k)

/-- The sector of byte `i` of a request has a bad byte in the request. -/
def Faulty.Lost (f : Faulty) (offset len i : Nat) : Prop :=
  ∃ j, j < len ∧ f.bad (offset + j) ∧
    (offset + j) / salvageSector = (offset + i) / salvageSector

section Answers

variable {ε : Type}

/-- What a read may answer: the bytes; the end of the medium, with such an error as `ends` says;
or another error, exactly where it touches a bad byte. -/
def Faulty.Answers (f : Faulty) (eof : ε → Bool) (ends : ε → Prop) (offset n : Nat) :
    Except ε (List UInt8) → Prop
  | .ok b => ¬ f.Touches offset n ∧ b.length = n ∧ ∀ k < n, b[k]? = f.byte (offset + k)
  | .error e =>
    if eof e then
      ends e ∧ ¬ f.Touches offset n ∧ (n = 0 ∨ ∃ k < n, f.byte (offset + k) = none)
    else f.Touches offset n

/-- What a request that is salvaged is to give: zeros in the lost sectors and the bytes of the
medium elsewhere, with ranges that cover the lost sectors, in order, none empty and no two that
touch; or the end of the medium, where a sector that is not lost reaches past it. -/
structure Faulty.Salvaged (f : Faulty) (offset len upto : Nat) (bytes : List UInt8)
    (ranges : List (Nat × Nat)) : Prop where
  length : bytes.length = upto
  zeroed : ∀ i < upto, f.Lost offset len i → bytes[i]? = some 0
  same : ∀ i < upto, ¬ f.Lost offset len i → bytes[i]? = f.byte (offset + i)
  spans : Spans (fun i => i < upto ∧ f.Lost offset len i) ranges

/-- An end of the medium that a request runs into. -/
def Faulty.EndsIn (f : Faulty) (eof : ε → Bool) (ends : ε → Prop) (offset len : Nat)
    (e : ε) : Prop :=
  eof e = true ∧ ends e ∧
    (len = 0 ∨ ∃ i < len, ¬ f.Lost offset len i ∧ f.byte (offset + i) = none)

def Faulty.Exact (f : Faulty) (eof : ε → Bool) (ends : ε → Prop) (offset len : Nat) :
    Except ε (List UInt8 × List (Nat × Nat)) → Prop
  | .ok s => f.Salvaged offset len len s.1 s.2
  | .error e => f.EndsIn eof ends offset len e

end Answers

/-! ## Edges of sectors -/

/-- No sector of the request lies on both sides of byte `s`. -/
def Cut (offset len s : Nat) : Prop :=
  ∀ i j, i < len → j < len → (offset + i) / salvageSector = (offset + j) / salvageSector →
    (i < s ↔ j < s)

theorem cut_zero (offset len : Nat) : Cut offset len 0 := fun _ _ _ _ _ => by omega

theorem cut_len (offset len : Nat) : Cut offset len len := fun _ _ hi hj _ => by omega

theorem nextEdge_eq (offset at_ : Nat) {unit : Nat} (h : 0 < unit) :
    offset + nextEdge offset at_ unit = ((offset + at_) / unit + 1) * unit := by
  have hlt := lt_nextEdge offset at_ h
  rw [nextEdge] at hlt ⊢
  omega

/-- The edges of sectors, and of what is made of whole sectors, cut no sector. -/
theorem cut_nextEdge (offset len at_ sectors : Nat) (h : 0 < sectors) :
    Cut offset len (nextEdge offset at_ (sectors * salvageSector)) := by
  have hunit : 0 < sectors * salvageSector := Nat.mul_pos h (by decide)
  have hedge := nextEdge_eq offset at_ hunit
  rw [← Nat.mul_assoc] at hedge
  intro i j _ _ hsame
  have hiff : ∀ k, k < nextEdge offset at_ (sectors * salvageSector) ↔
      (offset + k) / salvageSector <
        ((offset + at_) / (sectors * salvageSector) + 1) * sectors := by
    intro k
    rw [Nat.div_lt_iff_lt_mul (by decide), ← hedge]
    omega
  rw [hiff, hiff, hsame]

theorem cut_min {offset len s t : Nat} (hs : Cut offset len s) (ht : Cut offset len t) :
    Cut offset len (min s t) := by
  intro i j hi hj hsame
  have hs := hs i j hi hj hsame
  have ht := ht i j hi hj hsame
  omega

section Ranges

variable {f : Faulty} {offset len s e : Nat}

/-- Between two cuts, what no bad byte is in is not lost. -/
theorem not_lost (hs : Cut offset len s) (he : Cut offset len e) (hle : e ≤ len)
    (h : ¬ f.Touches (offset + s) (e - s)) {i : Nat} (hsi : s ≤ i) (hie : i < e) :
    ¬ f.Lost offset len i := by
  rintro ⟨j, hj, hbad, hsame⟩
  have hbelow := hs j i hj (by omega) hsame
  have habove := he j i hj (by omega) hsame
  refine h ⟨j - s, by omega, ?_⟩
  rwa [show offset + s + (j - s) = offset + j by omega]

/-- A sector with a bad byte is lost. -/
theorem lost_sector (hle : e ≤ len) (hedge : e ≤ nextEdge offset s salvageSector)
    (h : f.Touches (offset + s) (e - s)) {i : Nat} (hsi : s ≤ i) (hie : i < e) :
    f.Lost offset len i := by
  obtain ⟨k, hk, hbad⟩ := h
  have hnext := nextEdge_eq offset s (show 0 < salvageSector by decide)
  have hsector : ∀ j, s ≤ j → j < e →
      (offset + j) / salvageSector = (offset + s) / salvageSector := by
    intro j hsj hje
    apply Nat.le_antisymm
    · apply Nat.le_of_lt_succ
      rw [Nat.div_lt_iff_lt_mul (by decide), Nat.succ_eq_add_one, ← hnext]
      omega
    · exact Nat.div_le_div_right (by omega)
  refine ⟨s + k, by omega, by rwa [← Nat.add_assoc], ?_⟩
  rw [hsector (s + k) (by omega) (by omega), hsector i hsi hie]

end Ranges

/-! ## What is kept so far -/

/-- One more lost range, behind what was lost before it. -/
theorem note_spans {P : Nat → Prop} {bad : List (Nat × Nat)} {s n : Nat}
    (h : Spans P bad.reverse) (hP : ∀ i, P i → i < s) (hn : 0 < n) :
    Spans (fun i => P i ∨ s ≤ i ∧ i < s + n) (note s n bad).reverse := by
  cases bad with
  | nil => exact h.snoc (by simp) hn
  | cons p bad =>
    obtain ⟨s₀, l₀⟩ := p
    have hend := h.end_le hP (p := (s₀, l₀)) (by simp)
    rw [List.reverse_cons] at h
    by_cases htouch : s₀ + l₀ = s
    · rw [note, if_pos htouch, List.reverse_cons]
      subst htouch
      exact h.grow n
    · rw [note, if_neg htouch, List.reverse_cons, List.reverse_cons]
      apply h.snoc _ hn
      intro q hq
      rw [List.mem_append, List.mem_singleton] at hq
      rcases hq with hq | rfl
      · have hlt := (List.pairwise_append.mp h.apart).2.2 q hq (s₀, l₀) (by simp)
        simp only at hlt hend
        omega
      · simp only at hend ⊢
        omega

section Kept

variable {f : Faulty} {offset len s e : Nat} {bytes b : List UInt8} {ranges : List (Nat × Nat)}

theorem salvaged_nil (f : Faulty) (offset len : Nat) : f.Salvaged offset len 0 [] [] where
  length := rfl
  zeroed := fun _ h => absurd h (Nat.not_lt_zero _)
  same := fun _ h => absurd h (Nat.not_lt_zero _)
  spans := Spans.nil (fun _ h => absurd h.1 (Nat.not_lt_zero _))

/-- More bytes of the medium, none of them lost. -/
theorem Faulty.Salvaged.clean (h : f.Salvaged offset len s bytes ranges) (hse : s ≤ e)
    (hlen : b.length = e - s) (hb : ∀ k < e - s, b[k]? = f.byte (offset + s + k))
    (hkeep : ∀ i, s ≤ i → i < e → ¬ f.Lost offset len i) :
    f.Salvaged offset len e (bytes ++ b) ranges := by
  have hlength := h.length
  have hold : ∀ i < s, (bytes ++ b)[i]? = bytes[i]? := fun i hi =>
    List.getElem?_append_left (by omega)
  refine
    { length := by rw [List.length_append]; omega
      zeroed := ?_
      same := ?_
      spans := h.spans.congr ?_ }
  · intro i hi hlost
    have his : i < s := by
      by_contra hsi
      exact hkeep i (by omega) hi hlost
    rw [hold i his]
    exact h.zeroed i his hlost
  · intro i hi hnot
    by_cases his : i < s
    · rw [hold i his]
      exact h.same i his hnot
    · rw [List.getElem?_append_right (by omega), hlength, hb (i - s) (by omega)]
      rw [show offset + s + (i - s) = offset + i by omega]
  · intro i
    constructor
    · rintro ⟨his, hlost⟩
      exact ⟨by omega, hlost⟩
    · rintro ⟨hie, hlost⟩
      refine ⟨?_, hlost⟩
      by_contra hsi
      exact hkeep i (by omega) hie hlost

/-- A lost range, zeroed and noted. -/
theorem Faulty.Salvaged.lost {bad : List (Nat × Nat)}
    (h : f.Salvaged offset len s bytes bad.reverse) (hse : s < e)
    (hlost : ∀ i, s ≤ i → i < e → f.Lost offset len i) :
    f.Salvaged offset len e (bytes ++ List.replicate (e - s) 0) (note s (e - s) bad).reverse := by
  have hlength := h.length
  have hold : ∀ i < s, (bytes ++ List.replicate (e - s) 0)[i]? = bytes[i]? := fun i hi =>
    List.getElem?_append_left (by omega)
  have hspans := note_spans h.spans (fun i hi => hi.1) (show 0 < e - s by omega)
  refine
    { length := by rw [List.length_append, List.length_replicate]; omega
      zeroed := ?_
      same := ?_
      spans := hspans.congr ?_ }
  · intro i hi hl
    by_cases his : i < s
    · rw [hold i his]
      exact h.zeroed i his hl
    · rw [List.getElem?_append_right (by omega), List.getElem?_replicate, if_pos (by omega)]
  · intro i hi hnot
    have his : i < s := by
      by_contra hsi
      exact hnot (hlost i (by omega) hi)
    rw [hold i his]
    exact h.same i his hnot
  · intro i
    constructor
    · rintro (⟨his, hl⟩ | ⟨hsi, hie⟩)
      · exact ⟨by omega, hl⟩
      · exact ⟨by omega, hlost i hsi (by omega)⟩
    · rintro ⟨hie, hl⟩
      by_cases his : i < s
      · exact .inl ⟨his, hl⟩
      · exact .inr ⟨by omega, by omega⟩

end Kept

open scoped Classical in
/-- How many bytes of a request are lost. -/
noncomputable def Faulty.lostCount (f : Faulty) (offset len : Nat) : Nat :=
  (List.range len).countP (fun i => f.Lost offset len i)

namespace Faulty.Salvaged

variable {f : Faulty} {offset len : Nat} {bytes : List UInt8} {ranges : List (Nat × Nat)}

theorem lostBytes_eq (h : f.Salvaged offset len len bytes ranges) :
    lostBytes ranges = f.lostCount offset len := by
  classical
  rw [lostBytes, h.spans.sum_eq_countP (fun i hi => hi.1), lostCount]
  refine List.countP_congr (fun i hi => ?_)
  simp [List.mem_range.mp hi]

/-- The ranges tell what is lost. -/
theorem lost_iff (h : f.Salvaged offset len len bytes ranges) {i : Nat} (hi : i < len) :
    f.Lost offset len i ↔ ∃ p ∈ ranges, p.1 ≤ i ∧ i < p.1 + p.2 := by
  rw [h.spans.covers i]
  exact (and_iff_right hi).symm

end Faulty.Salvaged

/-! ## A whole request -/

section Loops

variable {σ ε : Type} {I : σ → Prop} {f : Faulty} {eof : ε → Bool} {ends : ε → Prop}
  {read : (offset n : Nat) → StateM σ (Except ε (List UInt8))} {offset len : Nat}

/-- Reads that stay within a piece are answered. -/
def Faulty.Serves (f : Faulty) (I : σ → Prop) (eof : ε → Bool) (ends : ε → Prop)
    (read : (offset n : Nat) → StateM σ (Except ε (List UInt8))) : Prop :=
  ∀ a n, a + n ≤ (a / salvagePiece + 1) * salvagePiece →
    Keeps I (read a n) (f.Answers eof ends a n)

/-- What a salvage has of the request when it is through with the first `upto` bytes. -/
def Faulty.Through (f : Faulty) (eof : ε → Bool) (ends : ε → Prop) (offset len upto : Nat) :
    Except ε Kept → Prop
  | .ok kept => f.Salvaged offset len upto kept.bytes kept.bad.reverse
  | .error e => f.EndsIn eof ends offset len e

/-- What was read between two cuts goes to what is kept. -/
theorem Faulty.Salvaged.answered {s e : Nat} {bytes b : List UInt8} {ranges : List (Nat × Nat)}
    (h : f.Salvaged offset len s bytes ranges) (hs : Cut offset len s) (he : Cut offset len e)
    (hse : s ≤ e) (hle : e ≤ len)
    (hb : f.Answers (ε := ε) eof ends (offset + s) (e - s) (.ok b)) :
    f.Salvaged offset len e (bytes ++ b) ranges :=
  h.clean hse hb.2.1 hb.2.2 (fun _ hsi hie => not_lost hs he hle hb.1 hsi hie)

/-- The end of the medium between two cuts is one that the request runs into. -/
theorem Faulty.endsIn_of_read {s e : Nat} {err : ε} (hs : Cut offset len s)
    (he : Cut offset len e) (hlt : s < e) (hle : e ≤ len) (heof : eof err = true)
    (h : f.Answers eof ends (offset + s) (e - s) (.error err)) :
    f.EndsIn eof ends offset len err := by
  rw [Faulty.Answers, if_pos heof] at h
  obtain ⟨hends, hclean, hzero | ⟨k, hk, hnone⟩⟩ := h
  · omega
  · refine ⟨heof, hends, .inr ⟨s + k, by omega, ?_, ?_⟩⟩
    · exact not_lost hs he hle hclean (by omega) (by omega)
    · rwa [← Nat.add_assoc]

theorem salvageSectors_through (hread : f.Serves I eof ends read) {pieceEnd : Nat}
    (hcut : Cut offset len pieceEnd) (hle : pieceEnd ≤ len) :
    ∀ rounds s kept, pieceEnd - s ≤ rounds → s ≤ pieceEnd → Cut offset len s →
      f.Salvaged offset len s kept.bytes kept.bad.reverse →
      Keeps I (salvageSectors read eof offset pieceEnd rounds s kept)
        (f.Through eof ends offset len pieceEnd) := by
  intro rounds
  induction rounds with
  | zero =>
    intro s kept hrounds hs _ hkept
    apply Keeps.pure
    rwa [show s = pieceEnd by omega] at hkept
  | succ rounds ih =>
    intro s kept hrounds hs hcuts hkept
    rw [salvageSectors]
    by_cases hlt : s < pieceEnd
    · rw [if_pos hlt]
      have hedge := lt_nextEdge offset s (show 0 < salvageSector by decide)
      have hnext := nextEdge_eq offset s (show 0 < salvageSector by decide)
      have hcute : Cut offset len (nextEdge offset s salvageSector) :=
        cut_nextEdge offset len s 1 (by decide)
      have hcutm := cut_min hcute hcut
      have hwithin : offset + nextEdge offset s salvageSector ≤
          ((offset + s) / salvagePiece + 1) * salvagePiece := by
        rw [hnext, salvageSector, salvagePiece]
        omega
      have hmin : min (nextEdge offset s salvageSector) pieceEnd ≤
          nextEdge offset s salvageSector := Nat.min_le_left _ _
      generalize hend : min (nextEdge offset s salvageSector) pieceEnd = e at hcutm hmin ⊢
      apply Keeps.bind (hread (offset + s) (e - s) (by omega))
      intro r hr
      cases r with
      | ok b =>
        have hmore := hkept.answered hcuts hcutm (by omega) (by omega) hr
        exact ih e _ (by omega) (by omega) hcutm hmore
      | error err =>
        simp only
        by_cases heof : eof err = true
        · rw [if_pos heof]
          apply Keeps.pure
          exact Faulty.endsIn_of_read hcuts hcutm (by omega) (by omega) heof hr
        · rw [if_neg heof]
          rw [Faulty.Answers, if_neg heof] at hr
          have hlost := hkept.lost (e := e) (by omega)
            (fun i hsi hie => lost_sector (by omega) hmin hr hsi hie)
          exact ih e _ (by omega) (by omega) hcutm hlost
    · rw [if_neg hlt]
      apply Keeps.pure
      rwa [show s = pieceEnd by omega] at hkept

theorem salvagePieces_through (hread : f.Serves I eof ends read) :
    ∀ rounds at_ kept, len - at_ ≤ rounds → at_ ≤ len → Cut offset len at_ →
      f.Salvaged offset len at_ kept.bytes kept.bad.reverse →
      Keeps I (salvagePieces read eof offset len rounds at_ kept)
        (f.Through eof ends offset len len) := by
  intro rounds
  induction rounds with
  | zero =>
    intro at_ kept hrounds hat _ hkept
    apply Keeps.pure
    rwa [show at_ = len by omega] at hkept
  | succ rounds ih =>
    intro at_ kept hrounds hat hcuta hkept
    rw [salvagePieces]
    by_cases hlt : at_ < len
    · rw [if_pos hlt]
      have hedge := lt_nextEdge offset at_ (show 0 < salvagePiece by decide)
      have hnext := nextEdge_eq offset at_ (show 0 < salvagePiece by decide)
      have hcute : Cut offset len (nextEdge offset at_ salvagePiece) :=
        cut_nextEdge offset len at_ 8 (by decide)
      have hcutm := cut_min hcute (cut_len offset len)
      generalize hend : min (nextEdge offset at_ salvagePiece) len = e at hcutm ⊢
      apply Keeps.bind (hread (offset + at_) (e - at_) (by omega))
      intro r hr
      cases r with
      | ok b =>
        have hmore := hkept.answered hcuta hcutm (by omega) (by omega) hr
        exact ih e _ (by omega) (by omega) hcutm hmore
      | error err =>
        simp only
        by_cases heof : eof err = true
        · rw [if_pos heof]
          apply Keeps.pure
          exact Faulty.endsIn_of_read hcuta hcutm (by omega) (by omega) heof hr
        · rw [if_neg heof]
          apply Keeps.bind (salvageSectors_through hread hcutm (by omega) (e - at_) at_ kept
            (Nat.le_refl _) (by omega) hcuta hkept)
          intro r hr
          cases r with
          | error err =>
            apply Keeps.pure
            exact hr
          | ok kept => exact ih e kept (by omega) (by omega) hcutm hr
    · rw [if_neg hlt]
      apply Keeps.pure
      rwa [show at_ = len by omega] at hkept

end Loops

/-! ## With the numbers of the source -/

/-- The next multiple of the unit, as the source computes it. -/
def nextEdge64 (offset at_ unit : Nat) : Nat :=
  sub64 (mul64 (add64 (add64 offset at_ / unit) 1) unit) offset

section Wrapped

variable {m : Type → Type} [Monad m] {ε : Type}
  (read : (offset n : Nat) → m (Except ε (List UInt8)))
  (eof : ε → Bool) (offset : Nat)

/-- `salvageSectors` with sums that wrap. -/
def salvageSectors64 (pieceEnd : Nat) : (rounds s : Nat) → Kept → m (Except ε Kept)
  | 0, _, kept => pure (.ok kept)
  | rounds + 1, s, kept =>
    if s < pieceEnd then do
      let sectorEnd := min (nextEdge64 offset s salvageSector) pieceEnd
      match ← read (add64 offset s) (sectorEnd - s) with
      | .ok b => salvageSectors64 pieceEnd rounds sectorEnd { kept with bytes := kept.bytes ++ b }
      | .error e =>
        if eof e then pure (.error e)
        else do
          let lost := List.replicate (sectorEnd - s) 0
          salvageSectors64 pieceEnd rounds sectorEnd
            { bytes := kept.bytes ++ lost, bad := note s (sectorEnd - s) kept.bad }
    else pure (.ok kept)

/-- `salvagePieces` with sums that wrap. -/
def salvagePieces64 (len : Nat) : (rounds at_ : Nat) → Kept → m (Except ε Kept)
  | 0, _, kept => pure (.ok kept)
  | rounds + 1, at_, kept =>
    if at_ < len then do
      let pieceEnd := min (nextEdge64 offset at_ salvagePiece) len
      match ← read (add64 offset at_) (pieceEnd - at_) with
      | .ok b => salvagePieces64 len rounds pieceEnd { kept with bytes := kept.bytes ++ b }
      | .error e =>
        if eof e then pure (.error e)
        else do
          match ← salvageSectors64 read eof offset pieceEnd (pieceEnd - at_) at_ kept with
          | .error e => pure (.error e)
          | .ok kept => salvagePieces64 len rounds pieceEnd kept
    else pure (.ok kept)

/-- `salvage` with sums that wrap. -/
def salvage64 (len : Nat) : m (Except ε (List UInt8 × List (Nat × Nat))) := do
  match ← read offset len with
  | .ok b => pure (.ok (b, []))
  | .error e =>
    if eof e then pure (.error e)
    else do
      match ← salvagePieces64 read eof offset len len 0 { bytes := [], bad := [] } with
      | .error e => pure (.error e)
      | .ok kept => pure (.ok (kept.bytes, kept.bad.reverse))

end Wrapped

/-- The unit divides the number of addresses, so that the wrapped edges are the edges. -/
theorem nextEdge64_sector (offset : Nat) {at_ : Nat} (hat : at_ < 2 ^ 63) :
    nextEdge64 offset at_ salvageSector = nextEdge offset at_ salvageSector := by
  simp only [nextEdge64, nextEdge, add64, mul64, sub64, word, salvageSector]
  omega

theorem nextEdge64_piece (offset : Nat) {at_ : Nat} (hat : at_ < 2 ^ 63) :
    nextEdge64 offset at_ salvagePiece = nextEdge offset at_ salvagePiece := by
  simp only [nextEdge64, nextEdge, add64, mul64, sub64, word, salvagePiece]
  omega

section Wraps

variable {m : Type → Type} [Monad m] {ε : Type}
  (read : (offset n : Nat) → m (Except ε (List UInt8)))
  (eof : ε → Bool) (offset : Nat)

theorem salvageSectors64_eq {pieceEnd : Nat} (hend : pieceEnd < 2 ^ 63) :
    ∀ rounds s kept, salvageSectors64 read eof offset pieceEnd rounds s kept =
      salvageSectors (fun a n => read (a % word) n) eof offset pieceEnd rounds s kept := by
  intro rounds
  induction rounds with
  | zero =>
    intro s kept
    rfl
  | succ rounds ih =>
    intro s kept
    rw [salvageSectors64, salvageSectors]
    by_cases hlt : s < pieceEnd
    · rw [if_pos hlt, if_pos hlt, nextEdge64_sector offset (by omega)]
      apply bind_congr
      intro r
      cases r with
      | ok b => exact ih _ _
      | error e => simp only [ih]
    · rw [if_neg hlt, if_neg hlt]

/-- To wrap the sums is to count the addresses modulo their number. -/
theorem salvagePieces64_eq {len : Nat} (hlen : len < 2 ^ 63) :
    ∀ rounds at_ kept, salvagePieces64 read eof offset len rounds at_ kept =
      salvagePieces (fun a n => read (a % word) n) eof offset len rounds at_ kept := by
  intro rounds
  induction rounds with
  | zero =>
    intro at_ kept
    rfl
  | succ rounds ih =>
    intro at_ kept
    rw [salvagePieces64, salvagePieces]
    by_cases hlt : at_ < len
    · rw [if_pos hlt, if_pos hlt, nextEdge64_piece offset (by omega)]
      have hmin : min (nextEdge offset at_ salvagePiece) len < 2 ^ 63 := by omega
      apply bind_congr
      intro r
      cases r with
      | ok b => exact ih _ _
      | error e =>
        by_cases heof : eof e = true
        · simp only [if_pos heof]
        · simp only [if_neg heof]
          rw [salvageSectors64_eq read eof offset hmin]
          apply bind_congr
          intro r
          cases r with
          | error e => rfl
          | ok kept => exact ih _ _
    · rw [if_neg hlt, if_neg hlt]

end Wraps

/-- The medium with its addresses counted modulo their number. -/
def Faulty.wrapped (f : Faulty) : Faulty where
  byte := fun a => f.byte (a % word)
  bad := fun a => f.bad (a % word)

@[simp] theorem Faulty.wrapped_byte (f : Faulty) (a : Nat) :
    f.wrapped.byte a = f.byte (a % word) := rfl

@[simp] theorem Faulty.wrapped_bad (f : Faulty) (a : Nat) :
    f.wrapped.bad a = f.bad (a % word) := rfl

/-- Nothing is past the last address. -/
structure Faulty.Addressed (f : Faulty) : Prop where
  byte : ∀ a, word ≤ a → f.byte a = none
  bad : ∀ a, word ≤ a → ¬ f.bad a

section Exact

variable {σ ε : Type} {I : σ → Prop} {f : Faulty} {eof : ε → Bool} {ends : ε → Prop}
  {read : (offset n : Nat) → StateM σ (Except ε (List UInt8))} {offset len : Nat}

/-- An answer depends on the bytes of the request only. -/
theorem Faulty.answers_congr {g : Faulty} {a b n : Nat}
    (hbyte : ∀ k < n, f.byte (a + k) = g.byte (b + k))
    (hbad : ∀ k < n, f.bad (a + k) ↔ g.bad (b + k)) {r : Except ε (List UInt8)}
    (h : f.Answers eof ends a n r) : g.Answers eof ends b n r := by
  have htouches : f.Touches a n ↔ g.Touches b n :=
    exists_congr fun k => and_congr_right fun hk => hbad k hk
  cases r with
  | ok bytes =>
    obtain ⟨hclean, hlen, hbytes⟩ := h
    refine ⟨by rwa [← htouches], hlen, ?_⟩
    intro k hk
    rw [← hbyte k hk]
    exact hbytes k hk
  | error e =>
    rw [Faulty.Answers] at h ⊢
    by_cases heof : eof e = true
    · rw [if_pos heof] at h ⊢
      obtain ⟨hends, hclean, hnone⟩ := h
      refine ⟨hends, by rwa [← htouches], hnone.imp_right ?_⟩
      rintro ⟨k, hk, hnone⟩
      exact ⟨k, hk, by rwa [← hbyte k hk]⟩
    · rw [if_neg heof] at h ⊢
      rwa [← htouches]

/-- No piece goes past the last address. -/
theorem Faulty.wrapped_serves
    (hread : ∀ a < word, ∀ n, Keeps I (read a n) (f.Answers eof ends a n)) :
    f.wrapped.Serves I eof ends (fun a n => read (a % word) n) := by
  intro a n hn
  have hwrap : ∀ k < n, a % word + k = (a + k) % word := by
    intro k hk
    rw [salvagePiece] at hn
    rw [word]
    omega
  apply (hread (a % word) (Nat.mod_lt _ (by decide)) n).mono
  intro r hr
  apply Faulty.answers_congr _ _ hr
  · intro k hk
    rw [hwrap k hk, f.wrapped_byte]
  · intro k hk
    rw [hwrap k hk, f.wrapped_bad]

/-- A request that does not go past the last address is the same either way. -/
theorem Faulty.exact_of_wrapped (hfits : offset + len ≤ word)
    {r : Except ε (List UInt8 × List (Nat × Nat))} (h : f.wrapped.Exact eof ends offset len r) :
    f.Exact eof ends offset len r := by
  have hmod : ∀ i < len, (offset + i) % word = offset + i := fun i hi =>
    Nat.mod_eq_of_lt (by omega)
  have hlost : ∀ i, f.wrapped.Lost offset len i ↔ f.Lost offset len i := by
    intro i
    refine exists_congr fun j => and_congr_right fun hj => ?_
    rw [f.wrapped_bad, hmod j hj]
  have hbyte : ∀ i < len, f.wrapped.byte (offset + i) = f.byte (offset + i) := by
    intro i hi
    rw [f.wrapped_byte, hmod i hi]
  cases r with
  | ok s =>
    refine
      { length := h.length
        zeroed := fun i hi hl => h.zeroed i hi ((hlost i).mpr hl)
        same := ?_
        spans := h.spans.congr fun i => by rw [hlost] }
    intro i hi hl
    rw [← hbyte i hi]
    exact h.same i hi (by rwa [hlost])
  | error e =>
    refine ⟨h.1, h.2.1, h.2.2.imp_right ?_⟩
    rintro ⟨i, hi, hl, hnone⟩
    exact ⟨i, hi, by rwa [← hlost], by rwa [← hbyte i hi]⟩

/-- What is past the last address is not lost and has no byte. -/
theorem Faulty.Addressed.past (h : f.Addressed) {i : Nat} (hi : word ≤ offset + i) :
    ¬ f.Lost offset len i ∧ f.byte (offset + i) = none := by
  refine ⟨?_, h.byte _ hi⟩
  rintro ⟨j, _, hbad, hsame⟩
  have hlt : offset + j < word := by
    by_contra hge
    exact h.bad _ (by omega) hbad
  rw [salvageSector] at hsame
  rw [word] at hlt hi
  omega

/-- A request past the last address runs into the end of the medium, and into nothing else. -/
theorem Faulty.Addressed.exact_iff (h : f.Addressed) (hpast : word < offset + len)
    (htop : offset < word) {r : Except ε (List UInt8 × List (Nat × Nat))}
    (hr : f.wrapped.Exact eof ends offset len r) :
    f.Exact eof ends offset len r ↔
      ∃ i < len, ¬ f.wrapped.Lost offset len i ∧ f.wrapped.byte (offset + i) = none := by
  have hlast : ¬ f.Lost offset len (word - offset) ∧ f.byte (offset + (word - offset)) = none :=
    h.past (by omega)
  obtain ⟨hnot, hnone⟩ := hlast
  cases r with
  | ok s =>
    have hlength : s.1.length = len := hr.length
    constructor
    · intro hs
      have hsame := hs.same _ (by omega) hnot
      rw [hnone, List.getElem?_eq_none_iff] at hsame
      omega
    · rintro ⟨i, hi, hclean, hgone⟩
      have hsame := hr.same i hi hclean
      rw [hgone, List.getElem?_eq_none_iff] at hsame
      omega
  | error e =>
    constructor
    · intro _
      exact hr.2.2.resolve_left (by omega)
    · intro _
      exact ⟨hr.1, hr.2.1, .inr ⟨_, by omega, hnot, hnone⟩⟩

/-- The first read of a request, where it needs no second. -/
theorem Faulty.exact_of_read {b : List UInt8}
    (h : f.Answers (ε := ε) eof ends offset len (.ok b)) :
    f.Exact (ε := ε) eof ends offset len (.ok (b, [])) := by
  have hnil := salvaged_nil f offset len
  exact hnil.answered (cut_zero offset len) (cut_len offset len) (Nat.zero_le _) (Nat.le_refl _) h

/-- What a salvage gives, where sums do not wrap. -/
theorem salvage_exact (hread : ∀ a n, Keeps I (read a n) (f.Answers eof ends a n)) :
    Keeps I (salvage read eof offset len) (f.Exact eof ends offset len) := by
  rw [salvage]
  apply Keeps.bind (hread offset len)
  intro r hr
  cases r with
  | ok b => exact Keeps.pure (Faulty.exact_of_read hr)
  | error e =>
    simp only
    by_cases heof : eof e = true
    · rw [if_pos heof]
      apply Keeps.pure
      rw [Faulty.Answers, if_pos heof] at hr
      obtain ⟨hends, hclean, hnone⟩ := hr
      refine ⟨heof, hends, hnone.imp_right ?_⟩
      rintro ⟨i, hi, hnone⟩
      refine ⟨i, hi, ?_, hnone⟩
      rintro ⟨j, hj, hbad, _⟩
      exact hclean ⟨j, hj, hbad⟩
    · rw [if_neg heof]
      apply Keeps.bind (salvagePieces_through (fun a n _ => hread a n) len 0 _ (by omega)
        (Nat.zero_le _) (cut_zero offset len) (salvaged_nil _ _ _))
      intro r hthrough
      cases r with
      | error e => exact Keeps.pure hthrough
      | ok kept => exact Keeps.pure hthrough

/-- A salvage that loses nothing gives what the request gives, where that does not change. -/
theorem salvage_of_whole {answer : (offset n : Nat) → Except ε (List UInt8)}
    (hsame : ∀ a n s, (read a n s).1 = answer a n)
    (hanswers : ∀ a n, f.Answers eof ends a n (answer a n)) {b : List UInt8} {s : σ}
    (h : (salvage read eof offset len s).1 = .ok (b, [])) : answer offset len = .ok b := by
  have hread : ∀ a n, Keeps (fun _ => True) (read a n) (f.Answers eof ends a n) := by
    intro a n s _
    rw [hsame]
    exact ⟨hanswers a n, True.intro⟩
  have hexact : f.Exact eof ends offset len (salvage read eof offset len s).1 :=
    (salvage_exact hread s True.intro).1
  rw [h] at hexact
  have hfirst := hanswers offset len
  rw [salvage, bind_run, hsame] at h
  cases hanswer : answer offset len with
  | ok b' =>
    rw [hanswer] at h
    cases h
    rfl
  | error e =>
    rw [hanswer] at h hfirst
    rw [Faulty.Answers] at hfirst
    by_cases heof : eof e = true
    · simp only [if_pos heof] at h
      cases h
    · rw [if_neg heof] at hfirst
      obtain ⟨k, hk, hbad⟩ := hfirst
      obtain ⟨p, hp, -⟩ := (hexact.lost_iff hk).mp ⟨k, hk, hbad, rfl⟩
      exact absurd hp List.not_mem_nil

/-- A salvage is exact as long as the request does not go past the last address, it touches no bad
byte, or, with the addresses counted modulo their number, a sector of it that has no bad byte
reaches past the end of the medium. -/
theorem salvage64_exact_iff (haddr : f.Addressed)
    (hread : ∀ a < word, ∀ n, Keeps I (read a n) (f.Answers eof ends a n))
    (hoffset : offset < word) (hlen : len < 2 ^ 63) :
    Keeps I (salvage64 read eof offset len) (fun r => f.Exact eof ends offset len r ↔
      offset + len ≤ word ∨ ¬ f.Touches offset len ∨
        ∃ i < len, ¬ f.wrapped.Lost offset len i ∧ f.wrapped.byte (offset + i) = none) := by
  rw [salvage64]
  apply Keeps.bind (hread offset hoffset len)
  intro r hr
  cases r with
  | ok b =>
    apply Keeps.pure
    exact iff_of_true (Faulty.exact_of_read hr) (.inr (.inl hr.1))
  | error e =>
    simp only
    by_cases heof : eof e = true
    · rw [if_pos heof]
      apply Keeps.pure
      rw [Faulty.Answers, if_pos heof] at hr
      obtain ⟨hends, hclean, hnone⟩ := hr
      refine iff_of_true ⟨heof, hends, hnone.imp_right ?_⟩ (.inr (.inl hclean))
      rintro ⟨i, hi, hnone⟩
      refine ⟨i, hi, ?_, hnone⟩
      rintro ⟨j, hj, hbad, _⟩
      exact hclean ⟨j, hj, hbad⟩
    · rw [if_neg heof]
      rw [Faulty.Answers, if_neg heof] at hr
      rw [salvagePieces64_eq read eof offset hlen]
      apply Keeps.bind (salvagePieces_through (Faulty.wrapped_serves hread) len 0 _ (by omega)
        (Nat.zero_le _) (cut_zero offset len) (salvaged_nil _ _ _))
      intro r hthrough
      have hboth : ∀ r, f.wrapped.Exact eof ends offset len r →
          (f.Exact eof ends offset len r ↔ offset + len ≤ word ∨ ¬ f.Touches offset len ∨
            ∃ i < len, ¬ f.wrapped.Lost offset len i ∧
              f.wrapped.byte (offset + i) = none) := by
        intro r hexact
        by_cases hfits : offset + len ≤ word
        · exact iff_of_true (Faulty.exact_of_wrapped hfits hexact) (.inl hfits)
        · rw [haddr.exact_iff (by omega) hoffset hexact]
          simp [hfits, hr]
      cases r with
      | error e =>
        apply Keeps.pure
        exact hboth (.error e) hthrough
      | ok kept =>
        apply Keeps.pure
        exact hboth (.ok (kept.bytes, kept.bad.reverse)) hthrough

end Exact

/-- A source of `size` sevens whose byte `bad` cannot be read. -/
def sevens (size bad : Nat) : Faulty where
  byte := fun a => if a < size then some 7 else none
  bad := fun a => a = bad

def readSevens (size bad offset n : Nat) : StateM Unit (Except Bool (List UInt8)) :=
  pure (if offset ≤ bad ∧ bad < offset + n then .error false
    else if offset + n ≤ size then .ok (List.replicate n 7)
    else .error true)

theorem sevens_addressed {size bad : Nat} (hsize : size ≤ word) (hbad : bad < word) :
    (sevens size bad).Addressed where
  byte := fun a ha => if_neg (by omega)
  bad := fun a ha h => by
    have hat : a = bad := h
    omega

theorem readSevens_answers (size bad offset n : Nat) :
    Keeps (fun _ => True) (readSevens size bad offset n)
      ((sevens size bad).Answers id (fun _ => True) offset n) := by
  apply Keeps.pure
  have htouch : (sevens size bad).Touches offset n ↔ offset ≤ bad ∧ bad < offset + n := by
    constructor
    · rintro ⟨k, hk, hbad⟩
      have hat : offset + k = bad := hbad
      omega
    · intro h
      exact ⟨bad - offset, by omega, show offset + (bad - offset) = bad by omega⟩
  by_cases h : offset ≤ bad ∧ bad < offset + n
  · rw [if_pos h]
    exact htouch.mpr h
  · have hclean := mt htouch.mp h
    rw [if_neg h]
    by_cases hsize : offset + n ≤ size
    · rw [if_pos hsize]
      refine ⟨hclean, List.length_replicate, ?_⟩
      intro k hk
      rw [List.getElem?_replicate, if_pos hk]
      exact (if_pos (by omega)).symm
    · rw [if_neg hsize]
      refine ⟨True.intro, hclean, ?_⟩
      by_cases hn : n = 0
      · exact .inl hn
      · exact .inr ⟨n - 1, by omega, if_neg (by omega)⟩

theorem salvage64_exact_iff_sevens :
    (sevens 4000 700).Exact id (fun _ => True) 100 1000
      (salvage64 (readSevens 4000 700) id 100 1000 ()).1 :=
  ((salvage64_exact_iff (sevens_addressed (by decide) (by decide))
    (fun a _ n => readSevens_answers 4000 700 a n) (by decide) (by decide)) () True.intro).1.mpr
      (.inl (by decide))

/-- A request past the last address gives the first bytes of the source as its last ones. -/
theorem salvage64_past_the_end :
    (sevens 1000 (2 ^ 64 - 1)).Addressed ∧
    (∀ a n, Keeps (fun _ => True) (readSevens 1000 (2 ^ 64 - 1) a n)
      ((sevens 1000 (2 ^ 64 - 1)).Answers id (fun _ => True) a n)) ∧
    ¬ (sevens 1000 (2 ^ 64 - 1)).Exact id (fun _ => True) (2 ^ 64 - 100) 200
      (salvage64 (readSevens 1000 (2 ^ 64 - 1)) id (2 ^ 64 - 100) 200 ()).1 := by
  refine ⟨sevens_addressed (by decide) (by decide), readSevens_answers _ _, ?_⟩
  have hrun : (salvage64 (readSevens 1000 (2 ^ 64 - 1)) id (2 ^ 64 - 100) 200 ()).1 =
      .ok (List.replicate 100 0 ++ List.replicate 100 7, [(0, 100)]) := by
    decide +kernel
  rw [hrun]
  intro h
  have hsame := h.same 100 (by decide)
    ((sevens_addressed (by decide) (by decide)).past (by decide)).1
  exact absurd hsame (by decide)

end Source
end ZvolRescue
