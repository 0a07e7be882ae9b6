import ZvolRescue.Extract.Visited
import ZvolRescue.Zio.Salvage
import ZvolRescue.Zio.Soundness

/-!
# What an extraction accounts for

Every block that an extraction visits is counted once, what could not be read is named in
order, and the digests are those of an image with zeros there and in the holes, exactly when
the highest block id can be counted past (`extraction_accounted_iff`).
-/

namespace ZvolRescue
namespace Extract

open Lib Ondisk Source Zio Dmu

/-- The reader of a pool. -/
def poolReader {ω : Type} (r : SalvageReader ω) : PoolReader (StateM (ReaderState ω)) :=
  { readBlock := fun bp => r.reader.readBlock bp false
    verify := fun bp raw => r.pool.verify r.reader.io bp raw
    salvageDva := r.salvageDva }

/-- `extract_hashing`: from the first block on, without an interrupt. -/
def extractHashing {m : Type → Type} [Monad m] {τ : Type} (hashes : ImageHashes)
    (obj : ObjectReader m) (volsize : Nat) (sink : BlockSink τ) (onError : OnError) (extra : Extra)
    (s : τ) : m (Except ReadError Report × Run τ) :=
  extractFrom hashes obj volsize sink onError 0 (Digests.new extra) (fun _ => false) s

/-! ## Ranges are named as the salvage found them -/

/-- The ranges of a block that was read in part are in order, apart, not empty, and zeros. -/
def BlockRead.Named : BlockRead → Prop
  | .partly bytes ranges _ => Zio.Named (bytes, ranges)
  | _ => True

section Reading

variable {σ : Type} {reader : PoolReader (StateM σ)}

/-- What a reader salvages it names. -/
def NamesLost (reader : PoolReader (StateM σ)) : Prop :=
  ∀ dva psize, Keeps (fun _ => True) (reader.salvageDva dva psize)
    (fun found => ∀ s, found = .ok s → Zio.Named s)

theorem bestSalvage_named (h : NamesLost reader) (psize : Nat) (dvas : List Dva) :
    ∀ best : Option Salvage, (∀ b, best = some b → Zio.Named b) →
      Keeps (fun _ => True) (bestSalvage reader psize best dvas)
        (fun found => ∀ s, found = some s → Zio.Named s) := by
  induction dvas with
  | nil =>
    intro best hbest
    exact Keeps.pure hbest
  | cons dva rest ih =>
    intro best hbest
    rw [bestSalvage]
    apply Keeps.bind (h dva psize)
    intro result hresult
    cases result with
    | error e => exact ih best hbest
    | ok found =>
      have hchosen : ∀ better : Bool, ∀ b, (if better then some found else best) = some b →
          Zio.Named b := by
        intro better b hb
        cases better with
        | true =>
          cases hb
          exact hresult found rfl
        | false => exact hbest b hb
      simp only
      by_cases hwhole : lostBytes found.2 = 0
      · rw [if_pos hwhole]
        exact Keeps.pure (hchosen _)
      · rw [if_neg hwhole]
        exact ih _ (hchosen _)

theorem salvage_named (h : NamesLost reader) (bp : BlkPtr) (e : ReadError) :
    Keeps (fun _ => True) (salvage reader bp e) (fun found =>
      ∀ data ranges, found = some (.partly data ranges) → Zio.Named (data, ranges)) := by
  have hnone : Keeps (fun _ : σ => True) (pure none) (fun found : Option Salvaged =>
      ∀ data ranges, found = some (.partly data ranges) → Zio.Named (data, ranges)) := by
    apply Keeps.pure
    intro data ranges heq
    cases heq
  cases e with
  | io what =>
    rw [salvage]
    split
    · exact hnone
    apply Keeps.bind (bestSalvage_named h bp.psize bp.dvas none (fun b hb => by cases hb))
    intro found hfound
    match found, hfound with
    | none, _ => exact hnone
    | some (data, []), _ =>
      apply Keeps.bind (m := reader.verify bp data) Keeps.anything
      intro v _
      apply Keeps.pure
      intro data' ranges heq
      by_cases hv : v = .ok
      · rw [if_pos hv] at heq
        cases heq
      · rw [if_neg hv] at heq
        cases heq
    | some (data, bad :: rest), hfound =>
      apply Keeps.pure
      intro data' ranges heq
      cases heq
      exact hfound _ rfl
  | _ => exact hnone

theorem readFailed_named (h : NamesLost reader) (bp : Option BlkPtr) (e : ReadError) :
    Keeps (fun _ => True) (readFailed reader bp e) BlockRead.Named := by
  cases bp with
  | none => exact Keeps.pure True.intro
  | some bp =>
    show Keeps _ (salvage reader bp e >>= _) _
    apply Keeps.bind (salvage_named h bp e)
    intro found hfound
    match found, hfound with
    | some (.whole data), _ => exact Keeps.pure True.intro
    | some (.partly data ranges), hfound => exact Keeps.pure (hfound data ranges rfl)
    | none, _ =>
      cases e with
      | io what =>
        show Keeps _ (whyNotSalvaged reader bp >>= _) _
        apply Keeps.bind Keeps.anything
        intro why _
        exact Keeps.pure True.intro
      | _ => exact Keeps.pure True.intro

/-- Whatever a block gives, what is lost of it is named. -/
theorem readVolumeBlock_named (h : NamesLost reader) (dnode : DnodePhys) (endian : Endian)
    (onError : OnError) (b : Nat) :
    Keeps (fun _ => True) (readVolumeBlock { reader, dnode, endian } onError b)
      BlockRead.Named := by
  have hfailed : ∀ (bp : Option BlkPtr) (e : ReadError), Keeps (fun _ => True)
      (if onError = .abort then (pure (.stopped e.text false) : StateM σ BlockRead)
        else readFailed reader bp e) BlockRead.Named := by
    intro bp e
    by_cases habort : onError = .abort
    · rw [if_pos habort]
      exact Keeps.pure True.intro
    · rw [if_neg habort]
      exact readFailed_named h bp e
  rw [readVolumeBlock]
  apply Keeps.bind Keeps.anything
  intro located _
  rcases located with e | _ | bp
  -- What follows the read does not depend on where the pointer came from.
  all_goals
    apply Keeps.bind Keeps.anything
    intro result _
    cases result with
    | ok data => cases data <;> exact Keeps.pure True.intro
    | error e =>
      cases e with
      | medium stop what =>
        cases stop with
        | true => exact Keeps.pure True.intro
        | false => exact hfailed _ _
      | _ => exact hfailed _ _

end Reading

/-! ## Bad ranges -/

theorem clipRanges_mem {take : Nat} {ranges : List (Nat × Nat)} {q : Nat × Nat}
    (h : q ∈ clipRanges take ranges) :
    ∃ p ∈ ranges, q.1 = p.1 ∧ q.2 = min p.2 (take - p.1) ∧ p.1 < take := by
  induction ranges with
  | nil => cases h
  | cons p rest ih =>
    obtain ⟨start, len⟩ := p
    rw [clipRanges] at h
    by_cases hstart : start ≥ take
    · rw [if_pos hstart] at h
      cases h
    · rw [if_neg hstart] at h
      rcases List.mem_cons.mp h with rfl | h
      · exact ⟨(start, len), List.mem_cons_self, rfl, rfl, by simp only; omega⟩
      · obtain ⟨p, hp, hq⟩ := ih h
        exact ⟨p, List.mem_cons_of_mem _ hp, hq⟩

theorem clipRanges_pairwise {take : Nat} {ranges : List (Nat × Nat)}
    (h : ranges.Pairwise (fun p q => p.1 + p.2 ≤ q.1)) :
    (clipRanges take ranges).Pairwise (fun p q => p.1 + p.2 ≤ q.1) := by
  induction ranges with
  | nil => exact List.Pairwise.nil
  | cons p rest ih =>
    obtain ⟨start, len⟩ := p
    obtain ⟨hfirst, hrest⟩ := List.pairwise_cons.mp h
    rw [clipRanges]
    by_cases hstart : start ≥ take
    · rw [if_pos hstart]
      exact List.Pairwise.nil
    · rw [if_neg hstart]
      refine List.pairwise_cons.mpr ⟨?_, ih hrest⟩
      intro q hq
      obtain ⟨p, hp, hoffset, -⟩ := clipRanges_mem hq
      have hle := hfirst p hp
      simp only at hle ⊢
      omega

/-- The bad ranges of a block lie in it, in order, and the block is zeros there. -/
structure BadIn (bs vol : Nat) (reads : Nat → BlockRead) (b : Nat) : Prop where
  ascending : (badOf bs vol reads b).Pairwise (fun x y => x.offset + x.len ≤ y.offset)
  inside : ∀ x ∈ badOf bs vol reads b, 0 < x.len ∧ b * bs ≤ x.offset ∧
    x.offset + x.len ≤ b * bs + blockLen bs vol b
  zeroed : ∀ x ∈ badOf bs vol reads b, ∀ i, x.offset ≤ i → i < x.offset + x.len →
    (content bs vol reads b).getD (i - b * bs) 0 = 0

/-- A bad range that covers a byte is one of the byte's block. -/
theorem BadIn.div_eq {bs vol : Nat} {reads : Nat → BlockRead} {b i : Nat}
    (h : BadIn bs vol reads b) {x : BadRange} (hx : x ∈ badOf bs vol reads b) (hlow : x.offset ≤ i)
    (hhigh : i < x.offset + x.len) : i / bs = b := by
  obtain ⟨-, hstart, hend⟩ := h.inside x hx
  have hle : blockLen bs vol b ≤ bs := Nat.min_le_left _ _
  apply Nat.div_eq_of_lt_le
  · omega
  · rw [Nat.add_mul, Nat.one_mul]
    omega

theorem zeros_getD (n i : Nat) : (zeros n).getD i 0 = 0 := allZero_getD (allZero_replicate n) i

/-- A range that is the whole block. -/
theorem badIn_whole {bs vol : Nat} {reads : Nat → BlockRead} {b : Nat} {reason : String}
    (hlen : 0 < blockLen bs vol b)
    (hbad : badOf bs vol reads b = [⟨b * bs, blockLen bs vol b, b, reason⟩])
    (hcontent : content bs vol reads b = zeros (blockLen bs vol b)) : BadIn bs vol reads b where
  ascending := by
    rw [hbad]
    exact List.pairwise_singleton _ _
  inside := by
    intro x hx
    rw [hbad, List.mem_singleton] at hx
    rw [hx]
    exact ⟨hlen, Nat.le_refl _, Nat.le_refl _⟩
  zeroed := by
    intro x _ i _ _
    rw [hcontent, zeros_getD]

theorem badIn_none {bs vol : Nat} {reads : Nat → BlockRead} {b : Nat}
    (hbad : badOf bs vol reads b = []) : BadIn bs vol reads b where
  ascending := hbad ▸ List.Pairwise.nil
  inside := fun x hx => by
    rw [hbad] at hx
    cases hx
  zeroed := fun x hx => by
    rw [hbad] at hx
    cases hx

/-- The bytes of a block that was read, as far as they lie in the volume. -/
theorem take_setLen_getD (bytes : List UInt8) {bs len i : Nat} (hlen : len ≤ bs) (hi : i < len) :
    ((setLen bytes bs).take len).getD i 0 = bytes.getD i 0 := by
  rw [List.getD_eq_getElem?_getD, List.getElem?_take, if_pos hi, ← List.getD_eq_getElem?_getD,
    setLen_getD _ (by omega)]

theorem badIn_of_named {bs vol : Nat} {reads : Nat → BlockRead} {b : Nat} (hbs : 0 < bs)
    (hin : b * bs < vol) (hnamed : (reads b).Named) : BadIn bs vol reads b := by
  have hlen : 0 < blockLen bs vol b := Nat.lt_min.mpr ⟨hbs, by omega⟩
  have hle : blockLen bs vol b ≤ bs := Nat.min_le_left _ _
  cases hread : reads b with
  | hole => exact badIn_none (by simp [badOf, hread, BlockRead.badRanges])
  | data bytes => exact badIn_none (by simp [badOf, hread, BlockRead.badRanges])
  | lost reason =>
    exact badIn_whole hlen (by rw [badOf, hread]; rfl) (by rw [content, hread]; rfl)
  | stopped reason medium =>
    exact badIn_whole hlen (by rw [badOf, hread]; rfl) (by rw [content, hread]; rfl)
  | partly bytes ranges reason =>
    rw [hread] at hnamed
    obtain ⟨size, hmarked⟩ := hnamed
    have hbad : badOf bs vol reads b = (clipRanges (blockLen bs vol b) ranges).map
        (fun p => { offset := b * bs + p.1, len := p.2, blkid := b, reason }) := by
      rw [badOf, hread]
      rfl
    have hcontent : content bs vol reads b = (setLen bytes bs).take (blockLen bs vol b) := by
      rw [content, hread]
      rfl
    refine
      { ascending := ?_
        inside := ?_
        zeroed := ?_ }
    · rw [hbad, List.pairwise_map]
      refine (clipRanges_pairwise hmarked.ascending).imp ?_
      intro p q hpq
      simp only
      omega
    · intro x hx
      rw [hbad] at hx
      obtain ⟨q, hq, rfl⟩ := List.mem_map.mp hx
      obtain ⟨p, hp, hoffset, hsize, hlt⟩ := clipRanges_mem hq
      have hpos := (hmarked.inside p hp).1
      simp only
      omega
    · intro x hx i hlow hhigh
      rw [hbad] at hx
      obtain ⟨q, hq, rfl⟩ := List.mem_map.mp hx
      obtain ⟨p, hp, hoffset, hsize, hlt⟩ := clipRanges_mem hq
      simp only at hlow hhigh
      have hzero := hmarked.zeroed p hp (i - b * bs) (by omega) (by omega)
      simp only at hzero
      rw [hcontent, take_setLen_getD bytes hle (by omega), List.getD_eq_getElem?_getD, hzero]
      rfl

section Ranges

variable {bs vol n : Nat} {reads : Nat → BlockRead}

/-- The bad ranges of the first blocks, in order and inside the volume. -/
theorem badOf_ascending (h : ∀ b, b < n → BadIn bs vol reads b) :
    ((List.range' 0 n).flatMap (badOf bs vol reads)).Pairwise
      (fun x y => x.offset + x.len ≤ y.offset) := by
  have hmem : ∀ b, b ∈ List.range' 0 n → b < n := by
    intro b hb
    have := (List.mem_range'_1.mp hb).2
    omega
  rw [List.pairwise_flatMap]
  refine ⟨fun b hb => (h b (hmem b hb)).ascending, ?_⟩
  refine (List.pairwise_lt_range' (s := 0) (n := n)).imp_of_mem ?_
  intro b c hb hc hlt x hx y hy
  obtain ⟨-, -, hend⟩ := (h b (hmem b hb)).inside x hx
  obtain ⟨-, hstart, -⟩ := (h c (hmem c hc)).inside y hy
  have hle : blockLen bs vol b ≤ bs := Nat.min_le_left _ _
  have hnext : (b + 1) * bs ≤ c * bs := Nat.mul_le_mul_right bs hlt
  rw [Nat.add_mul, Nat.one_mul] at hnext
  omega

theorem badOf_inside (hin : ∀ b, b < n → b * bs < vol) (h : ∀ b, b < n → BadIn bs vol reads b) :
    ∀ x ∈ (List.range' 0 n).flatMap (badOf bs vol reads), 0 < x.len ∧ x.offset + x.len ≤ vol := by
  intro x hx
  obtain ⟨b, hb, hx⟩ := List.mem_flatMap.mp hx
  have hlt := (List.mem_range'_1.mp hb).2
  rw [Nat.zero_add] at hlt
  obtain ⟨hpos, -, hend⟩ := (h b hlt).inside x hx
  have hstart := hin b hlt
  have hle : blockLen bs vol b ≤ vol - b * bs := Nat.min_le_right _ _
  exact ⟨hpos, by omega⟩

end Ranges

/-! ## Counters -/

/-- The blocks that a report counts. -/
def Report.blocksVisited (r : Report) : Nat :=
  r.blocksRead + r.blocksHoles + r.blocksZeroed + r.blocksSalvaged

/-- The blocks among the counters. -/
def blocksIn (c : Nat × Nat × Nat × Nat × Nat) : Nat := c.1 + c.2.1 + c.2.2.1 + c.2.2.2.1

theorem blocksIn_add (c d : Nat × Nat × Nat × Nat × Nat) :
    blocksIn (c + d) = blocksIn c + blocksIn d := by
  simp only [blocksIn, Prod.fst_add, Prod.snd_add]
  omega

theorem blocksIn_counts (len : Nat) {read : BlockRead} (h : read.stops = false) :
    blocksIn (read.counts len) = 1 := by
  cases read with
  | stopped reason medium => cases h
  | _ => rfl

/-- Every block is counted once. -/
theorem blocksIn_countsOf {bs vol : Nat} {reads : Nat → BlockRead} (start n : Nat)
    (h : ∀ i, i < n → (reads (start + i)).stops = false) :
    blocksIn (countsOf bs vol reads start n) = n := by
  induction n with
  | zero => rfl
  | succ n ih =>
    have hlast : countsOf bs vol reads (start + n) 1 =
        (reads (start + n)).counts (blockLen bs vol (start + n)) := by
      simp [countsOf]
    rw [countsOf_add, blocksIn_add, ih (fun i hi => h i (by omega)), hlast,
      blocksIn_counts _ (h n (by omega))]

/-! ## The image by its blocks -/

/-- Byte `i` of the volume as its block gives it: zero in a hole, in a block that could not be
read, and past the last block. -/
def blockByte (d : DnodePhys) (reads : Nat → BlockRead) (i : Nat) : UInt8 :=
  if d.maxblkid < i / d.datablksz then 0
  else match reads (i / d.datablksz) with
    | .data b => b.getD (i % d.datablksz) 0
    | .partly b _ _ => b.getD (i % d.datablksz) 0
    | _ => 0

/-- The image with zeros in every bad range. -/
def accountedImage (d : DnodePhys) (vol : Nat) (reads : Nat → BlockRead) (bad : List BadRange) :
    List UInt8 :=
  (List.range vol).map (fun i =>
    if ∃ x ∈ bad, x.offset ≤ i ∧ i < x.offset + x.len then 0 else blockByte d reads i)

theorem accountedImage_length (d : DnodePhys) (vol : Nat) (reads : Nat → BlockRead)
    (bad : List BadRange) : (accountedImage d vol reads bad).length = vol := by
  rw [accountedImage, List.length_map, List.length_range]

theorem accountedImage_getD (d : DnodePhys) {vol i : Nat} (reads : Nat → BlockRead)
    (bad : List BadRange) (hi : i < vol) : (accountedImage d vol reads bad).getD i 0 =
      if ∃ x ∈ bad, x.offset ≤ i ∧ i < x.offset + x.len then 0 else blockByte d reads i := by
  rw [List.getD_eq_getElem?_getD, accountedImage, List.getElem?_map, List.getElem?_range hi]
  rfl

section Bytes

variable {d : DnodePhys} {vol : Nat} {reads : Nat → BlockRead}

/-- A byte of the image is its block's. -/
theorem content_getD {i : Nat} (hpos : 0 < d.datablksz) (hi : i < vol)
    (hlast : i / d.datablksz ≤ d.maxblkid) :
    (content d.datablksz vol reads (i / d.datablksz)).getD (i % d.datablksz) 0 =
      blockByte d reads i := by
  have hdiv := Nat.div_add_mod i d.datablksz
  have hmod := Nat.mod_lt i hpos
  rw [Nat.mul_comm] at hdiv
  have hlen : i % d.datablksz < blockLen d.datablksz vol (i / d.datablksz) :=
    Nat.lt_min.mpr ⟨hmod, by omega⟩
  have hle : blockLen d.datablksz vol (i / d.datablksz) ≤ d.datablksz := Nat.min_le_left _ _
  rw [blockByte, if_neg (Nat.not_lt.mpr hlast), content]
  cases reads (i / d.datablksz) with
  | data b => exact take_setLen_getD b hle hlen
  | partly b ranges reason => exact take_setLen_getD b hle hlen
  | _ => exact zeros_getD _ _

/-- The bytes of the first `n` blocks and zeros after them. -/
def wholeImage (bs vol : Nat) (reads : Nat → BlockRead) (n : Nat) : List UInt8 :=
  image (content bs vol reads) 0 n ++ zeros (vol - min (n * bs) vol)

theorem wholeImage_zero {bs : Nat} : wholeImage bs vol reads 0 = zeros vol := by
  simp [wholeImage, image]

theorem wholeImage_length {bs : Nat} (n : Nat) : (wholeImage bs vol reads n).length = vol := by
  have hstart : 0 * bs ≤ vol := by omega
  have h := image_length (content_cut bs vol reads) hstart n
  rw [Nat.zero_add, Nat.zero_mul] at h
  rw [wholeImage, List.length_append, h, zeros, List.length_replicate]
  omega

theorem wholeImage_getD {bs i n : Nat} (hpos : 0 < bs) (hi : i < vol) :
    (wholeImage bs vol reads n).getD i 0 =
      if i / bs < n then (content bs vol reads (i / bs)).getD (i % bs) 0 else 0 := by
  have hstart : 0 * bs ≤ vol := by omega
  have hlen := image_length (content_cut bs vol reads) hstart n
  rw [Nat.zero_add, Nat.zero_mul] at hlen
  have hblock : i / bs < n ↔ i < n * bs := Nat.div_lt_iff_lt_mul hpos
  rw [wholeImage, List.getD_eq_getElem?_getD]
  by_cases hin : i / bs < n
  · rw [List.getElem?_append_left (by omega), ← List.getD_eq_getElem?_getD, if_pos hin]
    have hhigh : i < (0 + n) * bs := by
      rw [Nat.zero_add]
      exact hblock.mp hin
    have h := image_getD (content_cut bs vol reads) hstart (show 0 * bs ≤ i by omega) hhigh hi
    rwa [Nat.zero_mul, Nat.sub_zero] at h
  · rw [List.getElem?_append_right (by omega), ← List.getD_eq_getElem?_getD, zeros_getD,
      if_neg hin]

end Bytes

/-- The image is the blocks' bytes but for the bad ranges, where the number of blocks is one
more than the highest block id. -/
theorem wholeImage_eq_accounted {d : DnodePhys} {vol : Nat} {reads : Nat → BlockRead}
    (hpos : 0 < d.datablksz) (hlast : d.maxblkid + 1 < word)
    (hbad : ∀ b, b < blocksTotal d vol → BadIn d.datablksz vol reads b) :
    wholeImage d.datablksz vol reads (blocksTotal d vol) = accountedImage d vol reads
      ((List.range' 0 (blocksTotal d vol)).flatMap (badOf d.datablksz vol reads)) := by
  have hblocks : ∀ i, i < vol → (i / d.datablksz < blocksTotal d vol ↔
      i / d.datablksz ≤ d.maxblkid) := by
    intro i hi
    have hdiv : i / d.datablksz < divCeil vol d.datablksz := by
      rw [lt_divCeil_iff hpos]
      have := Nat.div_mul_le_self i d.datablksz
      omega
    rw [blocksTotal, add64_of_lt hlast, Nat.lt_min]
    omega
  refine (eq_iff_getD ?_).mpr ?_
  · rw [wholeImage_length, accountedImage_length]
  intro i hi
  rw [wholeImage_length] at hi
  rw [wholeImage_getD hpos hi, accountedImage_getD d reads _ hi]
  by_cases hin : i / d.datablksz < blocksTotal d vol
  · rw [if_pos hin]
    split
    · obtain ⟨x, hx, hlow, hhigh⟩ := ‹∃ x ∈ _, _›
      obtain ⟨b, hb, hx⟩ := List.mem_flatMap.mp hx
      have hb := (List.mem_range'_1.mp hb).2
      rw [Nat.zero_add] at hb
      have hsame := (hbad b hb).div_eq hx hlow hhigh
      have hzero := (hbad b hb).zeroed x hx i hlow hhigh
      have hmod : i % d.datablksz = i - b * d.datablksz := by
        have := Nat.div_add_mod i d.datablksz
        rw [hsame, Nat.mul_comm] at this
        omega
      rw [hsame, hmod, hzero]
    · exact content_getD hpos hi ((hblocks i hi).mp hin)
  · have hpast : blockByte d reads i = 0 := by
      have hnot : ¬ i / d.datablksz ≤ d.maxblkid := fun h => hin ((hblocks i hi).mpr h)
      rw [blockByte, if_pos (by omega)]
    rw [if_neg hin, hpast, ite_self]

/-- An image in which nothing is bad and every block is zeros. -/
theorem accountedImage_eq_zeros_iff (d : DnodePhys) (vol : Nat) (reads : Nat → BlockRead) :
    accountedImage d vol reads [] = zeros vol ↔ ∀ i, i < vol → blockByte d reads i = 0 := by
  have hlen : (accountedImage d vol reads []).length = (zeros vol).length := by
    rw [accountedImage_length, zeros, List.length_replicate]
  have hbyte : ∀ i, i < vol → (accountedImage d vol reads []).getD i 0 = blockByte d reads i := by
    intro i hi
    rw [accountedImage_getD d reads [] hi]
    simp
  rw [eq_iff_getD hlen, accountedImage_length]
  constructor
  · intro h i hi
    rw [← hbyte i hi, h i hi, zeros_getD]
  · intro h i hi
    rw [hbyte i hi, h i hi, zeros_getD]

/-! ## What an extraction accounts for -/

/-- What the report of an extraction says of the blocks, whose bytes `reads` has. -/
structure Accounted (hashes : ImageHashes) (extra : Extra) (d : DnodePhys) (vol : Nat)
    (reads : Nat → BlockRead) (report : Report) (run : Run SparseFile) : Prop where
  /-- `progress` is called once for each block. -/
  visited : report.blocksVisited = run.calls.length
  every : report.aborted = false → report.blocksVisited = report.blocksTotal
  ascending : report.bad.Pairwise (fun x y => x.offset + x.len ≤ y.offset)
  inside : ∀ x ∈ report.bad, 0 < x.len ∧ x.offset + x.len ≤ vol
  digests : report.aborted = false →
    digestsOf hashes extra (accountedImage d vol reads report.bad) =
      { sha256 := report.sha256, sha1 := report.sha1, md5 := report.md5 }

section Extraction

variable {ω : Type}

/-- The object under a dnode of a pool. -/
def poolObject (r : SalvageReader ω) (d : DnodePhys) (endian : Endian) :
    ObjectReader (StateM (ReaderState ω)) :=
  { reader := poolReader r, dnode := d, endian }

/-- What the blocks of a volume give, read in order. -/
def volumeReads (r : SalvageReader ω) (d : DnodePhys) (endian : Endian) (onError : OnError)
    (s : ReaderState ω) : Nat → BlockRead :=
  readsFrom (readVolumeBlock (poolObject r d endian) onError) 0 s

/-- Every extraction of the volume from the first block on accounts for its blocks. -/
def AccountsForAll (r : SalvageReader ω) (d : DnodePhys) (endian : Endian) (vol : Nat)
    (onError : OnError) (extra : Extra) (s : ReaderState ω) : Prop :=
  ∀ (hashes : ImageHashes) (report : Report) (run : Run SparseFile),
    (extractHashing hashes (poolObject r d endian) vol SparseFile.sink onError extra
      SparseFile.create s).1 = (.ok report, run) →
    Accounted hashes extra d vol (volumeReads r d endian onError s) report run

theorem volumeReads_named (r : SalvageReader ω) (d : DnodePhys) (endian : Endian)
    (onError : OnError) (s : ReaderState ω) (b : Nat) :
    (volumeReads r d endian onError s b).Named :=
  have hreader : NamesLost (poolReader r) := r.salvageDva_named
  (readVolumeBlock_named hreader d endian onError b _ True.intro).1

/-- An extraction from the first block on that nothing interrupts, by the blocks it took in. -/
theorem extractHashing_extracted (hashes : ImageHashes) (r : SalvageReader ω) (d : DnodePhys)
    (endian : Endian) {vol : Nat} (hvol : vol < word) (hbs : d.datablksz ≠ 0) (onError : OnError)
    (extra : Extra) (s : ReaderState ω) :
    ∃ report run n ending, (extractHashing hashes (poolObject r d endian) vol SparseFile.sink onError
        extra SparseFile.create s).1 = (.ok report, run) ∧
      Extracted hashes (volumeReads r d endian onError s) never d.datablksz vol (blocksTotal d vol) 0
        (Digests.new extra) [] n ending report run := by
  have hzero : 0 * (poolObject r d endian).dnode.datablksz ≤ vol := by
    rw [Nat.zero_mul]
    exact Nat.zero_le _
  obtain ⟨report, run, hrun, hex⟩ := extractFrom_extracted hashes (poolObject r d endian) hvol hbs
    onError hzero (Digests.new extra) never SparseFile.create s (fun _ _ => rfl)
  exact ⟨report, run, _, _, hrun, hex⟩

/-- The blocks whose bad ranges are reported: those taken in, and the one that stopped it. -/
theorem bad_eq {hashes : ImageHashes} {reads : Nat → BlockRead} {bs vol total n : Nat}
    {digests : Digests} {file : List UInt8} {ending : Ending} {report : Report}
    {run : Run SparseFile}
    (h : Extracted hashes reads never bs vol total 0 digests file n ending report run) :
    ∃ k, k ≤ total ∧ report.bad = (List.range' 0 k).flatMap (badOf bs vol reads) := by
  have hle := h.ends.le
  rw [h.bad]
  by_cases hend : ending = .stopped
  · obtain ⟨hlt, -, -⟩ := h.ends.stopped hend
    refine ⟨n + 1, by omega, ?_⟩
    rw [if_pos hend, List.range'_concat, List.flatMap_append, Nat.one_mul]
    simp
  · refine ⟨n, by omega, ?_⟩
    rw [if_neg hend, List.append_nil]

/-- The bytes hashed by an extraction that runs to its end. -/
theorem wholeImage_hashed {hashes : ImageHashes} {reads : Nat → BlockRead} {bs vol total : Nat}
    {extra : Extra} {n : Nat} {ending : Ending} {report : Report} {run : Run SparseFile}
    (h : Extracted hashes reads never bs vol total 0 (Digests.new extra) [] n ending report run)
    (haborted : report.aborted = false) :
    n = total ∧ digestsOf hashes extra (wholeImage bs vol reads total) =
      { sha256 := report.sha256, sha1 := report.sha1, md5 := report.md5 } := by
  obtain ⟨hend, hn⟩ := h.ends.complete_of_never (by
    intro hend
    rw [h.aborted, hend] at haborted
    cases haborted)
  rw [Nat.sub_zero] at hn
  refine ⟨hn, ?_⟩
  rw [← h.hashed, h.digests, hn, hend, Nat.zero_add]
  rfl

/-- One more than the highest id there can be wraps to none. -/
theorem blocksTotal_wrapped {d : DnodePhys} {vol : Nat} (h : d.maxblkid + 1 = word) :
    blocksTotal d vol = 0 := by
  rw [blocksTotal, add64, h, Nat.mod_self, Nat.zero_min]

/-- An extraction that visits no block accounts for zeros only. -/
theorem zeros_of_accountsForAll (r : SalvageReader ω) {d : DnodePhys} (endian : Endian) {vol : Nat}
    (hvol : vol < word) (onError : OnError) (extra : Extra) (s : ReaderState ω)
    (hbs : d.datablksz ≠ 0) (hnone : blocksTotal d vol = 0)
    (h : AccountsForAll r d endian vol onError extra s) :
    ∀ i, i < vol → blockByte d (volumeReads r d endian onError s) i = 0 := by
  obtain ⟨report, run, n, ending, hrun, hex⟩ :=
    extractHashing_extracted someHashes r d endian hvol hbs onError extra s
  have hacc := h someHashes report run hrun
  rw [hnone] at hex
  have hn : n = 0 := Nat.le_zero.mp hex.ends.le
  have hend : ending = .complete := hex.ends.complete_of_le (Nat.zero_le n)
  rw [hn, hend] at hex
  have haborted : report.aborted = false := hex.aborted
  have hbad : report.bad = [] := hex.bad
  have hdigests := hacc.digests haborted
  rw [← (wholeImage_hashed hex haborted).2, wholeImage_zero, hbad] at hdigests
  exact (accountedImage_eq_zeros_iff _ _ _).mp (hexBytes_inj (congrArg DigestSet.sha256 hdigests))

/-- An extraction accounts for every block and every byte if and only if the highest block id
can be counted past, or there is nothing but zeros to be lost. -/
theorem extraction_accounted_iff (r : SalvageReader ω) {d : DnodePhys} (hd : d.Sized)
    (endian : Endian) {vol : Nat} (hvol : vol < word) (onError : OnError) (extra : Extra)
    (s : ReaderState ω) :
    AccountsForAll r d endian vol onError extra s ↔
      d.datablksz = 0 ∨ d.maxblkid + 1 < word ∨
        ∀ i, i < vol → blockByte d (volumeReads r d endian onError s) i = 0 := by
  by_cases hbs : d.datablksz = 0
  · refine ⟨fun _ => Or.inl hbs, fun _ hashes report run hrun => ?_⟩
    have hzero : (poolObject r d endian).dnode.datablksz = 0 := hbs
    simp only [extractHashing, extractFrom, if_pos hzero] at hrun
    cases congrArg Prod.fst hrun
  have hpos := Nat.pos_of_ne_zero hbs
  have hwrapped : ¬ d.maxblkid + 1 < word → blocksTotal d vol = 0 := by
    intro hlast
    have hmax := hd.maxblkid
    exact blocksTotal_wrapped (by omega)
  constructor
  · intro h
    refine Or.inr (or_iff_not_imp_left.mpr ?_)
    intro hlast
    exact zeros_of_accountsForAll r endian hvol onError extra s hbs (hwrapped hlast) h
  · intro h hashes report run hrun
    obtain ⟨_, _, n, ending, hrun', hex⟩ :=
      extractHashing_extracted hashes r d endian hvol hbs onError extra s
    rw [hrun] at hrun'
    cases hrun'
    have hbadIn : ∀ b, b < blocksTotal d vol →
        BadIn d.datablksz vol (volumeReads r d endian onError s) b := by
      intro b hb
      exact badIn_of_named hpos (mul_lt_of_lt_divCeil hpos
        (Nat.lt_of_lt_of_le hb (Nat.min_le_right _ _))) (volumeReads_named r d endian onError s b)
    have hvisited : report.blocksVisited = n :=
      (congrArg blocksIn hex.counters).trans
        (blocksIn_countsOf 0 n (fun i hi => (hex.ends.goesOn i hi).2))
    obtain ⟨k, hk, hbad⟩ := bad_eq hex
    refine
      { visited := ?_
        every := ?_
        ascending := ?_
        inside := ?_
        digests := ?_ }
    · rw [hvisited, hex.calls, List.length_map, List.length_range']
    · intro haborted
      rw [hvisited, hex.blocksTotal]
      exact (wholeImage_hashed hex haborted).1
    · rw [hbad]
      exact badOf_ascending (fun b hb => hbadIn b (by omega))
    · rw [hbad]
      exact badOf_inside (fun b hb => mul_lt_of_lt_divCeil hpos
        (Nat.lt_of_lt_of_le hb (Nat.le_trans hk (Nat.min_le_right _ _))))
        (fun b hb => hbadIn b (by omega))
    · intro haborted
      obtain ⟨hn, hdigests⟩ := wholeImage_hashed hex haborted
      have hall : report.bad = (List.range' 0 (blocksTotal d vol)).flatMap
          (badOf d.datablksz vol (volumeReads r d endian onError s)) := by
        have hbad := hex.bad
        rwa [if_neg (by
          intro hend
          rw [hex.aborted, hend] at haborted
          cases haborted), List.append_nil, hn] at hbad
      rw [← hdigests, hall]
      refine congrArg (digestsOf hashes extra) (Eq.symm ?_)
      by_cases hlast : d.maxblkid + 1 < word
      · exact wholeImage_eq_accounted hpos hlast hbadIn
      · rw [hwrapped hlast, wholeImage_zero]
        exact ((accountedImage_eq_zeros_iff _ _ _).mpr
          ((h.resolve_left hbs).resolve_left hlast)).symm

end Extraction

/-! ## A block of sevens in its pointer -/

/-- A dnode whose one pointer carries its block of 112 sevens. -/
def sevensDnode (maxblkid : List UInt8) : List UInt8 :=
  [23, 17, 1, 1, 0, 0, 0, 0, 1, 0, 0, 0, 0, 0, 0, 0] ++ maxblkid ++ List.replicate 40 0 ++
    List.replicate 48 7 ++ [111, 0, 0, 222, 130, 0, 0, 128] ++ List.replicate 72 7 ++
    List.replicate 320 0

/-- A pool that is read for nothing. -/
def emptyReader : SalvageReader Unit :=
  { sources := [], bases := [], pool := barePool (.leaf none 1) }

/-- What an extraction of the dnode starts from: its sizes, its highest block id and the first
byte of the volume. -/
def sevensFirst (maxblkid : List UInt8) : Option (Nat × Nat × UInt8) :=
  (DnodePhys.parse (sevensDnode maxblkid) .little).toOption.map (fun d =>
    (d.datablksz, d.maxblkid, blockByte d (volumeReads emptyReader d .little .zero startState) 0))

theorem sevensDnode_parse {maxblkid : List UInt8} {bs n : Nat} {first : UInt8}
    (h : sevensFirst maxblkid = some (bs, n, first)) :
    ∃ d, DnodePhys.parse (sevensDnode maxblkid) .little = .ok d ∧ d.datablksz = bs ∧
      d.maxblkid = n ∧ blockByte d (volumeReads emptyReader d .little .zero startState) 0 = first := by
  cases hparse : DnodePhys.parse (sevensDnode maxblkid) .little with
  | error e =>
    rw [sevensFirst, hparse] at h
    cases h
  | ok d =>
    rw [sevensFirst, hparse] at h
    simp only [Except.toOption, Option.map_some, Option.some.injEq, Prod.mk.injEq] at h
    exact ⟨d, rfl, h⟩

theorem extraction_accounted_iff_sevens :
    ∃ d, DnodePhys.parse (sevensDnode (List.replicate 8 0)) .little = .ok d ∧
      blockByte d (volumeReads emptyReader d .little .zero startState) 0 = 7 ∧
      AccountsForAll emptyReader d .little 512 .zero ⟨true, true⟩ startState := by
  obtain ⟨d, hd, -, hmax, hfirst⟩ := sevensDnode_parse
    (show sevensFirst (List.replicate 8 0) = some (512, 0, 7) by decide +kernel)
  refine ⟨d, hd, hfirst, (extraction_accounted_iff emptyReader (DnodePhys.parse_sized hd) .little
    (by decide) .zero ⟨true, true⟩ startState).mpr (Or.inr (Or.inl ?_))⟩
  rw [hmax]
  decide

/-- With the highest block id there can be the sevens are left out, and no range is bad. -/
theorem extraction_unaccounted :
    ¬ ∀ (buf : List UInt8) (endian : Endian) (d : DnodePhys) (vol : Nat),
      DnodePhys.parse buf endian = .ok d → vol < word →
      ∀ (ω : Type) (r : SalvageReader ω) (onError : OnError) (extra : Extra) (s : ReaderState ω),
        AccountsForAll r d endian vol onError extra s := by
  intro h
  obtain ⟨d, hd, hsize, hmax, hfirst⟩ := sevensDnode_parse
    (show sevensFirst (List.replicate 8 255) = some (512, word - 1, 7) by decide +kernel)
  have hvol : 512 < word := by decide
  have hbs : d.datablksz ≠ 0 := by
    rw [hsize]
    decide
  have hwrap : d.maxblkid + 1 = word := by
    rw [hmax]
    decide
  have hzero := zeros_of_accountsForAll emptyReader .little hvol .zero ⟨true, true⟩ startState hbs
    (blocksTotal_wrapped hwrap)
    (h _ .little d 512 hd hvol Unit emptyReader .zero ⟨true, true⟩ startState) 0 (by decide)
  rw [hfirst] at hzero
  cases hzero

end Extract
end ZvolRescue
