import ZvolRescue.Dmu.Range
import ZvolRescue.Files.Extract

/-!
# Copying a file

A file is copied block by block up to the size in its metadata, and what cannot be read is
written as zeros.  The size of the blocks and their number come from the dnode, which may not
agree with that size (`copies_truly_iff`).
-/

namespace ZvolRescue
namespace Files

open Lib Ondisk Dmu

/-- What may end a copy early, by the pieces that were written before. -/
structure Obstacles where
  /-- A signal has been seen. -/
  stop : Nat → Bool
  /-- Why the piece cannot be written. -/
  refuses : Nat → Option String

namespace Obstacles

def free : Obstacles := { stop := fun _ => false, refuses := fun _ => none }

end Obstacles

/-! ## The loop -/

section Loop

variable (obs : Obstacles) (obj : ObjectReader Id) (bs size : Nat) (strict : Bool)

/-- A block, or the zeros that stand for it, and the unreadable blocks up to there. -/
def chunkAt (blkid errors : Nat) : Except String (List UInt8 × Nat) :=
  match obj.readBlkid blkid with
  | .ok chunk => .ok (chunk, errors)
  | .error e =>
    if strict then .error s!"block {blkid}: {e.text}"
    else .ok (List.replicate bs 0, errors + 1)

/-- The rounds of a copy, after `n` pieces.  Every round writes a byte at least, or is the last. -/
def copyLoop : (rounds n : Nat) → (written : List UInt8) → (errors : Nat) →
    List UInt8 × Except String Nat
  | 0, _, written, errors => (written, .ok errors)
  | rounds + 1, n, written, errors =>
    if size ≤ written.length then (written, .ok errors)
    else if obs.stop n then
      (written, .error s!"interrupted after {written.length} of {size} bytes")
    else
      let want := min (size - written.length) bs
      match chunkAt obj bs strict (written.length / bs) errors with
      | .error e => (written, .error e)
      | .ok (chunk, errors) =>
        let piece := chunk.take want
        match obs.refuses n with
        | some e => (written, .error e)
        | none =>
          if piece = [] then (written, .ok errors)
          else copyLoop rounds (n + 1) (written ++ piece) errors

/-- Where nothing ends it early, the loop copies the blocks one after another. -/
theorem copyLoop_free (hbs : 0 < bs) : ∀ rounds n written errors,
    copyLoop .free obj bs size strict rounds n written errors =
      copyBlocks obj bs size strict rounds written errors := by
  intro rounds
  induction rounds with
  | zero => exact fun _ _ _ => rfl
  | succ rounds ih =>
    intro n written errors
    rw [copyLoop, copyBlocks]
    by_cases hdone : size ≤ written.length
    · rw [if_pos hdone, if_pos hdone]
    have hgo : ¬ Obstacles.free.stop n = true := Bool.false_ne_true
    have hput : Obstacles.free.refuses n = none := rfl
    rw [if_neg hdone, if_neg hdone, if_neg hgo]
    have hwant : 0 < min (size - written.length) bs := Nat.lt_min.mpr ⟨by omega, hbs⟩
    cases hread : obj.readBlkid (written.length / bs) with
    | ok chunk =>
      simp only [chunkAt, hread, hput, Id.run, ih]
    | error e =>
      cases strict with
      | true => simp only [chunkAt, hread, if_true, Id.run]
      | false =>
        have htake : (List.replicate bs (0 : UInt8)).take (min (size - written.length) bs) =
            List.replicate (min (size - written.length) bs) 0 := by
          rw [List.take_replicate, Nat.min_assoc, Nat.min_self]
        have hne : List.replicate (min (size - written.length) bs) (0 : UInt8) ≠ [] := by
          intro hnil
          rw [List.replicate_eq_nil_iff] at hnil
          omega
        simp only [chunkAt, hread, Bool.false_eq_true, if_false, hput, Id.run, htake,
          if_neg hne, ih]

/-! ## What a copy writes -/

/-- What is written of a block. -/
def chunk (b : Nat) : List UInt8 :=
  match obj.readBlkid b with
  | .ok data => data
  | .error _ => List.replicate bs 0

def unreadable (b : Nat) : Bool :=
  match obj.readBlkid b with
  | .ok _ => false
  | .error _ => true

/-- A copy that goes on past blocks it cannot read has written the first `k` blocks, and ended
behind the last byte or at a block of no bytes. -/
structure Copied (bytes : List UInt8) (errors k : Nat) : Prop where
  whole : ∀ b, b < k → (chunk obj bs b).length = bs
  visited : ∀ b, b < k → b * bs < size
  bytes : bytes = (image (chunk obj bs) 0 k).take size
  errors : errors = (List.range k).countP (unreadable obj)
  ended : size ≤ k * bs ∨ k * bs < size ∧ chunk obj bs k = []

variable {obs obj bs size}

theorem image_length_of_before {content : Nat → List UInt8} {k : Nat}
    (h : ∀ b, b < k → (content b).length = bs) : (image content 0 k).length = k * bs := by
  induction k with
  | zero => exact (Nat.zero_mul bs).symm
  | succ k ih =>
    rw [image_succ, List.length_append, ih (fun b hb => h b (by omega)), Nat.zero_add,
      h k (Nat.lt_succ_self k), Nat.succ_mul]

theorem chunkAt_eq (b errors : Nat) :
    chunkAt obj bs false b errors =
      .ok (chunk obj bs b, errors + if unreadable obj b then 1 else 0) := by
  unfold chunkAt chunk unreadable
  cases obj.readBlkid b with
  | ok data => rfl
  | error e => rfl

theorem unreadable_of_nil (hbs : 0 < bs) {b : Nat} (h : chunk obj bs b = []) :
    unreadable obj b = false := by
  unfold chunk at h
  unfold unreadable
  cases hread : obj.readBlkid b with
  | ok data => rfl
  | error e =>
    rw [hread] at h
    have hzero := (List.replicate_eq_nil_iff _).mp h
    omega

theorem copyLoop_ok (hbs : 0 < bs)
    (hchunk : ∀ b, chunk obj bs b = [] ∨ (chunk obj bs b).length = bs)
    {bytes : List UInt8} {total : Nat} :
    ∀ rounds n, size ≤ n + rounds → (∀ b, b < n → (chunk obj bs b).length = bs) →
      (∀ b, b < n → b * bs < size) →
      copyLoop obs obj bs size false rounds n ((image (chunk obj bs) 0 n).take size)
        ((List.range n).countP (unreadable obj)) = (bytes, .ok total) →
      ∃ k, Copied obj bs size bytes total k := by
  intro rounds
  induction rounds with
  | zero =>
    intro n hrounds hwhole hvisited h
    cases h
    have hle := Nat.le_mul_of_pos_right n hbs
    exact ⟨n, hwhole, hvisited, rfl, rfl, Or.inl (by omega)⟩
  | succ rounds ih =>
    intro n hrounds hwhole hvisited h
    have hlen := image_length_of_before hwhole
    rw [copyLoop] at h
    by_cases hdone : size ≤ ((image (chunk obj bs) 0 n).take size).length
    · rw [if_pos hdone] at h
      cases h
      rw [List.length_take, hlen] at hdone
      exact ⟨n, hwhole, hvisited, rfl, rfl, Or.inl (by omega)⟩
    rw [if_neg hdone] at h
    rw [List.length_take, hlen] at hdone
    have hlt : n * bs < size := by omega
    have hwritten : ((image (chunk obj bs) 0 n).take size).length = n * bs := by
      rw [List.length_take, hlen]
      omega
    split at h
    · cases h
    simp only [hwritten, Nat.mul_div_cancel n hbs, chunkAt_eq] at h
    split at h
    · cases h
    split at h
    · -- The block has no bytes, and it is not counted.
      rename_i hnil
      cases h
      have hempty : chunk obj bs n = [] := by
        rcases List.take_eq_nil_iff.mp hnil with hzero | hnil
        · omega
        · exact hnil
      have hread : unreadable obj n = false := unreadable_of_nil hbs hempty
      rw [hread, if_neg Bool.false_ne_true, Nat.add_zero]
      exact ⟨n, hwhole, hvisited, rfl, rfl, Or.inr ⟨hlt, hempty⟩⟩
    · rename_i hne
      have hsize : (chunk obj bs n).length = bs := by
        refine (hchunk n).resolve_left (fun hempty => hne ?_)
        rw [hempty, List.take_nil]
      have hpiece : (chunk obj bs n).take (min (size - n * bs) bs) =
          (chunk obj bs n).take (size - n * bs) := by
        rw [← List.take_take, List.take_of_length_le hsize.le]
      have htake : (image (chunk obj bs) 0 n).take size ++
          (chunk obj bs n).take (min (size - n * bs) bs) =
            (image (chunk obj bs) 0 (n + 1)).take size := by
        rw [hpiece, image_succ, List.take_append, hlen, Nat.zero_add]
      have hcount : (List.range n).countP (unreadable obj) +
          (if unreadable obj n = true then 1 else 0) =
            (List.range (n + 1)).countP (unreadable obj) := by
        rw [List.range_succ, List.countP_append, List.countP_singleton]
      rw [htake, hcount] at h
      refine ih (n + 1) (by omega) (fun b hb => ?_) (fun b hb => ?_) h
      · rcases Nat.lt_succ_iff_lt_or_eq.mp hb with hb | rfl
        · exact hwhole b hb
        · exact hsize
      · rcases Nat.lt_succ_iff_lt_or_eq.mp hb with hb | rfl
        · exact hvisited b hb
        · exact hlt

/-- Nothing else ends such a copy. -/
theorem copyLoop_free_ok : ∀ rounds n written errors, ∃ bytes total,
    copyLoop .free obj bs size false rounds n written errors = (bytes, .ok total) := by
  intro rounds
  induction rounds with
  | zero => exact fun _ written errors => ⟨written, errors, rfl⟩
  | succ rounds ih =>
    intro n written errors
    have hgo : ¬ Obstacles.free.stop n = true := Bool.false_ne_true
    have hput : Obstacles.free.refuses n = none := rfl
    rw [copyLoop, if_neg hgo]
    simp only [chunkAt_eq, hput]
    split
    · exact ⟨_, _, rfl⟩
    · split
      · exact ⟨_, _, rfl⟩
      · exact ih _ _ _

end Loop

/-- Copies one file's blocks out: what is written, and the digest and the unreadable blocks.
`create` is why the file cannot be made. -/
def copyFileTo (sha256 : List UInt8 → String) (create : Option String) (obs : Obstacles)
    (fs : Zpl.Filesystem) (object size : Nat) (strict : Bool) :
    List UInt8 × Except String (String × Nat) :=
  match fs.object object with
  | .error e => ([], .error e.text)
  | .ok obj =>
    match create with
    | some e => ([], .error e)
    | none =>
      let (written, result) := copyLoop obs obj (blockSize obj) size strict size 0 [] 0
      (written, result.map (fun errors => (sha256 written, errors)))

/-! ## Whole files -/

section Whole

variable (fs : Zpl.Filesystem) (object size : Nat)

/-- What the object holds up to the last block that its dnode knows, cut or filled up with zeros to
the size in the metadata.  Zeros stand for what cannot be read. -/
def logicalContent (obj : ObjectReader Id) (size : Nat) : List UInt8 :=
  setLen (image obj.blockBytes 0 (obj.dnode.maxblkid + 1)) size

/-- A copy that is not strict and does not fail has written all of the file, and tells the
unreadable blocks that it visited and the digest of what it wrote. -/
def CopiesTruly (obj : ObjectReader Id) : Prop :=
  ∀ (sha256 : List UInt8 → String) (create : Option String) (obs : Obstacles)
    (bytes : List UInt8) (digest : String) (errors : Nat),
    copyFileTo sha256 create obs fs object size false = (bytes, .ok (digest, errors)) →
    bytes.length = size ∧ bytes = logicalContent obj size ∧
      errors = (List.range (divCeil size (blockSize obj))).countP (unreadable obj) ∧
      digest = sha256 bytes

/-- What the size asks of the object. -/
structure Fits (obj : ObjectReader Id) (size : Nat) : Prop where
  /-- Without a block size no block of the file can be read. -/
  unsized : obj.dnode.datablksz = 0 → ∀ b, b * 512 < size → unreadable obj b = true
  /-- The blocks past the last that the dnode knows hold nothing before the size. -/
  past : ∀ i, (obj.dnode.maxblkid + 1) * obj.dnode.datablksz ≤ i → i < size →
    (obj.blockBytes (i / obj.dnode.datablksz)).getD (i % obj.dnode.datablksz) 0 = 0

variable {fs object size} {obj : ObjectReader Id} {buf : List UInt8} {e : Endian}

theorem blockSize_cases (hparse : DnodePhys.parse buf e = .ok obj.dnode) :
    obj.dnode.datablksz = 0 ∧ blockSize obj = 512 ∨
      obj.dnode.datablksz ≠ 0 ∧ blockSize obj = obj.dnode.datablksz := by
  have hsec := (DnodePhys.parse_sized hparse).datablksz_eq
  rw [blockSize]
  omega

theorem chunk_cases (hparse : DnodePhys.parse buf e = .ok obj.dnode) (b : Nat) :
    chunk obj (blockSize obj) b = [] ∨ (chunk obj (blockSize obj) b).length = blockSize obj := by
  unfold chunk
  cases hread : obj.readBlkid b with
  | error err => exact Or.inr List.length_replicate
  | ok data =>
    have hlen := ObjectReader.readBlkid_length hread
    rcases blockSize_cases hparse with ⟨hzero, -⟩ | ⟨-, hsize⟩
    · exact Or.inl (List.length_eq_zero_iff.mp (hlen.trans hzero))
    · exact Or.inr (hlen.trans hsize.symm)

theorem chunk_eq_blockBytes (b : Nat) :
    chunk obj obj.dnode.datablksz b = obj.blockBytes b := by
  unfold chunk ObjectReader.blockBytes
  cases obj.readBlkid b with
  | ok data => rfl
  | error err => rfl

/-- What a copy that does not fail has done, and that there is one. -/
theorem copyFileTo_ok (hobj : fs.object object = .ok obj)
    (hparse : DnodePhys.parse buf e = .ok obj.dnode) {sha256 : List UInt8 → String}
    {create : Option String} {obs : Obstacles} {bytes : List UInt8} {digest : String} {errors : Nat}
    (h : copyFileTo sha256 create obs fs object size false = (bytes, .ok (digest, errors))) :
    digest = sha256 bytes ∧ ∃ k, Copied obj (blockSize obj) size bytes errors k := by
  have hbs : 0 < blockSize obj := Nat.lt_of_lt_of_le (by decide) (Nat.le_max_right _ 512)
  simp only [copyFileTo, hobj] at h
  cases create with
  | some err => cases h
  | none =>
    cases hloop : copyLoop obs obj (blockSize obj) size false size 0 [] 0 with
    | mk written result =>
      simp only [hloop] at h
      cases result with
      | error err => cases h
      | ok total =>
        cases h
        have hstart : (image (chunk obj (blockSize obj)) 0 0).take size = [] := List.take_nil
        rw [← hstart] at hloop
        exact ⟨rfl, copyLoop_ok hbs (chunk_cases hparse) size 0 (Nat.le_add_left _ _)
          (fun b hb => absurd hb (Nat.not_lt_zero b)) (fun b hb => absurd hb (Nat.not_lt_zero b))
          hloop⟩

theorem copyFileTo_free (hobj : fs.object object = .ok obj) (size : Nat)
    (sha256 : List UInt8 → String) :
    ∃ bytes errors, copyFileTo sha256 none .free fs object size false =
      (bytes, .ok (sha256 bytes, errors)) := by
  obtain ⟨bytes, errors, hloop⟩ : ∃ bytes errors,
      copyLoop .free obj (blockSize obj) size false size 0 [] 0 = (bytes, .ok errors) :=
    copyLoop_free_ok size 0 [] 0
  refine ⟨bytes, errors, ?_⟩
  simp only [copyFileTo, hobj, hloop]
  rfl

/-- The blocks of the file, where each of them has bytes, are all visited. -/
theorem Copied.visits {bs : Nat} (hbs : 0 < bs) {bytes : List UInt8} {errors k : Nat}
    (h : Copied obj bs size bytes errors k) (hdone : size ≤ k * bs) : k = divCeil size bs := by
  apply Nat.le_antisymm
  · by_contra hlt
    have hlast := h.visited (divCeil size bs) (by omega)
    exact absurd ((lt_divCeil_iff hbs).mpr hlast) (Nat.lt_irrefl _)
  · by_contra hlt
    have hmore := (lt_divCeil_iff hbs).mp (Nat.not_le.mp hlt)
    omega

theorem Copied.length {bs : Nat} {bytes : List UInt8} {errors k : Nat}
    (h : Copied obj bs size bytes errors k) : bytes.length = min size (k * bs) := by
  rw [h.bytes, List.length_take, image_length_of_before h.whole]

/-! A dnode with a block size. -/

theorem copied_eq_iff {bytes : List UInt8} {errors k : Nat}
    (h : Copied obj obj.dnode.datablksz size bytes errors k)
    (hdone : size ≤ k * obj.dnode.datablksz) :
    bytes = logicalContent obj size ↔
      ∀ i, (obj.dnode.maxblkid + 1) * obj.dnode.datablksz ≤ i → i < size →
        (obj.blockBytes (i / obj.dnode.datablksz)).getD (i % obj.dnode.datablksz) 0 = 0 := by
  have hwhole : ∀ b, (obj.blockBytes b).length = obj.dnode.datablksz :=
    ObjectReader.blockBytes_length
  have hlen : bytes.length = size := by
    rw [h.length]
    exact Nat.min_eq_left hdone
  have hleft : ∀ i, i < size → bytes.getD i 0 =
      (obj.blockBytes (i / obj.dnode.datablksz)).getD (i % obj.dnode.datablksz) 0 := by
    intro i hi
    have hchunk : chunk obj obj.dnode.datablksz = obj.blockBytes := funext chunk_eq_blockBytes
    rw [h.bytes, hchunk, List.getD_eq_getElem?_getD, List.getElem?_take, if_pos hi,
      ← List.getD_eq_getElem?_getD]
    exact image_getD_of_whole hwhole (by omega)
  have hright : ∀ i, i < size → (logicalContent obj size).getD i 0 =
      if i < (obj.dnode.maxblkid + 1) * obj.dnode.datablksz then
        (obj.blockBytes (i / obj.dnode.datablksz)).getD (i % obj.dnode.datablksz) 0
      else 0 := by
    intro i hi
    rw [logicalContent, setLen_getD _ hi]
    split
    · exact image_getD_of_whole hwhole ‹_›
    · rename_i hout
      rw [List.getD_eq_getElem?_getD, List.getElem?_eq_none]
      · rfl
      · rw [image_length_of_whole hwhole]
        omega
  rw [eq_iff_getD (by rw [hlen, logicalContent, setLen_length]), hlen]
  constructor
  · intro hsame i hlow hi
    have hi' := hsame i hi
    rwa [hleft i hi, hright i hi, if_neg (Nat.not_lt.mpr hlow)] at hi'
  · intro hzero i hi
    rw [hleft i hi, hright i hi]
    split
    · rfl
    · exact hzero i (by omega) hi

theorem copiesTruly_of_sized (hobj : fs.object object = .ok obj)
    (hparse : DnodePhys.parse buf e = .ok obj.dnode) (hbs : obj.dnode.datablksz ≠ 0) :
    CopiesTruly fs object size obj ↔
      ∀ i, (obj.dnode.maxblkid + 1) * obj.dnode.datablksz ≤ i → i < size →
        (obj.blockBytes (i / obj.dnode.datablksz)).getD (i % obj.dnode.datablksz) 0 = 0 := by
  have hsize : blockSize obj = obj.dnode.datablksz :=
    ((blockSize_cases hparse).resolve_left (fun h => hbs h.1)).2
  have hpos := Nat.pos_of_ne_zero hbs
  -- No block is without bytes, so the copy goes on to the end.
  have hdone : ∀ {bytes errors k}, Copied obj (blockSize obj) size bytes errors k →
      size ≤ k * obj.dnode.datablksz := by
    intro bytes errors k h
    rw [hsize] at h
    refine h.ended.resolve_right (fun hend => ?_)
    have hlen : (obj.blockBytes k).length = obj.dnode.datablksz :=
      ObjectReader.blockBytes_length k
    rw [← chunk_eq_blockBytes, hend.2] at hlen
    exact hbs hlen.symm
  constructor
  · intro htrue
    obtain ⟨bytes, errors, hrun⟩ := copyFileTo_free hobj size (fun _ => "")
    obtain ⟨-, k, hcopied⟩ := copyFileTo_ok hobj hparse hrun
    have hend := hdone hcopied
    rw [hsize] at hcopied
    exact (copied_eq_iff hcopied hend).mp (htrue _ _ _ _ _ _ hrun).2.1
  · intro hpast sha256 create obs bytes digest errors hrun
    obtain ⟨hdigest, k, hcopied⟩ := copyFileTo_ok hobj hparse hrun
    have hend := hdone hcopied
    have hvisits := hcopied.visits (by omega) (by rw [hsize]; exact hend)
    refine ⟨?_, ?_, ?_, hdigest⟩
    · rw [hcopied.length, hsize]
      exact Nat.min_eq_left hend
    · rw [hsize] at hcopied
      exact (copied_eq_iff hcopied hend).mpr hpast
    · rw [← hvisits]
      exact hcopied.errors

/-! A dnode without one. -/

theorem image_nil {content : Nat → List UInt8} (h : ∀ b, content b = []) :
    ∀ n, image content 0 n = [] := by
  intro n
  induction n with
  | zero => rfl
  | succ n ih => rw [image_succ, ih, h, List.append_nil]

theorem image_zeros {content : Nat → List UInt8} {bs : Nat} :
    ∀ k, (∀ b, b < k → content b = List.replicate bs 0) →
      image content 0 k = List.replicate (k * bs) 0 := by
  intro k
  induction k with
  | zero =>
    intro _
    rw [Nat.zero_mul]
    rfl
  | succ k ih =>
    intro h
    rw [image_succ, ih (fun b hb => h b (by omega)), Nat.zero_add, h k (Nat.lt_succ_self k),
      List.replicate_append_replicate, Nat.succ_mul]

theorem chunk_of_unreadable {bs b : Nat} (h : unreadable obj b = true) :
    chunk obj bs b = List.replicate bs 0 := by
  unfold unreadable at h
  unfold chunk
  cases hread : obj.readBlkid b with
  | ok data =>
    rw [hread] at h
    cases h
  | error err => rfl

theorem copiesTruly_of_unsized (hobj : fs.object object = .ok obj)
    (hparse : DnodePhys.parse buf e = .ok obj.dnode) (hbs : obj.dnode.datablksz = 0) :
    CopiesTruly fs object size obj ↔ ∀ b, b * 512 < size → unreadable obj b = true := by
  have hsize : blockSize obj = 512 :=
    ((blockSize_cases hparse).resolve_right (fun h => h.1 hbs)).2
  have hpos : 0 < blockSize obj := by
    rw [hsize]
    decide
  constructor
  · intro htrue b hb
    obtain ⟨bytes, errors, hrun⟩ := copyFileTo_free hobj size (fun _ => "")
    obtain ⟨-, k, hcopied⟩ := copyFileTo_ok hobj hparse hrun
    have hlen := (htrue _ _ _ _ _ _ hrun).1
    rw [hcopied.length, hsize] at hlen
    have hwhole := hcopied.whole b (by omega)
    -- What can be read of a block is without bytes.
    by_contra hread
    rw [Bool.not_eq_true] at hread
    unfold chunk at hwhole
    unfold unreadable at hread
    cases hblk : obj.readBlkid b with
    | error err =>
      rw [hblk] at hread
      cases hread
    | ok data =>
      rw [hblk] at hwhole
      rw [ObjectReader.readBlkid_length hblk, hbs] at hwhole
      omega
  · intro hnone sha256 create obs bytes digest errors hrun
    obtain ⟨hdigest, k, hcopied⟩ := copyFileTo_ok hobj hparse hrun
    have hend : size ≤ k * blockSize obj := by
      refine hcopied.ended.resolve_right (fun hend => ?_)
      have hread := hnone k (by rw [← hsize]; exact hend.1)
      rw [unreadable_of_nil hpos hend.2] at hread
      cases hread
    have hzeros : ∀ b, b < k → chunk obj (blockSize obj) b = List.replicate (blockSize obj) 0 :=
      fun b hb => chunk_of_unreadable (hnone b (by rw [← hsize]; exact hcopied.visited b hb))
    have hnil : ∀ b, obj.blockBytes b = [] := fun b =>
      List.length_eq_zero_iff.mp ((ObjectReader.blockBytes_length b).trans hbs)
    have hvisits := hcopied.visits hpos hend
    refine ⟨?_, ?_, ?_, hdigest⟩
    · rw [hcopied.length]
      exact Nat.min_eq_left hend
    · rw [hcopied.bytes, image_zeros k hzeros, logicalContent, image_nil hnil, setLen,
        List.take_replicate, List.take_nil, List.nil_append, List.length_nil, Nat.sub_zero,
        Nat.min_eq_left hend]
    · rw [← hvisits]
      exact hcopied.errors

/-- A copy that is not strict and does not fail is true to the file exactly where the dnode has a
block size, or no block of the file can be read, and holds nothing between the last block that it
knows and the size. -/
theorem copies_truly_iff (hobj : fs.object object = .ok obj)
    (hparse : DnodePhys.parse buf e = .ok obj.dnode) :
    CopiesTruly fs object size obj ↔ Fits obj size := by
  by_cases hbs : obj.dnode.datablksz = 0
  · rw [copiesTruly_of_unsized hobj hparse hbs]
    constructor
    · intro hnone
      refine ⟨fun _ => hnone, fun i _ _ => ?_⟩
      rw [List.length_eq_zero_iff.mp ((ObjectReader.blockBytes_length _).trans hbs)]
      rfl
    · exact fun h => h.unsized hbs
  · rw [copiesTruly_of_sized hobj hparse hbs]
    exact ⟨fun h => ⟨fun hzero => absurd hzero hbs, h⟩, fun h => h.past⟩

end Whole

/-! ## A file without a block size -/

/-- The dnode of a file of one hole, with a data block of so many sectors. -/
def fileSlot (sectors : UInt8) : List UInt8 :=
  [19, 17, 1, 1, 0, 0, 0, 0, sectors] ++ List.replicate 503 0

def fileOf (d : DnodePhys) : ObjectReader Id := { ObjectReader.holes with dnode := d }

def filesystemOf (d : DnodePhys) : Zpl.Filesystem where
  root := 34
  readDir := fun _ => .ok []
  znode := fun _ => .error .hole
  object := fun _ => .ok (fileOf d)
  symlinkTarget := fun _ _ => .error .hole
  xattrs := fun _ => []
  lookupBytes := fun _ => .error .hole

theorem fileSlot_parse (sectors : UInt8) (size : Nat)
    (h : (DnodePhys.parse (fileSlot sectors) .little).toOption.map
      (fun d => (d.datablksz, d.maxblkid, unreadable (fileOf d) 0)) = some (size, 0, false)) :
    ∃ d, DnodePhys.parse (fileSlot sectors) .little = .ok d ∧ d.datablksz = size ∧
      d.maxblkid = 0 ∧ unreadable (fileOf d) 0 = false := by
  cases hparse : DnodePhys.parse (fileSlot sectors) .little with
  | error e =>
    rw [hparse] at h
    cases h
  | ok d =>
    rw [hparse] at h
    simp only [Except.toOption, Option.map_some, Option.some.injEq, Prod.mk.injEq] at h
    exact ⟨d, rfl, h⟩

theorem copies_truly_iff_sector : ∃ d, DnodePhys.parse (fileSlot 1) .little = .ok d ∧
    CopiesTruly (filesystemOf d) 128 100 (fileOf d) := by
  obtain ⟨d, hd, hsize, hmax, -⟩ := fileSlot_parse 1 512 (by decide +kernel)
  have hobj : (filesystemOf d).object 128 = .ok (fileOf d) := rfl
  refine ⟨d, hd, (copies_truly_iff hobj hd).mpr ⟨fun hzero => ?_, fun i hlow hi => ?_⟩⟩
  · have hzero : d.datablksz = 0 := hzero
    rw [hsize] at hzero
    cases hzero
  · have hlow : (d.maxblkid + 1) * d.datablksz ≤ i := hlow
    rw [hsize, hmax] at hlow
    omega

/-- A file of five bytes comes out empty, and the copy is a success. -/
theorem copy_cuts_short :
    ¬ ∀ (fs : Zpl.Filesystem) (object : Nat) (obj : ObjectReader Id) (buf : List UInt8) (e : Endian)
        (size : Nat), fs.object object = .ok obj → DnodePhys.parse buf e = .ok obj.dnode →
      CopiesTruly fs object size obj := by
  intro h
  obtain ⟨d, hd, hsize, -, hread⟩ := fileSlot_parse 0 0 (by decide +kernel)
  have hobj : (filesystemOf d).object 128 = .ok (fileOf d) := rfl
  have htrue := h (filesystemOf d) 128 (fileOf d) (fileSlot 0) .little 5 hobj hd
  have hnone := (copiesTruly_of_unsized hobj hd hsize).mp htrue 0 (by decide)
  rw [hread] at hnone
  cases hnone

end Files
end ZvolRescue
