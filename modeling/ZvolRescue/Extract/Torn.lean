import ZvolRescue.Extract.AskedOnce
import ZvolRescue.Zio.Calm
import ZvolRescue.Zio.Images

/-!
# A block that no copy gives whole

An extraction writes the readable sectors of a torn copy of the true bytes, and names just the
others as bad, exactly where no copy reads whole and the first of the copies that lose the fewest
bytes is such a one (`extraction_kept_iff`).  A whole copy that is stale takes the salvage away from
the others, and a stale copy that loses less is kept instead.
-/

namespace ZvolRescue
namespace Extract

open Lib Ondisk Source Zio Dmu

/-! ## The salvage of a block -/

section Salvage

variable {ω : Type} {r : SalvageReader ω} {D : Contents} {media : Nat → Faulty}
  {eof : IoError → Bool} {bp : BlkPtr}

theorem bestSalvage_best (h : Images r D media eof) {len : Nat} (hlen : 0 < len)
    (dvas : List Dva) :
    ∀ (before : List Site) (best : Option Salvage), Best len before best →
      (∀ dva ∈ dvas, r.pool.Mirrored dva) →
      (∀ s ∈ dvas.flatMap (r.sitesAt media), ¬ s.Whole len) →
      Keeps (Quiet D) (bestSalvage (poolReader r) len best dvas)
        (Best len (before ++ dvas.flatMap (r.sitesAt media))) := by
  induction dvas with
  | nil =>
    intro before best hbest _ _
    rw [List.flatMap_nil, List.append_nil]
    exact Keeps.pure hbest
  | cons dva rest ih =>
    intro before best hbest hmirrored hwhole
    rw [bestSalvage]
    rw [List.flatMap_cons] at hwhole ⊢
    rw [← List.append_assoc]
    have hhere := fun s hs => hwhole s (List.mem_append_left _ hs)
    apply Keeps.bind (h.salvageDva_best (hmirrored dva List.mem_cons_self) hlen hhere)
    intro found hfound
    have hnext := hbest.append hfound
    have hafter := ih _ _ hnext (fun dva hd => hmirrored dva (List.mem_cons_of_mem _ hd))
      (fun s hs => hwhole s (List.mem_append_right _ hs))
    cases found with
    | error e => exact hafter
    | ok found =>
      obtain ⟨s, hs, hkept⟩ := hfound
      have hmem : s ∈ r.sitesAt media dva := List.mem_of_mem_filter hs.mem
      have hpos := Site.lostCount_pos hkept.reaches (hhere s hmem)
      have hlost : lostBytes found.2 = s.lostCount len := hkept.lostBytes_eq
      simp only
      rw [if_neg (by omega)]
      exact hafter

/-- What a read of a block gives, by its copies. -/
inductive Yields (len : Nat) (sites : List Site) : BlockRead → Prop
  /-- The first of the copies that lose the fewest bytes. -/
  | torn (bytes : List UInt8) (ranges : List (Nat × Nat)) (reason : String)
      (none : ∀ s ∈ sites, ¬ s.Whole len) (best : Best len sites (some (bytes, ranges))) :
      Yields len sites (.partly bytes ranges reason)
  | whole (bytes : List UInt8) (one : ∃ s ∈ sites, s.Whole len) : Yields len sites (.data bytes)
  | lost (reason : String) (none : (∃ s ∈ sites, s.Whole len) ∨ Best len sites none) :
      Yields len sites (.lost reason)

/-- A block on disks and mirrors that is stored as it was written. -/
structure Plain (r : SalvageReader ω) (bp : BlkPtr) : Prop where
  copied : r.pool.Copied bp
  compression : bp.compression = .off
  encrypted : bp.isEncrypted = false

/-- What a salvage finds of a block of which no copy reads whole. -/
def Found (len : Nat) (sites : List Site) : Option Salvaged → Prop
  | none => Best len sites none
  | some (.whole _) => False
  | some (.partly bytes ranges) => Best len sites (some (bytes, ranges))

theorem salvage_found (h : Images r D media eof) (hbp : Plain r bp) (hsize : 0 < bp.psize)
    (hwhole : ∀ s ∈ r.sitesOf media bp, ¬ s.Whole bp.psize) (text : String) :
    Keeps (Quiet D) (salvage (poolReader r) bp (.io text))
      (Found bp.psize (r.sitesOf media bp)) := by
  have hbest := bestSalvage_best h hsize bp.dvas [] none
    (fun _ hs => absurd hs List.not_mem_nil) hbp.copied.mirrored
    (by rwa [← r.sitesOf_eq media bp])
  rw [List.nil_append, ← r.sitesOf_eq media bp] at hbest
  rw [salvage, if_neg (by simp [hbp.compression, hbp.encrypted, hbp.copied.payload])]
  apply Keeps.bind hbest
  intro found hfound
  rcases found with _ | ⟨data, _ | ⟨bad, rest⟩⟩
  · exact Keeps.pure hfound
  · obtain ⟨s, hs, hkept⟩ := hfound
    have hpos := Site.lostCount_pos hkept.reaches (hwhole s (List.mem_of_mem_filter hs.mem))
    have hlost : lostBytes [] = s.lostCount bp.psize := hkept.lostBytes_eq
    have hzero : lostBytes [] = 0 := rfl
    omega
  · exact Keeps.pure hfound

theorem readFailed_yields (h : Images r D media eof) (hbp : Plain r bp) (hsize : 0 < bp.psize)
    (hwhole : ∀ s ∈ r.sitesOf media bp, ¬ s.Whole bp.psize) (text : String) :
    Keeps (Quiet D) (readFailed (poolReader r) (some bp) (.io text))
      (Yields bp.psize (r.sitesOf media bp)) := by
  rw [readFailed]
  apply Keeps.bind (salvage_found h hbp hsize hwhole text)
  intro found hfound
  rcases found with _ | data | ⟨data, ranges⟩
  · apply Keeps.bind (whyNotSalvaged_related (poolReader_related h.related) bp).2
    intro why _
    exact Keeps.pure (Yields.lost _ (Or.inr hfound))
  · exact absurd hfound id
  · exact Keeps.pure (Yields.torn _ _ _ hwhole hfound)

theorem readFailed_settled {reader : PoolReader (StateM (ReaderState ω))} {e : ReadError}
    (he : e.Settled) :
    Keeps (Quiet D) (readFailed reader (some bp) e) (fun read => ∃ reason, read = .lost reason) := by
  cases e with
  | io text => exact absurd rfl (he.1 text)
  | _ => exact Keeps.pure ⟨_, rfl⟩

/-- A block that reads has a whole copy.  It fails with an i/o error exactly where a copy is there
and none is whole. -/
def Judged (len : Nat) (sites : List Site) {α : Type} : Except ReadError α → Prop
  | .ok _ => ∃ s ∈ sites, s.Whole len
  | .error e =>
    ((∃ s ∈ sites, s.Whole len) ∨ sites = []) ∧ e.Settled ∨
      (∀ s ∈ sites, ¬ s.Whole len) ∧ ∃ text, e = .io text

theorem readBlock_judged (h : Images r D media eof) (hbp : Plain r bp) (hsize : 0 < bp.psize) :
    Keeps (Quiet D) ((poolReader r).readBlock bp) (Judged bp.psize (r.sitesOf media bp)) := by
  have hread : Keeps (Quiet D) ((poolReader r).readBlock bp)
      (fun result => result = (r.pool.readBlock (D.io r.reader) bp false).run) :=
    r.pool.readBlock_refines h.steady.io_refines bp false
  apply hread.mono
  rintro result rfl
  by_cases hcase : (∃ s ∈ r.sitesOf media bp, s.Whole bp.psize) ∨ r.sitesOf media bp = []
  · have hsettled := h.readBlock_settled hbp.copied hsize hcase
    cases hresult : (r.pool.readBlock (D.io r.reader) bp false).run with
    | ok block => exact h.readBlock_whole hbp.copied hsize hresult
    | error e => exact Or.inl ⟨hcase, hsettled e hresult⟩
  · rw [not_or] at hcase
    have hwhole : ∀ s ∈ r.sitesOf media bp, ¬ s.Whole bp.psize :=
      fun s hs hs' => hcase.1 ⟨s, hs, hs'⟩
    obtain ⟨text, htext⟩ := h.readBlock_io hbp.copied hsize hwhole hcase.2
    rw [htext]
    exact Or.inr ⟨hwhole, text, rfl⟩

/-- What the read of a block that is found on images gives. -/
theorem readVolumeBlock_yields (h : Images r D media eof) (hbp : Plain r bp)
    (hsize : 0 < bp.psize) {d : DnodePhys} {endian : Endian} {blkid : Nat} {s : ReaderState ω}
    (hs : Quiet D s)
    (hlocate : ((poolObject r d endian).locate blkid s).1 = .ok (some bp)) :
    Yields bp.psize (r.sitesOf media bp)
      (readVolumeBlock (poolObject r d endian) .zero blkid s).1 := by
  have hquiet := (((poolObject r d endian).locate_related (poolReader_related h.related) blkid).2
    s hs).2
  rw [readVolumeBlock, bind_run]
  generalize (poolObject r d endian).locate blkid s = located at hlocate hquiet
  obtain ⟨found, s⟩ := located
  simp only at hlocate hquiet
  subst hlocate
  have hnone : r.sitesOf media bp = [] → Best bp.psize (r.sitesOf media bp) none := by
    intro hnil s hs
    rw [hnil] at hs
    exact absurd hs List.not_mem_nil
  have hjudged : Keeps (Quiet D)
      ((fun result => result.map (fun block => some block.data)) <$> (poolReader r).readBlock bp)
      (fun result => Judged bp.psize (r.sitesOf media bp) result ∧ result ≠ .ok none) := by
    apply (readBlock_judged h hbp hsize).map
    intro result hresult
    cases result with
    | ok block => exact ⟨hresult, fun h => by cases h⟩
    | error e => exact ⟨hresult, fun h => by cases h⟩
  refine (hjudged.bind ?_ s hquiet).1
  rintro result ⟨hresult, hsome⟩
  cases result with
  | ok data =>
    cases data with
    | none => exact absurd rfl hsome
    | some data => exact Keeps.pure (Yields.whole data hresult)
  | error e =>
    rcases hresult with ⟨hcase, hsettled⟩ | ⟨hwhole, text, rfl⟩
    · have hfailed : Keeps (Quiet D) (readFailed (poolReader r) (some bp) e)
          (Yields bp.psize (r.sitesOf media bp)) := by
        apply (readFailed_settled hsettled).mono
        rintro read ⟨reason, rfl⟩
        exact Yields.lost reason (hcase.imp_right hnone)
      cases e with
      | medium stop what =>
        cases stop with
        | true => exact absurd rfl (hsettled.2 what)
        | false => exact hfailed
      | _ => exact hfailed
    · exact readFailed_yields h hbp hsize hwhole text

end Salvage

/-! ## What is kept of a torn copy -/

/-- Some of the first `shown` bytes of a copy are lost, but not all, and the others are true. -/
structure Torn (truth : List UInt8) (len shown : Nat) (s : Site) : Prop where
  lost : ∃ i < shown, s.Lost len i
  readable : ∃ i < shown, ¬ s.Lost len i
  same : ∀ i < shown, ¬ s.Lost len i → s.medium.byte (s.start + i) = truth[i]?

theorem Torn.not_zero {truth : List UInt8} {len : Nat} {s : Site} (h : Torn truth len 0 s) :
    False := by
  obtain ⟨i, hi, -⟩ := h.lost
  exact Nat.not_lt_zero i hi

/-- The image has what reads of a torn copy, and just what does not read of it is bad. -/
def Kept (truth : List UInt8) (len shown : Nat) (sites : List Site) (image : Nat → Option UInt8)
    (bad : Nat → Prop) : Prop :=
  ∃ s ∈ sites, Torn truth len shown s ∧
    ∀ i < shown, (bad i ↔ s.Lost len i) ∧ (¬ s.Lost len i → image i = truth[i]?)

open scoped Classical in
/-- No copy reads whole, and the first of the copies that lose the fewest bytes is torn, and
true. -/
def LeastIsTorn (truth : List UInt8) (len shown : Nat) (sites : List Site) : Prop :=
  (∀ s ∈ sites, ¬ s.Whole len) ∧ ∃ s,
    FirstLeast (fun s => s.lostCount len) (sites.filter (fun s => s.Reaches len)) s ∧
      Torn truth len shown s

/-- What the image shows of a block, and which of its bytes are bad. -/
def BlockRead.Shows (read : BlockRead) (shown : Nat) (image : Nat → Option UInt8)
    (bad : Nat → Prop) : Prop :=
  ∀ i < shown,
    match read with
    | .partly bytes ranges _ =>
      (bad i ↔ ∃ p ∈ ranges, p.1 ≤ i ∧ i < p.1 + p.2) ∧ image i = bytes[i]?
    | .lost _ => bad i
    | .stopped _ _ => bad i
    | _ => ¬ bad i

theorem Yields.kept_iff {truth : List UInt8} {len shown : Nat} {sites : List Site}
    {read : BlockRead} {image : Nat → Option UInt8} {bad : Nat → Prop} (h : Yields len sites read)
    (hshows : read.Shows shown image bad) (hle : shown ≤ len) :
    Kept truth len shown sites image bad ↔ LeastIsTorn truth len shown sites := by
  cases h with
  | torn bytes ranges reason hnone hbest =>
    obtain ⟨c, hc, hkept⟩ := hbest
    have hlost : ∀ i < shown, (bad i ↔ c.Lost len i) := by
      intro i hi
      exact (hshows i hi).1.trans (hkept.lost_iff (by omega)).symm
    have hbytes : ∀ i < shown, ¬ c.Lost len i → image i = c.medium.byte (c.start + i) := by
      intro i hi hnot
      exact (hshows i hi).2.trans (hkept.same i (by omega) hnot)
    constructor
    · rintro ⟨s, -, htorn, hall⟩
      have hsame : ∀ i < shown, (s.Lost len i ↔ c.Lost len i) :=
        fun i hi => (hall i hi).1.symm.trans (hlost i hi)
      refine ⟨hnone, c, hc, ?_, ?_, ?_⟩
      · obtain ⟨i, hi, hi'⟩ := htorn.lost
        exact ⟨i, hi, (hsame i hi).mp hi'⟩
      · obtain ⟨i, hi, hi'⟩ := htorn.readable
        exact ⟨i, hi, mt (hsame i hi).mpr hi'⟩
      · intro i hi hnot
        rw [← hbytes i hi hnot]
        exact (hall i hi).2 (mt (hsame i hi).mp hnot)
    · rintro ⟨-, c', hc', htorn⟩
      obtain rfl := hc.unique hc'
      refine ⟨c, List.mem_of_mem_filter hc.mem, htorn, fun i hi => ⟨hlost i hi, fun hnot => ?_⟩⟩
      rw [hbytes i hi hnot]
      exact htorn.same i hi hnot
  | whole bytes hone =>
    constructor
    · rintro ⟨s, -, htorn, hall⟩
      obtain ⟨i, hi, hi'⟩ := htorn.lost
      exact absurd ((hall i hi).1.mpr hi') (hshows i hi)
    · rintro ⟨hnone, -⟩
      obtain ⟨s, hs, hs'⟩ := hone
      exact absurd hs' (hnone s hs)
  | lost reason hnone =>
    constructor
    · rintro ⟨s, -, htorn, hall⟩
      obtain ⟨i, hi, hi'⟩ := htorn.readable
      exact absurd ((hall i hi).1.mp (hshows i hi)) hi'
    · rintro ⟨hwhole, c, hc, -⟩
      rcases hnone with ⟨s, hs, hs'⟩ | hbest
      · exact absurd hs' (hwhole s hs)
      · obtain ⟨hmem, hreaches⟩ := List.mem_filter.mp hc.mem
        exact absurd (by simpa using hreaches) (hbest c hmem)

/-! ## No image stops a run -/

section GoesOn

variable {ω : Type} {r : SalvageReader ω} {D : Contents} {media : Nat → Faulty}
  {eof : IoError → Bool}

theorem io_calm (h : Images r D media eof) : (D.io r.reader).Calm where
  readLeaf := by
    intro device offset size
    unfold Contents.io
    dsimp only
    cases r.reader.device device with
    | none => exact Calm.error (fun _ h => by cases h)
    | some entry =>
      obtain ⟨index, dev⟩ := entry
      simp only
      cases hD : D index (r.reader.byteOffset index offset) size with
      | ok b => exact Calm.ok _
      | error e =>
        apply Calm.error
        rw [ioError, h.incident index _ _ e hD]
        intro _ h
        cases h
  mediumStop := rfl

theorem readBlock_calm (h : Images r D media eof) (bp : BlkPtr) :
    Keeps (Quiet D) ((poolReader r).readBlock bp) Calm := by
  have hread : Keeps (Quiet D) ((poolReader r).readBlock bp)
      (fun result => result = (r.pool.readBlock (D.io r.reader) bp false).run) :=
    r.pool.readBlock_refines h.steady.io_refines bp false
  apply hread.mono
  rintro result rfl
  exact r.pool.readBlock_calm (io_calm h) bp false

theorem locate_calm (h : Images r D media eof) (d : DnodePhys) (endian : Endian) (blkid : Nat) :
    Keeps (Quiet D) ((poolObject r d endian).locate blkid) Calm := by
  have hfrom : ∀ level bp, Keeps (Quiet D) ((poolObject r d endian).locateFrom blkid level bp)
      Calm := by
    intro level
    induction level with
    | zero =>
      intro bp
      exact Keeps.pure (Calm.ok _)
    | succ level ih =>
      intro bp
      rw [ObjectReader.locateFrom]
      by_cases hhole : bp.isHole = true
      · rw [if_pos hhole]
        exact Keeps.pure (Calm.ok _)
      rw [if_neg hhole]
      apply Keeps.bind (readBlock_calm h bp)
      intro result hresult
      cases result with
      | error e => exact Keeps.pure (Calm.error (hresult e rfl))
      | ok block =>
        simp only
        split
        · split
          · exact Keeps.pure (Calm.error (fun _ h => by cases h))
          · exact ih _
        · exact Keeps.pure (Calm.error (fun _ h => by cases h))
  rw [ObjectReader.locate]
  split
  · exact Keeps.pure (Calm.ok _)
  · simp only
    split
    · exact Keeps.pure (Calm.ok _)
    · exact hfrom _ _

theorem readFailed_goesOn (h : Images r D media eof) (bp : Option BlkPtr) (e : ReadError) :
    Keeps (Quiet D) (readFailed (poolReader r) bp e) (fun read => read.stops = false) := by
  cases bp with
  | none => exact Keeps.pure rfl
  | some bp =>
    show Keeps _ (salvage (poolReader r) bp e >>= _) _
    apply Keeps.bind (salvage_related (poolReader_related h.related) bp e).2
    intro found _
    rcases found with _ | data | ⟨data, ranges⟩
    · cases e with
      | io text =>
        apply Keeps.bind (whyNotSalvaged_related (poolReader_related h.related) bp).2
        intro why _
        exact Keeps.pure rfl
      | _ => exact Keeps.pure rfl
    · exact Keeps.pure rfl
    · exact Keeps.pure rfl

/-- No block of a volume on images stops its extraction. -/
theorem readVolumeBlock_goesOn (h : Images r D media eof) (d : DnodePhys) (endian : Endian)
    (blkid : Nat) :
    Keeps (Quiet D) (readVolumeBlock (poolObject r d endian) .zero blkid)
      (fun read => read.stops = false) := by
  have hfailed : ∀ (bp : Option BlkPtr) (e : ReadError), Keeps (Quiet D)
      (if OnError.zero = .abort then (pure (.stopped e.text false) : StateM _ BlockRead)
        else readFailed (poolReader r) bp e) (fun read => read.stops = false) := by
    intro bp e
    rw [if_neg (by decide)]
    exact readFailed_goesOn h bp e
  rw [readVolumeBlock]
  apply Keeps.bind (locate_calm h d endian blkid)
  intro located hlocated
  rcases located with e | _ | bp
  on_goal 1 => apply Keeps.bind (P := Calm) (Keeps.pure (Calm.error (hlocated e rfl)))
  on_goal 2 => apply Keeps.bind (P := Calm) (Keeps.pure (Calm.ok none))
  on_goal 3 =>
    apply Keeps.bind (P := Calm) ((readBlock_calm h bp).map (fun _ hresult => hresult.map _))
  -- What follows the read does not depend on where the pointer came from.
  all_goals
    intro result hresult
    cases result with
    | ok data => cases data <;> exact Keeps.pure rfl
    | error e =>
      cases e with
      | medium stop what =>
        cases stop with
        | true => exact absurd rfl (hresult _ rfl what)
        | false => exact hfailed _ _
      | _ => exact hfailed _ _

/-- Nor does a reader that is quiet stop being so. -/
theorem stateAt_quiet (h : Images r D media eof) (d : DnodePhys) (endian : Endian) :
    ∀ (n blkid : Nat) (s : ReaderState ω), Quiet D s →
      Quiet D (stateAt (readVolumeBlock (poolObject r d endian) .zero) n blkid s) := by
  intro n
  induction n with
  | zero =>
    intro blkid s hs
    exact hs
  | succ n ih =>
    intro blkid s hs
    exact ih (blkid + 1) _ (readVolumeBlock_goesOn h d endian blkid s hs).2

theorem volumeReads_goesOn (h : Images r D media eof) (d : DnodePhys) (endian : Endian)
    {s : ReaderState ω} (hs : Quiet D s) (b : Nat) :
    (volumeReads r d endian .zero s b).stops = false :=
  (readVolumeBlock_goesOn h d endian b _ (stateAt_quiet h d endian (b - 0) 0 s hs)).1

end GoesOn

/-! ## What an extraction leaves of a block -/

/-- Byte `i` of the image is named as bad. -/
def Report.NamesBad (report : Report) (i : Nat) : Prop :=
  ∃ x ∈ report.bad, x.offset ≤ i ∧ i < x.offset + x.len

/-- A range that starts inside the volume is cut at its end. -/
theorem clipRanges_covers {take : Nat} {ranges : List (Nat × Nat)}
    (h : ranges.Pairwise (fun p q => p.1 + p.2 ≤ q.1)) {i : Nat} (hi : i < take) :
    (∃ q ∈ clipRanges take ranges, q.1 ≤ i ∧ i < q.1 + q.2) ↔
      ∃ p ∈ ranges, p.1 ≤ i ∧ i < p.1 + p.2 := by
  constructor
  · rintro ⟨q, hq, hlow, hhigh⟩
    obtain ⟨p, hp, hoffset, hsize, hlt⟩ := clipRanges_mem hq
    exact ⟨p, hp, by omega, by omega⟩
  · rintro ⟨p, hp, hlow, hhigh⟩
    induction ranges with
    | nil => exact absurd hp List.not_mem_nil
    | cons head rest ih =>
      obtain ⟨start, len⟩ := head
      obtain ⟨hfirst, hrest⟩ := List.pairwise_cons.mp h
      rw [clipRanges]
      rcases List.mem_cons.mp hp with rfl | hp
      · rw [if_neg (by simp only at hlow; omega)]
        exact ⟨_, List.mem_cons_self, hlow, by simp only at hlow hhigh ⊢; omega⟩
      · have hle := hfirst p hp
        rw [if_neg (by simp only at hle; omega)]
        obtain ⟨q, hq, hcovers⟩ := ih hrest hp
        exact ⟨q, List.mem_cons_of_mem _ hq, hcovers⟩

section Shown

variable {hashes : ImageHashes} {reads : Nat → BlockRead} {bs vol total n : Nat} {extra : Extra}
  {report : Report} {run : Run SparseFile}

/-- The file of an extraction that took in its blocks is their image. -/
theorem Extracted.file_eq
    (h : Extracted hashes reads never bs vol total 0 (Digests.new extra) [] n .complete report run)
    (hpos : 0 < bs) : run.sink.file = wholeImage bs vol reads n := by
  have hzero : 0 * bs ≤ vol := by omega
  have hdigests : Digests.new extra = (Digests.new extra).update ([].take (0 * bs)) := by
    rw [List.take_nil, Digests.update_nil]
  have hfed := (h.image_iff (by simp) hpos hzero (by simp) hdigests).mpr (fun _ _ _ _ => rfl)
  rw [hfed, h.digests, if_neg (by simp), Nat.zero_add]
  rfl

/-- What the file and the report of such an extraction show of a block. -/
theorem Extracted.shows
    (h : Extracted hashes reads never bs vol total 0 (Digests.new extra) [] n .complete report run)
    (hpos : 0 < bs) (hbad : ∀ b < n, BadIn bs vol reads b) {b : Nat} (hb : b < n)
    {shown : Nat} (hshown : shown ≤ blockLen bs vol b)
    (hpartly : ∀ bytes ranges reason, reads b = .partly bytes ranges reason →
      shown ≤ bytes.length ∧ ranges.Pairwise (fun p q => p.1 + p.2 ≤ q.1)) :
    (reads b).Shows shown (fun i => run.sink.file[b * bs + i]?)
      (fun i => report.NamesBad (b * bs + i)) := by
  have hlenBs : blockLen bs vol b ≤ bs := Nat.min_le_left _ _
  have hlenVol : blockLen bs vol b ≤ vol - b * bs := Nat.min_le_right _ _
  intro i hi
  have hdiv : (b * bs + i) / bs = b := by
    rw [Nat.mul_comm, Nat.mul_add_div hpos, Nat.div_eq_of_lt (by omega), Nat.add_zero]
  have hmod : (b * bs + i) % bs = i := by
    rw [Nat.mul_comm, Nat.mul_add_mod, Nat.mod_eq_of_lt (by omega)]
  have hnames : report.NamesBad (b * bs + i) ↔
      ∃ x ∈ badOf bs vol reads b, x.offset ≤ b * bs + i ∧ b * bs + i < x.offset + x.len := by
    have hreport : report.bad = (List.range' 0 n).flatMap (badOf bs vol reads) := by
      rw [h.bad, if_neg (by simp), List.append_nil]
    rw [Report.NamesBad, hreport]
    constructor
    · rintro ⟨x, hx, hlow, hhigh⟩
      obtain ⟨c, hc, hx⟩ := List.mem_flatMap.mp hx
      have hc := (List.mem_range'_1.mp hc).2
      rw [Nat.zero_add] at hc
      have hsame := (hbad c hc).div_eq hx hlow hhigh
      rw [hdiv] at hsame
      exact ⟨x, hsame ▸ hx, hlow, hhigh⟩
    · rintro ⟨x, hx, hcovers⟩
      exact ⟨x, List.mem_flatMap.mpr ⟨b, List.mem_range'_1.mpr ⟨by omega, by omega⟩, hx⟩, hcovers⟩
  have hwhole : ∀ reason, badOf bs vol reads b = [⟨b * bs, blockLen bs vol b, b, reason⟩] →
      report.NamesBad (b * bs + i) := by
    intro reason heq
    rw [hnames, heq]
    exact ⟨_, List.mem_singleton.mpr rfl, by simp only; omega, by simp only; omega⟩
  cases hread : reads b with
  | hole =>
    simp only [hnames, badOf, hread, BlockRead.badRanges]
    rintro ⟨x, hx, -⟩
    exact List.not_mem_nil hx
  | data bytes =>
    simp only [hnames, badOf, hread, BlockRead.badRanges]
    rintro ⟨x, hx, -⟩
    exact List.not_mem_nil hx
  | lost reason => exact hwhole reason (by rw [badOf, hread]; rfl)
  | stopped reason medium => exact hwhole reason (by rw [badOf, hread]; rfl)
  | partly bytes ranges reason =>
    obtain ⟨hlength, hascending⟩ := hpartly bytes ranges reason hread
    constructor
    · show report.NamesBad (b * bs + i) ↔ _
      rw [hnames, ← clipRanges_covers hascending (show i < blockLen bs vol b by omega), badOf,
        hread, BlockRead.badRanges]
      simp only [List.mem_map, exists_exists_and_eq_and]
      refine exists_congr (fun q => and_congr_right (fun _ => ?_))
      omega
    · have hin : b * bs + i < (wholeImage bs vol reads n).length := by
        rw [wholeImage_length]
        omega
      have hvol : b * bs + i < vol := by omega
      have hbyte : (wholeImage bs vol reads n).getD (b * bs + i) 0 = _ := wholeImage_getD hpos hvol
      rw [hdiv, hmod, if_pos hb, content, hread, BlockRead.bytes,
        take_setLen_getD bytes hlenBs (by omega)] at hbyte
      show run.sink.file[b * bs + i]? = bytes[i]?
      rw [h.file_eq hpos, List.getElem?_eq_getElem hin,
        List.getElem?_eq_getElem (show i < bytes.length by omega)]
      rw [List.getD_eq_getElem _ _ hin, List.getD_eq_getElem _ _ (by omega)] at hbyte
      rw [hbyte]

end Shown

section Extraction

variable {ω : Type} {r : SalvageReader ω} {D : Contents} {media : Nat → Faulty}
  {eof : IoError → Bool} {bp : BlkPtr}

/-- How many bytes of a block on disk are in the image. -/
def shownLen (bp : BlkPtr) (bs vol b : Nat) : Nat := min bp.psize (blockLen bs vol b)

/-- What the file and the report of an extraction show of a block on images is what its read
gives. -/
theorem extraction_shows (h : Images r D media eof) (hbp : Plain r bp) (hsize : 0 < bp.psize)
    (hashes : ImageHashes) {d : DnodePhys} (endian : Endian) {vol : Nat} (hvol : vol < word)
    (hbs : d.datablksz ≠ 0) (extra : Extra) {s : ReaderState ω} (hs : Quiet D s) {b : Nat}
    (hb : b < blocksTotal d vol)
    (hlocate : ((poolObject r d endian).locate b
      (stateAt (readVolumeBlock (poolObject r d endian) .zero) b 0 s)).1 = .ok (some bp))
    {report : Report} {run : Run SparseFile}
    (hrun : (extractHashing hashes (poolObject r d endian) vol SparseFile.sink .zero extra
      SparseFile.create s).1 = (.ok report, run)) :
    ∃ read, Yields bp.psize (r.sitesOf media bp) read ∧
      read.Shows (shownLen bp d.datablksz vol b) (fun i => run.sink.file[b * d.datablksz + i]?)
        (fun i => report.NamesBad (b * d.datablksz + i)) := by
  have hpos := Nat.pos_of_ne_zero hbs
  obtain ⟨_, _, n, ending, hrun', hex⟩ :=
    extractHashing_extracted hashes r d endian hvol hbs .zero extra s
  rw [hrun] at hrun'
  cases hrun'
  obtain ⟨rfl, rfl⟩ := hex.ends.complete_of_goesOn (fun i _ => volumeReads_goesOn h d endian hs _)
  rw [Nat.sub_zero] at hex
  have hyields : Yields bp.psize (r.sitesOf media bp) (volumeReads r d endian .zero s b) :=
    readVolumeBlock_yields h hbp hsize (stateAt_quiet h d endian (b - 0) 0 s hs) hlocate
  refine ⟨_, hyields, hex.shows hpos ?_ hb (Nat.min_le_right _ _) ?_⟩
  · intro c hc
    exact badIn_of_named hpos (mul_lt_of_lt_divCeil hpos
      (Nat.lt_of_lt_of_le hc (Nat.min_le_right _ _))) (volumeReads_named r d endian .zero s c)
  · intro bytes ranges reason hread
    have hnamed := volumeReads_named r d endian .zero s b
    rw [hread] at hnamed hyields
    obtain ⟨size, hmarked⟩ := hnamed
    cases hyields with
    | torn _ _ _ _ hbest =>
      obtain ⟨c, -, hkept⟩ := hbest
      have hlength : bytes.length = bp.psize := hkept.length
      exact ⟨by rw [hlength]; exact Nat.min_le_left _ _, hmarked.ascending⟩

/-- An extraction keeps what reads of a torn copy of a block exactly where no copy reads whole and
the first of those that lose the fewest bytes is torn. -/
theorem extraction_kept_iff (h : Images r D media eof) (hbp : Plain r bp) (hashes : ImageHashes)
    {d : DnodePhys} (endian : Endian) {vol : Nat} (hvol : vol < word) (hbs : d.datablksz ≠ 0)
    (extra : Extra) {s : ReaderState ω} (hs : Quiet D s) {b : Nat} (hb : b < blocksTotal d vol)
    (hlocate : ((poolObject r d endian).locate b
      (stateAt (readVolumeBlock (poolObject r d endian) .zero) b 0 s)).1 = .ok (some bp))
    (truth : List UInt8) {report : Report} {run : Run SparseFile}
    (hrun : (extractHashing hashes (poolObject r d endian) vol SparseFile.sink .zero extra
      SparseFile.create s).1 = (.ok report, run)) :
    Kept truth bp.psize (shownLen bp d.datablksz vol b) (r.sitesOf media bp)
        (fun i => run.sink.file[b * d.datablksz + i]?)
        (fun i => report.NamesBad (b * d.datablksz + i)) ↔
      LeastIsTorn truth bp.psize (shownLen bp d.datablksz vol b) (r.sitesOf media bp) := by
  by_cases hsize : bp.psize = 0
  · -- No byte of the block is in the image.
    have hshown : shownLen bp d.datablksz vol b = 0 := by
      rw [shownLen, hsize, Nat.zero_min]
    rw [hshown]
    constructor
    · rintro ⟨c, -, htorn, -⟩
      exact htorn.not_zero.elim
    · rintro ⟨-, c, -, htorn⟩
      exact htorn.not_zero.elim
  · obtain ⟨read, hyields, hshows⟩ := extraction_shows h hbp (Nat.pos_of_ne_zero hsize) hashes
      endian hvol hbs extra hs hb hlocate hrun
    exact hyields.kept_iff hshows (Nat.min_le_left _ _)

end Extraction

/-! ## A side with a bad sector beside one that is stale -/

/-- Where the block lies on either side. -/
def sideStart : Nat := 4194304

/-- Sevens with a bad first sector, and eights. -/
def sidesContents : Contents := fun index offset size =>
  if index = 0 then
    if offset ≤ sideStart ∧ sideStart < offset + size then
      .error { text := "input/output error", incident := none }
    else .ok (List.replicate size 7)
  else .ok (List.replicate size 8)

def sidesMedia (index : Nat) : Faulty :=
  if index = 0 then { byte := fun _ => some 7, bad := fun a => a = sideStart }
  else { byte := fun _ => some 8, bad := fun _ => False }

theorem sidesContents_length {index offset size : Nat} {b : List UInt8}
    (h : sidesContents index offset size = .ok b) : b.length = size := by
  unfold sidesContents at h
  split at h
  · split at h
    · cases h
    · cases h
      exact List.length_replicate
  · cases h
    exact List.length_replicate

def sidesSource (index : Nat) : SalvageSource Unit :=
  SalvageSource.image
    { readAt := fun offset size w => (sidesContents index offset size, w)
      length_of_readAt := fun _ _ _ _ h => sidesContents_length h }
    (fun _ => false)

/-- A mirror of both; the second side may be missing. -/
def sidesReader (stale : Bool) : SalvageReader Unit :=
  { sources := [some (sidesSource 0), some (sidesSource 1)]
    bases := []
    pool := barePool (.mirror [.leaf (some 0) 1, .leaf (if stale then some 1 else none) 2]) }

def sidesPointer : BlkPtr :=
  { dataPointer 7 with
    lsize := 1024
    psize := 1024
    checksum := .fletcher4
    cksum := fletcher4 (List.replicate 1024 7) .little }

def sidesDnode : DnodePhys :=
  { (smallTarget [] 1024).obj.dnode with
    datablkszsec := 2
    maxblkid := 0
    blkptr := [sidesPointer] }

theorem sidesReader_images (stale : Bool) :
    Images (sidesReader stale) sidesContents sidesMedia (fun _ => false) where
  image := by
    intro index dev hdev
    rcases index with _ | _ | index
    · cases hdev
      exact ⟨_, rfl⟩
    · cases hdev
      exact ⟨_, rfl⟩
    · cases hdev
  answer := by
    intro index dev hdev offset size w
    rcases index with _ | _ | index
    · cases hdev
      rfl
    · cases hdev
      rfl
    · cases hdev
  holds := by
    intro index offset size
    have hfilled : ∀ (b : UInt8) (f : Faulty), ¬ f.Touches offset size →
        (∀ k < size, f.byte (offset + k) = some b) →
        f.Answers (fun _ => false) (fun e : IoError => e.incident = none) offset size
          (.ok (List.replicate size b)) := by
      intro b f hclean hbyte
      refine ⟨hclean, List.length_replicate, fun k hk => ?_⟩
      rw [hbyte k hk, List.getElem?_replicate, if_pos hk]
    unfold sidesContents sidesMedia
    by_cases hindex : index = 0
    · simp only [if_pos hindex]
      by_cases hbad : offset ≤ sideStart ∧ sideStart < offset + size
      · rw [if_pos hbad]
        exact ⟨sideStart - offset, by omega, show offset + (sideStart - offset) = sideStart by omega⟩
      · rw [if_neg hbad]
        refine hfilled 7 _ ?_ (fun _ _ => rfl)
        rintro ⟨k, hk, hat⟩
        have hat : offset + k = sideStart := hat
        omega
    · simp only [if_neg hindex]
      refine hfilled 8 _ ?_ (fun _ _ => rfl)
      rintro ⟨k, -, hbad⟩
      exact hbad
  incident := by
    intro index offset size e h
    unfold sidesContents at h
    split at h
    · split at h
      · cases h
        rfl
      · cases h
    · cases h

theorem sidesPointer_plain (stale : Bool) : Plain (sidesReader stale) sidesPointer where
  copied :=
    { hole := by decide
      embedded := rfl
      mirrored := by
        intro dva hdva
        have hdvas : sidesPointer.dvas = [sidesPointer.dva0] := by decide
        rw [hdvas, List.mem_singleton] at hdva
        subst hdva
        exact ⟨rfl, _, _, rfl, rfl⟩ }
  compression := rfl
  encrypted := rfl

theorem sidesReader_verdicts : (sidesReader true).pool.verdict sidesPointer
      (List.replicate 1024 7) = .ok ∧
    ∀ c ∈ (sidesReader true).pool.copiesOf sidesPointer, ∀ raw,
      (sidesContents.io (sidesReader true).reader).readLeaf c.2 c.1.offset sidesPointer.psize =
          .ok raw →
        (sidesReader true).pool.verdict sidesPointer raw = .mismatch := by
  have hcopies : (sidesReader true).pool.copiesOf sidesPointer =
      [(sidesPointer.dva0, some 0), (sidesPointer.dva0, some 1)] := rfl
  have hdevice : (sidesReader true).reader.device (some 0) =
      some (0, (sidesSource 0).toBlockSource) := rfl
  have hstart : (sidesReader true).reader.byteOffset 0 0 = sideStart := by decide
  have hfirst : (sidesContents.io (sidesReader true).reader).readLeaf (some 0) 0 1024 =
      .error (.io "input/output error") := by
    simp only [Contents.io, hdevice, hstart]
    rw [sidesContents, if_pos rfl, if_pos (by decide)]
    rfl
  have hsecond : ∀ size, (sidesContents.io (sidesReader true).reader).readLeaf (some 1) 0 size =
      .ok (List.replicate size 8) := fun _ => rfl
  refine ⟨by decide +kernel, fun c hc raw hraw => ?_⟩
  rw [hcopies] at hc
  rcases List.mem_cons.mp hc with rfl | hc
  · cases hfirst.symm.trans hraw
  · rw [List.mem_singleton.mp hc] at hraw
    rw [← Except.ok.inj ((hsecond _).symm.trans hraw)]
    decide +kernel

theorem sidesReader_sites (stale : Bool) : (sidesReader stale).sitesOf sidesMedia sidesPointer =
    { medium := sidesMedia 0, start := sideStart } ::
      if stale then [{ medium := sidesMedia 1, start := sideStart }] else [] := by
  cases stale <;> rfl

theorem sides_lost {i : Nat} :
    (Site.mk (sidesMedia 0) sideStart).Lost 1024 i ↔ i < 512 := by
  constructor
  · rintro ⟨j, hj, hbad, hsame⟩
    have hbad : sideStart + j = sideStart := hbad
    simp only [sideStart, salvageSector] at hbad hsame
    omega
  · intro hi
    refine ⟨0, by omega, rfl, ?_⟩
    simp only [sideStart, salvageSector]
    omega

theorem sides_torn : Torn (List.replicate 1024 7) 1024 1024 (Site.mk (sidesMedia 0) sideStart) where
  lost := ⟨0, by omega, sides_lost.mpr (by omega)⟩
  readable := ⟨512, by omega, fun h => by have := sides_lost.mp h; omega⟩
  same := by
    intro i hi _
    rw [List.getElem?_replicate, if_pos hi]
    rfl

theorem extraction_kept_iff_alone :
    ∃ report run, (extractHashing someHashes (poolObject (sidesReader false) sidesDnode .little) 1024
        SparseFile.sink .zero ⟨false, false⟩ SparseFile.create startState).1 = (.ok report, run) ∧
      Kept (List.replicate 1024 7) 1024 1024 ((sidesReader false).sitesOf sidesMedia sidesPointer)
        (fun i => run.sink.file[0 * 1024 + i]?) (fun i => report.NamesBad (0 * 1024 + i)) := by
  obtain ⟨report, run, _, _, hrun, -⟩ := extractHashing_extracted someHashes (sidesReader false)
    sidesDnode .little (show 1024 < word by decide) (by decide) .zero ⟨false, false⟩ startState
  refine ⟨report, run, hrun, ?_⟩
  have hiff := extraction_kept_iff (sidesReader_images false) (sidesPointer_plain false) someHashes
    .little (show 1024 < word by decide) (show sidesDnode.datablksz ≠ 0 by decide) ⟨false, false⟩
    (startState_quiet _) (show 0 < blocksTotal sidesDnode 1024 by decide) rfl
    (List.replicate 1024 7) hrun
  refine hiff.mpr ?_
  rw [sidesReader_sites]
  have hwhole : ¬ (Site.mk (sidesMedia 0) sideStart).Whole 1024 :=
    fun h => h.1 ⟨0, by omega, rfl⟩
  refine ⟨fun s hs => ?_, _, ?_, sides_torn⟩
  · rw [List.mem_singleton.mp hs]
    exact hwhole
  · have hreaches : (Site.mk (sidesMedia 0) sideStart).Reaches sidesPointer.psize :=
      fun _ _ _ h => by cases h
    rw [List.filter_cons_of_pos (by simpa using hreaches)]
    exact FirstLeast.cons_iff.mpr (Or.inl ⟨rfl, fun _ hx => absurd hx List.not_mem_nil⟩)

/-- The stale side reads whole and is seen to be wrong, and all of the block is zeroed. -/
theorem extraction_zeroes_torn :
    ¬ ∀ (ω : Type) (r : SalvageReader ω) (D : Contents) (media : Nat → Faulty)
      (eof : IoError → Bool) (bp : BlkPtr), Images r D media eof → Plain r bp →
      ∀ (hashes : ImageHashes) (d : DnodePhys) (endian : Endian) (vol : Nat), vol < word →
        d.datablksz ≠ 0 → ∀ (extra : Extra) (s : ReaderState ω), Quiet D s →
      ∀ b, b < blocksTotal d vol → ((poolObject r d endian).locate b
          (stateAt (readVolumeBlock (poolObject r d endian) .zero) b 0 s)).1 = .ok (some bp) →
      ∀ truth : List UInt8, r.pool.verdict bp truth = .ok →
        (∀ c ∈ r.pool.copiesOf bp, ∀ raw,
          (D.io r.reader).readLeaf c.2 c.1.offset bp.psize = .ok raw →
            r.pool.verdict bp raw = .mismatch) →
        (∃ s ∈ r.sitesOf media bp,
          Torn truth bp.psize (shownLen bp d.datablksz vol b) s) →
      ∀ (report : Report) (run : Run SparseFile),
        (extractHashing hashes (poolObject r d endian) vol SparseFile.sink .zero extra
          SparseFile.create s).1 = (.ok report, run) →
        Kept truth bp.psize (shownLen bp d.datablksz vol b) (r.sitesOf media bp)
          (fun i => run.sink.file[b * d.datablksz + i]?)
          (fun i => report.NamesBad (b * d.datablksz + i)) := by
  intro h
  obtain ⟨report, run, _, _, hrun, -⟩ := extractHashing_extracted someHashes (sidesReader true)
    sidesDnode .little (show 1024 < word by decide) (by decide) .zero ⟨false, false⟩ startState
  have hb : 0 < blocksTotal sidesDnode 1024 := by decide
  have hmem : Site.mk (sidesMedia 1) sideStart ∈
      (sidesReader true).sitesOf sidesMedia sidesPointer := by
    rw [sidesReader_sites]
    exact List.mem_cons_of_mem _ List.mem_cons_self
  have hfirst : Site.mk (sidesMedia 0) sideStart ∈
      (sidesReader true).sitesOf sidesMedia sidesPointer := by
    rw [sidesReader_sites]
    exact List.mem_cons_self
  have hkept := h Unit (sidesReader true) sidesContents sidesMedia (fun _ => false) sidesPointer
    (sidesReader_images true) (sidesPointer_plain true) someHashes sidesDnode .little 1024
    (by decide) (by decide) ⟨false, false⟩ startState (startState_quiet _) 0 hb rfl
    (List.replicate 1024 7) sidesReader_verdicts.1 sidesReader_verdicts.2
    ⟨_, hfirst, sides_torn⟩ report run hrun
  obtain ⟨read, hyields, hshows⟩ := extraction_shows (sidesReader_images true)
    (sidesPointer_plain true) (by decide) someHashes .little (show 1024 < word by decide)
    (show sidesDnode.datablksz ≠ 0 by decide) ⟨false, false⟩ (startState_quiet _) hb rfl hrun
  obtain ⟨hnone, -⟩ := (hyields.kept_iff hshows (Nat.min_le_left _ _)).mp hkept
  refine hnone _ hmem ⟨?_, fun _ _ h => by cases h⟩
  rintro ⟨k, -, hbad⟩
  exact hbad

end Extract
end ZvolRescue
