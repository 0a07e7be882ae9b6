import ZvolRescue.Zio.Copies
import ZvolRescue.Zio.Members

/-!
# Members that are images

An image gives its bytes but for some that are bad, and what it gives does not change.  Over
images a block whose copies are on disks and mirrors fails with an i/o error where a copy is there
and none reads whole (`Images.readBlock_io`).  A salvage is then that of the first of the copies
that lose the fewest bytes (`Images.salvageDva_best`).
-/

namespace ZvolRescue
namespace Zio

open Lib Ondisk Source

/-! ## Sites -/

/-- What remains of a copy, and the ranges that are lost of it. -/
abbrev Remains := List UInt8 × List (Nat × Nat)

/-- Where a copy lies on an image. -/
structure Site where
  medium : Faulty
  start : Nat

namespace Site

variable (s : Site) (len : Nat)

/-- The sector of byte `i` of the copy does not read. -/
def Lost (i : Nat) : Prop := s.medium.Lost s.start len i

def Whole : Prop :=
  ¬ s.medium.Touches s.start len ∧ ∀ i < len, s.medium.byte (s.start + i) ≠ none

/-- The image does not end within what is not lost. -/
def Reaches : Prop := ∀ i < len, ¬ s.Lost len i → s.medium.byte (s.start + i) ≠ none

/-- How many bytes of the copy are lost. -/
noncomputable def lostCount : Nat := s.medium.lostCount s.start len

/-- What a salvage of the copy gives. -/
abbrev Salvaged (found : Remains) : Prop :=
  s.medium.Salvaged s.start len len found.1 found.2

variable {s len}

/-- What loses no sector reads whole. -/
theorem lostCount_pos (hreaches : s.Reaches len) (h : ¬ s.Whole len) : 0 < s.lostCount len := by
  classical
  rw [Nat.pos_iff_ne_zero]
  intro hzero
  rw [lostCount, Faulty.lostCount, List.countP_eq_zero] at hzero
  have hclean : ∀ i < len, ¬ s.Lost len i := by
    intro i hi hlost
    exact hzero i (List.mem_range.mpr hi) (decide_eq_true hlost)
  refine h ⟨?_, fun i hi => hreaches i hi (hclean i hi)⟩
  rintro ⟨k, hk, hbad⟩
  exact hclean k hk ⟨k, hk, hbad, rfl⟩

theorem Salvaged.reaches {found : Remains} (h : s.Salvaged len found) :
    s.Reaches len := by
  intro i hi hnot hnone
  have hsame := h.same i hi hnot
  rw [hnone, List.getElem?_eq_none_iff, h.length] at hsame
  omega

end Site

/-! ## Images -/

variable {ω : Type}

/-- The members of `r` are images that hold `media`, and answer from `D`. -/
structure Images (r : SalvageReader ω) (D : Contents) (media : Nat → Faulty)
    (eof : IoError → Bool) : Prop where
  image : ∀ index dev, r.sources.getD index none = some dev →
    ∃ base, dev = SalvageSource.image base eof
  answer : ∀ index dev, r.sources.getD index none = some dev → ∀ offset size w,
    (dev.readAt offset size w).1 = D index offset size
  holds : ∀ index offset size,
    (media index).Answers eof (fun e => e.incident = none) offset size (D index offset size)
  /-- An image refuses nothing. -/
  incident : ∀ index offset size e, D index offset size = .error e → e.incident = none

namespace SalvageReader

variable (r : SalvageReader ω) (media : Nat → Faulty)

/-- The site of a copy, where its member is there. -/
def siteOf (c : Side) : Option Site :=
  (r.source c.2).map (fun e =>
    { medium := media e.1, start := r.reader.byteOffset e.1 c.1.offset })

/-- The copies of a block that are there, in the order in which they are read. -/
def sitesOf (bp : BlkPtr) : List Site := (r.pool.copiesOf bp).filterMap (r.siteOf media)

end SalvageReader

namespace Images

variable {r : SalvageReader ω} {D : Contents} {media : Nat → Faulty} {eof : IoError → Bool}

theorem steady (h : Images r D media eof) : Steady r.reader D where
  answer := by
    intro index dev hdev offset size w
    have hsource : (r.sources.map (Option.map SalvageSource.toBlockSource)).getD index none =
        some dev := hdev
    rw [List.getD_eq_getElem?_getD, List.getElem?_map] at hsource
    cases hget : r.sources[index]? with
    | none => simp [hget] at hsource
    | some source =>
      cases source with
      | none => simp [hget] at hsource
      | some source =>
        simp only [hget, Option.map_some, Option.getD_some, Option.some.injEq] at hsource
        rw [← hsource]
        exact h.answer index source (by rw [List.getD_eq_getElem?_getD, hget]; rfl) offset size w
  goesOn := by
    intro index offset size e he
    rw [h.incident index offset size e he]
    intro h
    cases h

/-- What a read of a copy comes to. -/
theorem readLeaf (h : Images r D media eof) (c : Side) {len : Nat} (hlen : 0 < len) :
    match r.siteOf media c with
    | none => (D.io r.reader).readLeaf c.2 c.1.offset len = .error .noMember
    | some s =>
      (s.Whole len ∧ ∃ raw, (D.io r.reader).readLeaf c.2 c.1.offset len = .ok raw) ∨
        ¬ s.Whole len ∧ ∃ text, (D.io r.reader).readLeaf c.2 c.1.offset len = .error (.io text) := by
  rw [SalvageReader.siteOf]
  unfold Contents.io
  dsimp only
  rw [r.reader_device]
  cases r.source c.2 with
  | none => rfl
  | some entry =>
    obtain ⟨index, dev⟩ := entry
    simp only [Option.map_some]
    have hholds := h.holds index (r.reader.byteOffset index c.1.offset) len
    cases hD : D index (r.reader.byteOffset index c.1.offset) len with
    | ok raw =>
      rw [hD] at hholds
      obtain ⟨hclean, hlength, hbyte⟩ := hholds
      refine Or.inl ⟨⟨hclean, fun i hi hnone => ?_⟩, raw, rfl⟩
      have hsame := hbyte i hi
      rw [hnone, List.getElem?_eq_none_iff] at hsame
      omega
    | error e =>
      refine Or.inr ⟨?_, e.text, ?_⟩
      · rw [hD, Faulty.Answers] at hholds
        rintro ⟨hclean, hthere⟩
        by_cases heof : eof e = true
        · rw [if_pos heof] at hholds
          obtain ⟨-, -, hzero | ⟨i, hi, hnone⟩⟩ := hholds
          · omega
          · exact hthere i hi hnone
        · rw [if_neg heof] at hholds
          exact hclean hholds
      · show Except.error (ioError e) = _
        rw [ioError, h.incident index _ _ e hD]

end Images

/-! ## The read of a block -/

/-- The reads of a block's copies, one for each of them. -/
theorem copyReads_eq (p : Pool) (io : Io Id) (bp : BlkPtr) :
    p.copyReads io bp.psize bp.dvas =
      (p.copiesOf bp).map (fun c => io.readLeaf c.2 c.1.offset bp.psize) := by
  rw [Pool.copyReads, Pool.copiesOf, List.map_flatMap]
  simp only [Pool.leafReads, List.map_map]
  rfl

namespace Images

variable {r : SalvageReader ω} {D : Contents} {media : Nat → Faulty} {eof : IoError → Bool}
  {bp : BlkPtr}

/-- A read of a copy comes from a site, or the member is not there. -/
theorem read_cases (h : Images r D media eof) (hlen : 0 < bp.psize)
    {read : Except ReadError (List UInt8)}
    (hread : read ∈ r.pool.copyReads (D.io r.reader) bp.psize bp.dvas) :
    read = .error .noMember ∨ ∃ s ∈ r.sitesOf media bp,
      (s.Whole bp.psize ∧ ∃ raw, read = .ok raw) ∨
        ¬ s.Whole bp.psize ∧ ∃ text, read = .error (.io text) := by
  rw [copyReads_eq] at hread
  obtain ⟨c, hc, rfl⟩ := List.mem_map.mp hread
  have hleaf := h.readLeaf c hlen
  cases hsite : r.siteOf media c with
  | none =>
    rw [hsite] at hleaf
    exact Or.inl hleaf
  | some s =>
    rw [hsite] at hleaf
    exact Or.inr ⟨s, List.mem_filterMap.mpr ⟨c, hc, hsite⟩, hleaf⟩

/-- Every site is read. -/
theorem read_of_site (h : Images r D media eof) (hlen : 0 < bp.psize) {s : Site}
    (hs : s ∈ r.sitesOf media bp) :
    ∃ read ∈ r.pool.copyReads (D.io r.reader) bp.psize bp.dvas,
      (s.Whole bp.psize ∧ ∃ raw, read = .ok raw) ∨
        ¬ s.Whole bp.psize ∧ ∃ text, read = .error (.io text) := by
  obtain ⟨c, hc, hsite⟩ := List.mem_filterMap.mp hs
  have hleaf := h.readLeaf c hlen
  rw [hsite] at hleaf
  refine ⟨_, ?_, hleaf⟩
  rw [copyReads_eq]
  exact List.mem_map.mpr ⟨c, hc, rfl⟩

theorem readBlock_whole (h : Images r D media eof) (hcopied : r.pool.Copied bp)
    (hlen : 0 < bp.psize) {block : Block}
    (hblock : (r.pool.readBlock (D.io r.reader) bp false).run = .ok block) :
    ∃ s ∈ r.sitesOf media bp, s.Whole bp.psize := by
  obtain ⟨raw, hraw⟩ := hcopied.readBlock_ok rfl false hblock
  rcases h.read_cases hlen hraw with heq | ⟨s, hs, ⟨hwhole, -⟩ | ⟨-, text, heq⟩⟩
  · cases heq
  · exact ⟨s, hs, hwhole⟩
  · cases heq

/-- The block fails with an i/o error where a copy is there and none reads whole. -/
theorem readBlock_io (h : Images r D media eof) (hcopied : r.pool.Copied bp) (hlen : 0 < bp.psize)
    (hwhole : ∀ s ∈ r.sitesOf media bp, ¬ s.Whole bp.psize) (hsome : r.sitesOf media bp ≠ []) :
    ∃ text, (r.pool.readBlock (D.io r.reader) bp false).run = .error (.io text) := by
  apply hcopied.readBlock_io rfl false
  · intro read hread
    rcases h.read_cases hlen hread with rfl | ⟨s, hs, ⟨hs', -⟩ | ⟨-, text, rfl⟩⟩
    · exact ⟨_, rfl, Or.inl rfl⟩
    · exact absurd hs' (hwhole s hs)
    · exact ⟨_, rfl, Or.inr ⟨text, rfl⟩⟩
  · obtain ⟨s, hs⟩ := List.exists_mem_of_ne_nil _ hsome
    obtain ⟨read, hread, ⟨hs', -⟩ | ⟨-, text, rfl⟩⟩ := h.read_of_site hlen hs
    · exact absurd hs' (hwhole s hs)
    · exact ⟨text, hread⟩

/-- Otherwise it does not, and nothing stops the run. -/
theorem readBlock_settled (h : Images r D media eof) (hcopied : r.pool.Copied bp)
    (hlen : 0 < bp.psize)
    (hcase : (∃ s ∈ r.sitesOf media bp, s.Whole bp.psize) ∨ r.sitesOf media bp = []) :
    ∀ e, (r.pool.readBlock (D.io r.reader) bp false).run = .error e → e.Settled := by
  apply hcopied.readBlock_settled rfl false
  rcases hcase with ⟨s, hs, hwhole⟩ | hnone
  · obtain ⟨read, hread, ⟨-, raw, rfl⟩ | ⟨hs', -⟩⟩ := h.read_of_site hlen hs
    · exact Or.inl ⟨raw, hread⟩
    · exact absurd hwhole hs'
  · refine Or.inr (fun read hread => ?_)
    rcases h.read_cases hlen hread with heq | ⟨s, hs, -⟩
    · exact heq
    · rw [hnone] at hs
      exact absurd hs List.not_mem_nil

end Images

/-! ## The best copy -/

open scoped Classical in
/-- What is kept of the first of the sites that lose the fewest bytes; nothing if every image
ends within its copy. -/
def Best (len : Nat) (sites : List Site) : Option Remains → Prop
  | none => ∀ s ∈ sites, ¬ s.Reaches len
  | some found => ∃ s,
    FirstLeast (fun s => s.lostCount len) (sites.filter (fun s => s.Reaches len)) s ∧
      s.Salvaged len found

/-- The one that lost fewer bytes, or else the one before. -/
def weigh (best : Option Remains) : Option Remains → Option Remains
  | none => best
  | some found =>
    if (match best with
      | none => true
      | some b => decide (lostBytes found.2 < lostBytes b.2)) then some found else best

namespace Best

variable {len : Nat} {sites more : List Site} {best found : Option Remains}

theorem of_reaches {s : Site} {kept : Remains} (h : s.Salvaged len kept) :
    Best len [s] (some kept) := by
  refine ⟨s, ?_, h⟩
  rw [List.filter_cons_of_pos (by simpa using h.reaches)]
  exact FirstLeast.cons_iff.mpr (Or.inl ⟨rfl, fun _ hx => absurd hx List.not_mem_nil⟩)

/-- What more sites add. -/
theorem append (h : Best len sites best) (hmore : Best len more found) :
    Best len (sites ++ more) (weigh best found) := by
  classical
  cases found with
  | none =>
    cases best with
    | none =>
      intro s hs
      rcases List.mem_append.mp hs with hs | hs
      · exact h s hs
      · exact hmore s hs
    | some b =>
      obtain ⟨s, hs, hkept⟩ := h
      refine ⟨s, ?_, hkept⟩
      rw [List.filter_append]
      apply hs.append_left
      intro t ht
      obtain ⟨ht, hreaches⟩ := List.mem_filter.mp ht
      exact absurd (by simpa using hreaches) (hmore t ht)
  | some f =>
    obtain ⟨t, ht, hfound⟩ := hmore
    cases best with
    | none =>
      refine ⟨t, ?_, hfound⟩
      rw [List.filter_append]
      apply ht.append_right
      intro x hx
      obtain ⟨hx, hreaches⟩ := List.mem_filter.mp hx
      exact absurd (by simpa using hreaches) (h x hx)
    | some b =>
      obtain ⟨s, hs, hkept⟩ := h
      have hlost : lostBytes f.2 = t.lostCount len := hfound.lostBytes_eq
      have hlost' : lostBytes b.2 = s.lostCount len := hkept.lostBytes_eq
      simp only [weigh]
      by_cases hlt : lostBytes f.2 < lostBytes b.2
      · rw [if_pos (by simpa using hlt)]
        refine ⟨t, ?_, hfound⟩
        rw [List.filter_append]
        apply ht.append_right
        intro x hx
        have hle : s.lostCount len ≤ x.lostCount len := hs.le x hx
        omega
      · rw [if_neg (by simpa using hlt)]
        refine ⟨s, ?_, hkept⟩
        rw [List.filter_append]
        apply hs.append_left
        intro x hx
        have hle : t.lostCount len ≤ x.lostCount len := ht.le x hx
        omega

end Best

/-! ## A salvage -/

namespace SalvageReader

/-- The copies of a DVA that are there. -/
def sitesAt (r : SalvageReader ω) (media : Nat → Faulty) (dva : Dva) : List Site :=
  (r.pool.sidesOf dva).filterMap (fun device => r.siteOf media (dva, device))

theorem sitesOf_eq (r : SalvageReader ω) (media : Nat → Faulty) (bp : BlkPtr) :
    r.sitesOf media bp = bp.dvas.flatMap (r.sitesAt media) := by
  rw [sitesOf, Pool.copiesOf, List.filterMap_flatMap]
  simp only [List.filterMap_map]
  rfl

end SalvageReader

namespace Images

variable {r : SalvageReader ω} {D : Contents} {media : Nat → Faulty} {eof : IoError → Bool}

/-- A salvage of one copy. -/
theorem salvageLeaf_best (h : Images r D media eof) (dva : Dva) (device : Option Nat) (len : Nat) :
    Keeps (Quiet D) (r.salvageLeaf device dva.offset len)
      (fun found => 0 < len → Best len (r.siteOf media (dva, device)).toList found.toOption) := by
  intro s hs
  rw [SalvageReader.salvageLeaf, SalvageReader.siteOf]
  cases hsource : r.source device with
  | none => exact ⟨fun _ _ hs => absurd hs List.not_mem_nil, hs⟩
  | some entry =>
    obtain ⟨index, dev⟩ := entry
    have hget : r.sources.getD index none = some dev := by
      cases device with
      | none => cases hsource
      | some i =>
        simp only [SalvageReader.source, Option.bind_some, Option.map_eq_some_iff,
          Prod.mk.injEq] at hsource
        obtain ⟨d, hd, rfl, rfl⟩ := hsource
        exact hd
    simp only [Option.map_some, Option.toList_some]
    have hstop : (s.countRead index).mediumStop = none := hs.running
    have hcache : (s.countRead index).cache = s.cache := rfl
    simp only [hstop, hcache]
    generalize r.reader.byteOffset index dva.offset = start
    cases hhit : s.cache.get index start len with
    | some hit =>
      have hholds := h.holds index start len
      rw [hs.cached index start len hit hhit] at hholds
      exact ⟨fun _ => Best.of_reaches (Faulty.exact_of_read hholds), hs.running, hs.cached⟩
    | none =>
      obtain ⟨base, rfl⟩ := h.image index dev hget
      have hsame : ∀ a n w, (base.readAt a n w).1 = D index a n := h.answer index _ hget
      have hread : ∀ a n, Keeps (fun _ : ω => True) (base.readAt a n)
          ((media index).Answers eof (fun e => e.incident = none) a n) := by
        intro a n w _
        rw [hsame]
        exact ⟨h.holds index a n, True.intro⟩
      have hsalvage : (SalvageSource.image base eof).readAtSalvaging start len =
          salvage (m := StateM ω) base.readAt eof start len := rfl
      have hexact : (media index).Exact eof (fun e => e.incident = none) start len
          (salvage (m := StateM ω) base.readAt eof start len (s.countRead index).world).1 :=
        (salvage_exact hread (s.countRead index).world True.intro).1
      have hwhole : ∀ b, (salvage (m := StateM ω) base.readAt eof start len
          (s.countRead index).world).1 = .ok (b, []) → D index start len = .ok b :=
        fun b hb => salvage_of_whole hsame (h.holds index) hb
      simp only [hsalvage]
      generalize salvage (m := StateM ω) base.readAt eof start len (s.countRead index).world = found
        at hexact hwhole ⊢
      obtain ⟨result, w⟩ := found
      cases result with
      | error e =>
        obtain ⟨-, hincident, hends⟩ := hexact
        simp only
        rw [ReaderState.noteError_eq (by rw [hincident]; simp)]
        refine ⟨?_, rfl, hs.cached⟩
        intro hlen t ht hreaches
        cases List.mem_singleton.mp ht
        rcases hends with hzero | ⟨i, hi, hnot, hnone⟩
        · omega
        · exact hreaches i hi hnot hnone
      | ok kept =>
        refine ⟨fun _ => Best.of_reaches hexact, rfl, ?_⟩
        obtain ⟨bytes, bad⟩ := kept
        intro index' at' size' b' hget'
        simp only at hget'
        by_cases hbad : bad = []
        · rw [if_pos hbad] at hget'
          rcases ReadCache.get_put hget' with hold | ⟨hkey, rfl⟩
          · exact hs.cached index' at' size' b' hold
          · subst hbad
            have hlength : b'.length = len := hexact.length
            simp only [Prod.mk.injEq, hlength] at hkey
            obtain ⟨rfl, rfl, rfl⟩ := hkey
            exact hwhole b' rfl
        · rw [if_neg hbad] at hget'
          exact hs.cached index' at' size' b' hget'

/-- Salvages keep the reader quiet. -/
theorem related (h : Images r D media eof) :
    SalvageReader.Related (Keeps.related (Quiet D)) r r where
  pool := rfl
  io :=
    { readLeaf := fun device offset size =>
        ⟨rfl, (h.steady.readLeaf_refines device offset size).mono (fun _ _ => True.intro)⟩
      noteMismatch := ⟨rfl, h.steady.io_refines.noteMismatch.mono (fun _ _ => True.intro)⟩
      mediumStop := ⟨rfl, h.steady.io_refines.mediumStop.mono (fun _ _ => True.intro)⟩ }
  salvageLeaf := fun device offset size =>
    ⟨rfl, (h.salvageLeaf_best { Dva.empty with offset } device size).mono
      (fun _ _ => True.intro)⟩

/-- A salvage of copies one after another, where none reads whole. -/
theorem salvageLeaves_best (h : Images r D media eof) (dva : Dva) {len : Nat} (hlen : 0 < len)
    (leaves : List (Option Nat)) :
    ∀ (before : List Site) (best : Option Remains) (last : ReadError), Best len before best →
      (∀ s ∈ leaves.filterMap (fun device => r.siteOf media (dva, device)), ¬ s.Whole len) →
      Keeps (Quiet D) (r.salvageLeaves dva.offset len best last leaves) (fun found =>
        Best len (before ++ leaves.filterMap (fun device => r.siteOf media (dva, device)))
          found.toOption) := by
  induction leaves with
  | nil =>
    intro before best last hbest _
    rw [List.filterMap_nil, List.append_nil]
    apply Keeps.pure
    cases best with
    | none => exact hbest
    | some b => exact hbest
  | cons device rest ih =>
    intro before best last hbest hwhole
    rw [SalvageReader.salvageLeaves]
    have hsplit : (device :: rest).filterMap (fun device => r.siteOf media (dva, device)) =
        (r.siteOf media (dva, device)).toList ++
          rest.filterMap (fun device => r.siteOf media (dva, device)) := by
      rw [List.filterMap_cons]
      cases r.siteOf media (dva, device) <;> rfl
    rw [hsplit] at hwhole ⊢
    rw [← List.append_assoc]
    apply Keeps.bind (h.salvageLeaf_best dva device len)
    intro found hfound
    replace hfound := hfound hlen
    have hnext := hbest.append hfound
    have hrest := fun s hs => hwhole s (List.mem_append_right _ hs)
    cases found with
    | error e => exact ih _ best e hnext hrest
    | ok found =>
      obtain ⟨s, hs, hkept⟩ := hfound
      have hmem : s ∈ (r.siteOf media (dva, device)).toList := List.mem_of_mem_filter hs.mem
      have hpos := Site.lostCount_pos hkept.reaches (hwhole s (List.mem_append_left _ hmem))
      have hlost : lostBytes found.2 = s.lostCount len := hkept.lostBytes_eq
      simp only
      rw [if_neg (by omega)]
      exact ih _ _ last hnext hrest

/-- A salvage of a DVA keeps what it can of the first of its copies that lose the fewest
bytes. -/
theorem salvageDva_best (h : Images r D media eof) {dva : Dva} (hdva : r.pool.Mirrored dva)
    {len : Nat} (hlen : 0 < len) (hwhole : ∀ s ∈ r.sitesAt media dva, ¬ s.Whole len) :
    Keeps (Quiet D) (r.salvageDva dva len)
      (fun found => Best len (r.sitesAt media dva) found.toOption) := by
  obtain ⟨hplain, node, leaves, hlocate, hleaves⟩ := hdva
  have hsides : r.pool.sidesOf dva = leaves := by
    rw [Pool.sidesOf, hlocate]
    simp only [hleaves, Option.getD_some]
  rw [SalvageReader.sitesAt, hsides] at hwhole ⊢
  rw [SalvageReader.salvageDva, hlocate, if_neg (by simp [hplain])]
  simp only [hleaves]
  exact h.salvageLeaves_best dva hlen leaves [] none .noMember
    (fun _ hs => absurd hs List.not_mem_nil) hwhole

end Images

end Zio
end ZvolRescue
