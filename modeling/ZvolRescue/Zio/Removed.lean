import ZvolRescue.Ondisk.Remap
import ZvolRescue.Zio.Recovery

/-!
# Blocks on removed vdevs

The segments of a block that was on a removed vdev are read where the mapping sends them,
and every side of a mirror gives a candidate.  Way `k` joins the `k`-th candidate of every
segment, so a block is recovered exactly when one `k` is good for all of them
(`readVerifiedRemapped_iff`).
-/

namespace ZvolRescue
namespace Zio

open Lib Ondisk

/-! ## The sizes of segments -/

theorem entryFor_within {m : Mapping} {offset : Nat} {e : Entry} (h : m.entryFor offset = some e) :
    0 < e.size - (offset - e.src) := by
  obtain ⟨_, hsrc, hend⟩ := Mapping.mem_of_entryFor h
  have hendle := e.end_le
  omega

/-- The segments of a read are as long as the read. -/
theorem remapLoop_sizes (m : Mapping) :
    ∀ fuel at_ left segments, left ≤ fuel → m.remapLoop fuel at_ left = .ok segments →
      (segments.map Segment.size).sum = left := by
  intro fuel
  induction fuel with
  | zero =>
    intro at_ left segments hle h
    cases h
    show 0 = left
    omega
  | succ fuel ih =>
    intro at_ left segments hle h
    unfold Mapping.remapLoop at h
    by_cases hleft : left = 0
    · rw [if_pos hleft] at h
      cases h
      exact hleft.symm
    · rw [if_neg hleft] at h
      cases he : m.entryFor at_ with
      | none =>
        rw [he] at h
        cases h
      | some e =>
        have hwithin := entryFor_within he
        simp only [he] at h
        generalize e.size - (at_ - e.src) = room at h hwithin
        by_cases hdst : e.dstOffset + (at_ - e.src) ≥ word
        · rw [if_pos hdst] at h
          cases h
        · rw [if_neg hdst] at h
          by_cases hend : at_ + min room left ≥ word
          · rw [if_pos hend] at h
            by_cases hrest : left - min room left = 0
            · rw [if_pos hrest] at h
              cases h
              show min room left + 0 = left
              omega
            · rw [if_neg hrest] at h
              cases h
          · rw [if_neg hend] at h
            cases hrec : m.remapLoop fuel (at_ + min room left) (left - min room left) with
            | error gap =>
              rw [hrec] at h
              cases h
            | ok rest =>
              rw [hrec] at h
              cases h
              rw [List.map_cons, List.sum_cons,
                ih (at_ + min room left) (left - min room left) rest (by omega) hrec]
              show min room left + (left - min room left) = left
              omega

theorem remap_sizes {m : Mapping} {offset size : Nat} {segments : List Segment}
    (h : m.remap offset size = .ok segments) : (segments.map Segment.size).sum = size :=
  remapLoop_sizes m size offset size segments (Nat.le_refl size) h

/-! ## No candidate is too long -/

/-- A candidate gives at most `size` bytes. -/
def AtMost (size : Nat) (c : RawCandidate) : Prop := ∀ b, c.2 = .ok b → b.length ≤ size

theorem AtMost.error (size : Nat) (device : Option Nat) (e : ReadError) :
    AtMost size (device, .error e) := by
  intro b h
  cases h

section Lengths

variable {io : Io Id}

/-- No leaf read gives more than was asked for. -/
def Io.LeafAtMost (io : Io Id) : Prop :=
  ∀ device offset size b, (io.readLeaf device offset size).run = .ok b → b.length ≤ size

theorem readStripe_atMost (node : Node) (children : List (Child Id)) (offset size : Nat) :
    ∀ c ∈ (readStripe node children offset size).run, AtMost size c := by
  intro c hc
  unfold readStripe at hc
  simp only [Id.run_bind] at hc
  generalize (wholeRows node.cfg children (readRows node children offset size).run).run = out at hc
  cases out with
  | error e =>
    rw [List.mem_singleton.mp hc]
    exact AtMost.error size none e
  | ok out =>
    rw [List.mem_singleton.mp hc]
    intro b hb
    cases hb
    exact List.length_take_le size out

mutual

theorem readCandidates_atMost (hleaf : io.LeafAtMost) :
    ∀ (node : Node) (offset size : Nat), ∀ c ∈ (readCandidates io node offset size).run,
      AtMost size c
  | .leaf device guid, offset, size => by
    intro c hc
    unfold readCandidates at hc
    rw [List.mem_singleton.mp hc]
    exact hleaf device offset size
  | .mirror children, offset, size => by
    unfold readCandidates
    exact readCandidatesOfAll_atMost hleaf children offset size
  | .raidz nparity ashift children, offset, size => by
    unfold readCandidates
    exact readStripe_atMost _ _ offset size
  | .draid cfg ashift children, offset, size => by
    unfold readCandidates
    exact readStripe_atMost _ _ offset size
  | .dspare spareId, offset, size => by
    intro c hc
    unfold readCandidates at hc
    rw [List.mem_singleton.mp hc]
    exact AtMost.error size none _
  | .unsupported kind, offset, size => by
    intro c hc
    unfold readCandidates at hc
    rw [List.mem_singleton.mp hc]
    exact AtMost.error size none _

theorem readCandidatesOfAll_atMost (hleaf : io.LeafAtMost) :
    ∀ (nodes : List Node) (offset size : Nat),
      ∀ c ∈ (readCandidatesOfAll io nodes offset size).run, AtMost size c
  | [], offset, size => by
    intro c hc
    unfold readCandidatesOfAll at hc
    cases hc
  | node :: nodes, offset, size => by
    intro c hc
    unfold readCandidatesOfAll at hc
    cases List.mem_append.mp hc with
    | inl hc => exact readCandidates_atMost hleaf node offset size c hc
    | inr hc => exact readCandidatesOfAll_atMost hleaf nodes offset size c hc

end

end Lengths

/-! ## Ways -/

/-- The candidates of the segments, each at most as long as its segment. -/
abbrev FitAll (per : List (List RawCandidate)) (sizes : List Nat) : Prop :=
  List.Forall₂ (fun cs size => ∀ c ∈ cs, AtMost size c) per sizes

theorem joinWay_length_le {per : List (List RawCandidate)} {sizes : List Nat}
    (h : FitAll per sizes) (k : Nat) :
    ∀ out, Pool.joinWay k per = .ok out → out.length ≤ sizes.sum := by
  induction h with
  | nil =>
    intro out hout
    cases hout
    exact Nat.le_refl 0
  | cons hcs _ ih =>
    intro out hout
    rename_i cs size per sizes _
    unfold Pool.joinWay at hout
    cases hc : cs[min k (cs.length - 1)]? with
    | none =>
      rw [hc] at hout
      cases hout
    | some c =>
      rw [hc] at hout
      obtain ⟨device, read⟩ := c
      cases read with
      | error e => cases hout
      | ok b =>
        cases hrest : Pool.joinWay k per with
        | error e =>
          simp only [hrest] at hout
          cases hout
        | ok rest =>
          simp only [hrest] at hout
          cases hout
          have hb := hcs _ (List.mem_of_getElem? hc) b rfl
          have hr := ih rest hrest
          rw [List.length_append, List.sum_cons]
          omega

theorem ways_atMost {per : List (List RawCandidate)} {sizes : List Nat} (h : FitAll per sizes) :
    ∀ c ∈ Pool.ways per, AtMost sizes.sum c := by
  intro c hc
  obtain ⟨k, -, hk⟩ := List.mem_map.mp hc
  rw [← hk]
  exact joinWay_length_le h k

/-- Way `k` gives a piece for every segment. -/
def Gives (k : Nat) (per : List (List RawCandidate)) (pieces : List (List UInt8)) : Prop :=
  List.Forall₂ (fun cs piece => (cs[min k (cs.length - 1)]?).map Prod.snd = some (.ok piece))
    per pieces

theorem joinWay_of_gives {k : Nat} {per : List (List RawCandidate)} {pieces : List (List UInt8)}
    (h : Gives k per pieces) : Pool.joinWay k per = .ok pieces.flatten := by
  induction h with
  | nil => rfl
  | cons hc _ ih =>
    rename_i cs piece per pieces _
    obtain ⟨⟨device, read⟩, hget, hread⟩ := Option.map_eq_some_iff.mp hc
    simp only at hread
    subst hread
    unfold Pool.joinWay
    rw [hget]
    simp only [ih]
    rfl

/-- The bytes of a way, and the pieces they are put together from: no piece can be short,
since none is long. -/
theorem gives_of_joinWay {k : Nat} {per : List (List RawCandidate)} {pieces : List (List UInt8)}
    (h : FitAll per (pieces.map List.length)) (hjoin : Pool.joinWay k per = .ok pieces.flatten) :
    Gives k per pieces := by
  induction pieces generalizing per with
  | nil =>
    cases h
    exact List.Forall₂.nil
  | cons piece pieces ih =>
    cases h with
    | cons hcs hper =>
      rename_i cs per
      unfold Pool.joinWay at hjoin
      cases hc : cs[min k (cs.length - 1)]? with
      | none =>
        rw [hc] at hjoin
        cases hjoin
      | some c =>
        rw [hc] at hjoin
        obtain ⟨device, read⟩ := c
        cases read with
        | error e => cases hjoin
        | ok b =>
          cases hrest : Pool.joinWay k per with
          | error e =>
            simp only [hrest] at hjoin
            cases hjoin
          | ok rest =>
            simp only [hrest] at hjoin
            have heq : b ++ rest = piece ++ pieces.flatten := Except.ok.inj hjoin
            have hb := hcs _ (List.mem_of_getElem? hc) b rfl
            have hr := joinWay_length_le hper k rest hrest
            rw [← List.length_flatten] at hr
            have hlen := congrArg List.length heq
            rw [List.length_append, List.length_append] at hlen
            obtain ⟨hb, hr⟩ := List.append_inj heq (by omega)
            refine List.Forall₂.cons ?_ (ih hper (by rw [hrest, hr]))
            rw [hc, hb]
            rfl

/-- A way past the last takes the last candidate of every segment, as the last way does. -/
theorem Gives.clamp {k n : Nat} {per : List (List RawCandidate)} {pieces : List (List UInt8)}
    (h : Gives k per pieces) (hn : ∀ cs ∈ per, cs.length ≤ n) (hk : n ≤ k) :
    Gives (n - 1) per pieces := by
  induction h with
  | nil => exact List.Forall₂.nil
  | cons hc _ ih =>
    rename_i cs piece per pieces _
    have hlen := hn cs List.mem_cons_self
    refine List.Forall₂.cons ?_ (ih (fun cs hcs => hn cs (List.mem_cons_of_mem _ hcs)))
    rw [← hc]
    congr 2
    omega

theorem mem_ways_of_gives {k : Nat} {per : List (List RawCandidate)} {pieces : List (List UInt8)}
    (h : Gives k per pieces) (hne : pieces ≠ []) :
    ((none, .ok pieces.flatten) : RawCandidate) ∈ Pool.ways per := by
  have hmax : ∀ cs ∈ per, cs.length ≤ (per.map List.length).foldl max 0 := by
    intro cs hcs
    rw [List.foldl_max]
    have hle := List.le_max?_getD_of_mem (k := 0) (List.mem_map_of_mem (f := List.length) hcs)
    omega
  have hpos : 0 < (per.map List.length).foldl max 0 := by
    cases h with
    | nil => exact absurd rfl hne
    | cons hc _ =>
      rename_i cs piece per pieces _
      obtain ⟨c, hget, -⟩ := Option.map_eq_some_iff.mp hc
      have hlt := (List.getElem?_eq_some_iff.mp hget).1
      have hle := hmax cs List.mem_cons_self
      omega
  unfold Pool.ways
  generalize (per.map List.length).foldl max 0 = n at hmax hpos ⊢
  rw [List.mem_map]
  by_cases hk : k < n
  · exact ⟨k, List.mem_range.mpr hk, by rw [joinWay_of_gives h]⟩
  · exact ⟨n - 1, List.mem_range.mpr (by omega), by
      rw [joinWay_of_gives (h.clamp hmax (by omega))]⟩

theorem gives_of_mem_ways {per : List (List RawCandidate)} {pieces : List (List UInt8)}
    (hfit : FitAll per (pieces.map List.length)) {c : RawCandidate} (hc : c ∈ Pool.ways per)
    (hok : c.2 = .ok pieces.flatten) : ∃ k, Gives k per pieces := by
  obtain ⟨k, -, hk⟩ := List.mem_map.mp hc
  rw [← hk] at hok
  exact ⟨k, gives_of_joinWay hfit hok⟩

/-! ## Candidates through mappings -/

namespace Pool

variable (p : Pool) {io : Io Id}

theorem candidatesOn_atMost (hleaf : io.LeafAtMost)
    {remapped : Nat → Mapping → Nat → Nat → Id (List RawCandidate)}
    (hremapped : ∀ vdev mapping offset size, ∀ c ∈ (remapped vdev mapping offset size).run,
      AtMost size c) (vdev offset size : Nat) :
    ∀ c ∈ (p.candidatesOn io remapped vdev offset size).run, AtMost size c := by
  unfold candidatesOn
  cases p.locateVdev vdev with
  | none =>
    intro c hc
    rw [List.mem_singleton.mp hc]
    exact AtMost.error size none _
  | some location =>
    cases location with
    | top node => exact readCandidates_atMost hleaf node offset size
    | removed mapping => exact hremapped vdev mapping offset size

/-- The ways to read a segment, where `depth` more levels of mappings are followed. -/
def segmentCandidates (io : Io Id) (depth : Nat) (s : Segment) : List RawCandidate :=
  (p.candidatesOn io (p.remappedCandidates io depth) s.vdev s.offset s.size).run

theorem remappedCandidates_run {depth vdev offset size : Nat} {mapping : Mapping}
    {segments : List Segment} (h : mapping.remap offset size = .ok segments) :
    (p.remappedCandidates io (depth + 1) vdev mapping offset size).run =
      ways (segments.map (p.segmentCandidates io depth)) := by
  unfold remappedCandidates
  rw [h]
  show ways (segments.mapM (m := Id) _).run = _
  rw [List.idRun_mapM]
  rfl

theorem remappedCandidates_atMost (hleaf : io.LeafAtMost) :
    ∀ depth vdev mapping offset size,
      ∀ c ∈ (p.remappedCandidates io depth vdev mapping offset size).run, AtMost size c := by
  intro depth
  induction depth with
  | zero =>
    intro vdev mapping offset size c hc
    rw [List.mem_singleton.mp hc]
    exact AtMost.error size none _
  | succ depth ih =>
    intro vdev mapping offset size
    cases hremap : mapping.remap offset size with
    | error gap =>
      intro c hc
      unfold remappedCandidates at hc
      rw [hremap] at hc
      rw [List.mem_singleton.mp hc]
      exact AtMost.error size none _
    | ok segments =>
      rw [p.remappedCandidates_run hremap, ← remap_sizes hremap]
      apply ways_atMost
      rw [FitAll, List.forall₂_map_left_iff, List.forall₂_map_right_iff, List.forall₂_same]
      intro s hs
      exact p.candidatesOn_atMost hleaf ih s.vdev s.offset s.size

theorem segmentCandidates_fit (hleaf : io.LeafAtMost) (depth : Nat) (segments : List Segment) :
    FitAll (segments.map (p.segmentCandidates io depth)) (segments.map Segment.size) := by
  rw [FitAll, List.forall₂_map_left_iff, List.forall₂_map_right_iff, List.forall₂_same]
  intro s hs
  exact p.candidatesOn_atMost hleaf (p.remappedCandidates_atMost hleaf depth) s.vdev s.offset s.size

/-- Where the checksum accepts one content only, the read gives it if a candidate does. -/
theorem firstVerified_iff {dva : Dva} {bp : BlkPtr} (i : Nat) {content : List UInt8}
    (hchecksum : ∀ raw, p.verdict bp raw = if raw = content then .ok else .mismatch) :
    ∀ (candidates : List RawCandidate) (last : ReadError),
      (p.firstVerified io dva bp i last candidates).run.2 = .ok (content, .ok) ↔
        ∃ c ∈ candidates, c.2 = .ok content := by
  intro candidates
  induction candidates with
  | nil =>
    intro last
    simp [firstVerified]
  | cons c rest ih =>
    intro last
    obtain ⟨device, read⟩ := c
    cases read with
    | error e =>
      show (p.firstVerified io dva bp i e rest).run.2 = _ ↔ _
      rw [ih e]
      simp
    | ok raw =>
      unfold firstVerified
      simp only [Id.run_bind, p.verify_run, hchecksum]
      by_cases hraw : raw = content
      · simp [hraw, accept]
      · rw [if_neg hraw]
        show (p.firstVerified io dva bp i .allCopiesBad rest).run.2 = _ ↔ _
        rw [ih]
        simp [hraw]

end Pool

/-! ## Recovery through a removed vdev -/

section Recovery

variable {ω : Type} {r : Reader ω} {D : Contents}

/-- What steady devices give is as long as was asked for. -/
theorem Steady.leafAtMost (hr : Steady r D) (w : ω) : (D.io r).LeafAtMost :=
  fun _ _ _ _ h => Nat.le_of_eq (hr.length_of_readLeaf w h)

/-- The ways to read a segment of a removed vdev, one for each side of a mirror. -/
def Contents.segmentCandidates (D : Contents) (r : Reader ω) (s : Segment) : List RawCandidate :=
  r.pool.segmentCandidates (D.io r) (Pool.maxDepth - 1) s

/-- A block that was on a removed vdev comes back exactly when for some `k` the `k`-th
candidate of every segment, or its last where it has fewer, gives the segment's bytes. -/
theorem readVerifiedRemapped_iff (hr : Steady r D) {s : ReaderState ω} (hs : Quiet D s)
    {dva : Dva} {mapping : Mapping} {bp : BlkPtr} (i : Nat) (hpos : 0 < bp.psize)
    {segments : List Segment} (hremap : mapping.remap dva.offset bp.psize = .ok segments)
    {pieces : List (List UInt8)} (hsized : pieces.map List.length = segments.map Segment.size)
    (hchecksum : ∀ raw,
      r.pool.verdict bp raw = if raw = pieces.flatten then .ok else .mismatch) :
    (r.pool.readVerifiedRemapped r.io dva mapping bp i s).1.2 = .ok (pieces.flatten, .ok) ↔
      ∃ k, Gives k (segments.map (D.segmentCandidates r)) pieces := by
  have hne : pieces ≠ [] := by
    intro h
    rw [h, List.map_nil] at hsized
    have hsum := remap_sizes hremap
    rw [← hsized] at hsum
    simp only [List.sum_nil] at hsum
    omega
  have hfit := r.pool.segmentCandidates_fit (hr.leafAtMost s.world) (Pool.maxDepth - 1) segments
  rw [← hsized] at hfit
  rw [(r.pool.readVerifiedRemapped_refines hr.io_refines dva mapping bp i).run hs]
  show (r.pool.firstVerified (D.io r) dva bp i .noMember
    (r.pool.remappedCandidates (D.io r) (8 + 1) dva.vdev mapping dva.offset bp.psize).run).run.2 = _ ↔ _
  rw [r.pool.remappedCandidates_run hremap, r.pool.firstVerified_iff i hchecksum]
  constructor
  · intro h
    obtain ⟨c, hc, hok⟩ := h
    exact gives_of_mem_ways hfit hc hok
  · intro h
    obtain ⟨k, hk⟩ := h
    exact ⟨_, mem_ways_of_gives hk hne, rfl⟩

end Recovery

/-! ## Two mirrors with a dead side each -/

def splitPieces : List (List UInt8) := [List.replicate 512 0, List.replicate 512 0]

/-- A pool of two mirrors, the second of them turned over where `turned`, onto which a
vdev was removed. -/
def mirrorsPool (turned : Bool) : Pool :=
  { knowingPool (.mirror []) splitPieces.flatten with
    tops := [(0, .mirror [.leaf (some 0) 1, .leaf none 2]),
      (1, .mirror (if turned then [.leaf none 3, .leaf (some 1) 4]
        else [.leaf (some 1) 3, .leaf none 4]))] }

def mirrorsReader (turned : Bool) : Reader Unit :=
  { devices := [some (filledWith 0), some (filledWith 0)]
    bases := []
    pool := mirrorsPool turned }

theorem mirrorsReader_steady (turned : Bool) : Steady (mirrorsReader turned) blankContents where
  answer := blankReader_steady.answer
  goesOn := blankReader_steady.goesOn

/-- A sector went to the first mirror, and the next one to the second. -/
def splitMapping : Mapping :=
  { entries := [{ src := 0, size := 512, dstVdev := 0, dstOffset := 0 },
      { src := 512, size := 512, dstVdev := 1, dstOffset := 0 }]
    sorted := by simp }

def splitSegments : List Segment :=
  [{ vdev := 0, offset := 0, size := 512 }, { vdev := 1, offset := 0, size := 512 }]

theorem readVerifiedRemapped_iff_split :
    ((mirrorsReader false).pool.readVerifiedRemapped (mirrorsReader false).io startDva splitMapping
      (knownPointer 1024) 0 startState).1.2 = .ok (splitPieces.flatten, .ok) := by
  have hremap : splitMapping.remap startDva.offset (knownPointer 1024).psize =
      .ok splitSegments := by decide
  refine (readVerifiedRemapped_iff (mirrorsReader_steady false) (startState_quiet _) 0 (by decide)
    hremap (by decide +kernel) ?_).mpr ⟨0, ?_⟩
  · intro raw
    exact knowingPool_verdict (.mirror []) _ raw 1024
  · exact List.Forall₂.cons rfl (List.Forall₂.cons rfl List.Forall₂.nil)

/-- Both sectors are on a live side, but not on the same one. -/
theorem readVerifiedRemapped_loses :
    ¬ ∀ (ω : Type) (r : Reader ω) (D : Contents), Steady r D → ∀ s, Quiet D s →
      ∀ (dva : Dva) (mapping : Mapping) (bp : BlkPtr) (i : Nat), 0 < bp.psize →
      ∀ segments, mapping.remap dva.offset bp.psize = .ok segments →
      ∀ pieces : List (List UInt8), pieces.map List.length = segments.map Segment.size →
        (∀ raw, r.pool.verdict bp raw = if raw = pieces.flatten then .ok else .mismatch) →
        (∀ seg piece, (seg, piece) ∈ segments.zip pieces →
          ∃ c ∈ D.segmentCandidates r seg, c.2 = .ok piece) →
        (r.pool.readVerifiedRemapped r.io dva mapping bp i s).1.2 = .ok (pieces.flatten, .ok) := by
  intro h
  have hok := h Unit (mirrorsReader true) blankContents (mirrorsReader_steady true) startState
    (startState_quiet _) startDva splitMapping (knownPointer 1024) 0 (by decide) splitSegments
    (by decide) splitPieces (by decide +kernel)
    (fun raw => knowingPool_verdict (.mirror []) _ raw 1024) (by
      intro seg piece hmem
      cases hmem with
      | head => exact ⟨_, List.mem_cons_self, rfl⟩
      | tail _ hmem =>
        cases hmem with
        | head => exact ⟨_, List.mem_cons_of_mem _ List.mem_cons_self, rfl⟩
        | tail _ hmem => cases hmem)
  have herr : ((mirrorsReader true).pool.readVerifiedRemapped
      (blankContents.io (mirrorsReader true)) startDva splitMapping (knownPointer 1024)
      0).run.2.toOption = none := by decide
  rw [((mirrorsReader true).pool.readVerifiedRemapped_refines
    (mirrorsReader_steady true).io_refines startDva splitMapping (knownPointer 1024) 0).run
    (startState_quiet _)] at hok
  rw [hok] at herr
  cases herr

end Zio
end ZvolRescue
