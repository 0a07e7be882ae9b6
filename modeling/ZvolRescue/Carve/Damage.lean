import ZvolRescue.Carve.Chunks

/-!
# What a bad sector costs a scan

A chunk is read together with a tail that lies past its end, and all of it is skipped where the
read fails.  A chunk that can be read is lost with a bad byte in its tail, so a bad byte costs no
more than its own chunk exactly where no tail of a chunk with a candidate has one
(`costsItsChunk_iff`).
-/

namespace ZvolRescue
namespace Carve
namespace Member

open Lib Ondisk Source

/-! ## Chunks and candidates -/

section Damage

variable (c : Codecs) (m : Medium) (bad : Nat → Bool) (device ashift : Nat) (opts : Options)

def Options.withCap (opts : Options) (maxHits : Nat) : Options := { opts with maxHits }

/-- The scan of a member of which the bytes that are `bad` cannot be read, to its end. -/
def damagedScan (maxHits : Nat) : Option Scan :=
  scanMember c (damaged m bad) device ashift (opts.withCap maxHits) (fun _ => false) (m.size + 1)

/-- Bytes of the chunk at `k`. -/
def chunkEnd (k : Nat) : Nat := k + ownOf opts (endOf opts m) k

/-- A chunk of the scan begins at `k`, and every byte of it can be read. -/
structure SoundChunk (k : Nat) : Prop where
  chunk : ∃ q, k = startOf opts m + q * opts.chunk
  start_lt : k < endOf opts m
  sound : ∀ x, k ≤ x → x < chunkEnd m opts k → bad x = false

/-- The dnode at `p` is a candidate, and all its bytes lie in the chunk at `k`. -/
structure CandidateIn (k p : Nat) (h : Hit) : Prop where
  le : k ≤ p
  step : (p - k) % dnodeSize = 0
  whole : p + claimedAt m p ≤ chunkEnd m opts k
  hit : .hit h ∈ wholeSlot opts device m p

/-- A scan comes to an end, and it records every candidate of every chunk that can be read unless
there are more than it has room for. -/
def CostsItsChunk : Prop :=
  (0 < opts.chunk → ∀ maxHits, (damagedScan c m bad device ashift opts maxHits).isSome) ∧
    ∀ maxHits s, damagedScan c m bad device ashift opts maxHits = some s →
      ∀ k p h, SoundChunk m bad opts k → CandidateIn m device opts k p h →
        h ∈ s.hits ∨ s.stoppedEarly = true

/-- No chunk with a candidate has a bad byte in its tail and none before it. -/
def TailsSound : Prop :=
  ∀ k, SoundChunk m bad opts k → (∃ p h, CandidateIn m device opts k p h) →
    ∀ x, chunkEnd m opts k ≤ x → x < k + readable (ofMedium m) opts (endOf opts m) k →
      bad x = false

variable {c m bad device ashift opts}

/-- What is met of a chunk is what its slots hold. -/
theorem CandidateIn.mem_eventsAt {k p : Nat} {h : Hit} (hin : CandidateIn m device opts k p h) :
    .hit h ∈ eventsAt opts m c device ashift (endOf opts m) k := by
  obtain ⟨i, hi⟩ := Nat.dvd_of_mod_eq_zero hin.step
  have hle := hin.le
  have hwhole := hin.whole
  have hclaimed : dnodeSize ≤ claimedAt m p := DnodePhys.dnodeSize_le_claimed
  have hend : endOf opts m ≤ m.size := endOf_le
  have hp : p = k + i * dnodeSize := by
    rw [Nat.mul_comm]
    omega
  rw [chunkEnd] at hwhole
  refine (Member.mem_eventsAt endOf_le).mpr (Or.inl ⟨i, by omega, ?_⟩)
  have hown : ownOf opts (endOf opts m) k ≤ endOf opts m - k := Nat.min_le_right _ _
  rw [← hp, mem_slotAt_of_dnode rfl, slotEvents_slice (by omega) (by omega), if_pos (by omega)]
  exact hin.hit

/-- What is met of another chunk is not the candidate. -/
theorem CandidateIn.chunk_eq {k k' p : Nat} {h : Hit} (hin : CandidateIn m device opts k p h)
    (hk : ∃ q, k = startOf opts m + q * opts.chunk)
    (hk' : ∃ q, k' = startOf opts m + q * opts.chunk)
    (hmet : .hit h ∈ eventsAt opts m c device ashift (endOf opts m) k') : k' = k := by
  have hle := hin.le
  have hwhole := hin.whole
  have hclaimed : dnodeSize ≤ claimedAt m p := DnodePhys.dnodeSize_le_claimed
  have hslot : 0 < dnodeSize := by decide
  have hown : ∀ k, ownOf opts (endOf opts m) k ≤ opts.chunk := fun k => Nat.min_le_left _ _
  obtain ⟨hoffset, hfound, -⟩ := of_mem_slotEvents hin.hit
  rcases (Member.mem_eventsAt endOf_le).mp hmet with ⟨i, hi, he⟩ | ⟨-, j, -, he⟩
  · obtain ⟨hoffset', -⟩ := of_mem_slotAt he
    obtain ⟨q, rfl⟩ := hk
    obtain ⟨q', rfl⟩ := hk'
    have hp : startOf opts m + q' * opts.chunk + i * dnodeSize = p := hoffset'.symm.trans hoffset
    have hbase : chunkBase (startOf opts m) opts.chunk p = startOf opts m + q' * opts.chunk := by
      rw [← hp]
      exact chunkBase_add (by have := hown (startOf opts m + q' * opts.chunk); omega)
    have hoff : p = startOf opts m + q * opts.chunk + (p - (startOf opts m + q * opts.chunk)) := by
      omega
    rw [← hbase, hoff]
    rw [chunkEnd] at hwhole
    exact chunkBase_add (by have := hown (startOf opts m + q * opts.chunk); omega)
  · exact absurd hfound (of_mem_blockAt he).2

/-! ## What a scan records -/

/-- Where the chunks begin that are read. -/
def starts (m : Medium) (opts : Options) : List Nat :=
  chunkStarts opts m (endOf opts m) (m.size + 1) (startOf opts m)

theorem mem_starts (hchunk : 0 < opts.chunk) {k : Nat} :
    k ∈ starts m opts ↔
      ∃ q, k = startOf opts m + q * opts.chunk ∧ k < endOf opts m ∧ dnodeSize ≤ m.size - k := by
  have hend : endOf opts m ≤ m.size := endOf_le
  exact mem_chunkStarts hchunk _ _ (by omega)

/-- All that is met of a member. -/
def metEvents (c : Codecs) (m : Medium) (bad : Nat → Bool) (device ashift : Nat) (opts : Options) :
    List Event :=
  (starts m opts).flatMap (metAt opts m bad c device ashift (endOf opts m))

theorem metEvents_withCap (maxHits : Nat) :
    metEvents c m bad device ashift (opts.withCap maxHits) =
      metEvents c m bad device ashift opts := by
  have hread : ∀ at_, readable (ofMedium m) (opts.withCap maxHits) (endOf opts m) at_ =
      readable (ofMedium m) opts (endOf opts m) at_ := fun _ => rfl
  have hchunk : (opts.withCap maxHits).chunk = opts.chunk := rfl
  have hmet : ∀ k, metAt (opts.withCap maxHits) m bad c device ashift (endOf opts m) k =
      metAt opts m bad c device ashift (endOf opts m) k := by
    intro k
    rw [metAt, metAt, hread]
    rfl
  have hstarts : starts m (opts.withCap maxHits) = starts m opts :=
    chunkStarts_congr hchunk hread (m.size + 1) (startOf opts m)
  rw [metEvents, metEvents, hstarts]
  exact List.flatMap_congr fun k _ => hmet k

/-- Unless there are more hits than it has room for, a scan records what it met. -/
theorem damagedScan_hits {maxHits : Nat} {s : Scan}
    (hrun : damagedScan c m bad device ashift opts maxHits = some s) :
    (s.stoppedEarly = true → maxHits < (hitsOf (metEvents c m bad device ashift opts)).length) ∧
      (s.stoppedEarly = false → s.hits = hitsOf (metEvents c m bad device ashift opts)) := by
  have hstart : Shows (opts.withCap maxHits) (Scan.start (startOf opts m)) [] := Shows.start _
  have hended : Ended (opts.withCap maxHits)
      (metAt (opts.withCap maxHits) m bad c device ashift (endOf opts m)) []
      (starts m (opts.withCap maxHits)) s := scanFrom_damaged endOf_le _ _ _ _ hstart rfl hrun
  rw [← metEvents_withCap maxHits]
  rcases hended with ⟨hgoing, hshows⟩ | ⟨before, b, after, heq, hstop, -, -, hshows⟩
  · rw [List.nil_append] at hshows
    refine ⟨fun hstop => ?_, fun _ => ?_⟩
    · rw [hgoing] at hstop
      cases hstop
    · have hfits : ¬ maxHits < (hitsOf (metEvents c m bad device ashift
          (opts.withCap maxHits))).length := by
        intro hover
        have hstop := hshows.stopped.mpr hover
        rw [hgoing] at hstop
        cases hstop
      rw [hshows.hits]
      exact List.take_of_length_le (Nat.not_lt.mp hfits)
  · refine ⟨fun _ => ?_, fun hgoing => ?_⟩
    · have hover := hshows.stopped.mp hstop
      have hsplit : before ++ b :: after = (before ++ [b]) ++ after := by simp
      rw [metEvents, heq, hsplit, List.flatMap_append, hitsOf_append, List.length_append]
      rw [List.nil_append] at hover
      exact Nat.lt_of_lt_of_le hover (Nat.le_add_right _ _)
    · rw [hgoing] at hstop
      cases hstop

theorem damagedScan_eq (maxHits : Nat) :
    damagedScan c m bad device ashift opts maxHits =
      scanFrom c (damaged m bad) device ashift (opts.withCap maxHits) (fun _ => false)
        (endOf opts m) (m.size + 1) (startOf opts m) (Scan.start (startOf opts m)) := rfl

theorem damagedScan_isSome (hchunk : 0 < opts.chunk) (maxHits : Nat) :
    (damagedScan c m bad device ashift opts maxHits).isSome := by
  have hend : endOf opts m ≤ startOf opts m + m.size :=
    Nat.le_trans endOf_le (Nat.le_add_left _ _)
  have hpos : 0 < (opts.withCap maxHits).chunk := hchunk
  rw [damagedScan_eq]
  exact scanFrom_isSome hpos _ _ _ hend

theorem CandidateIn.chunk_pos {k p : Nat} {h : Hit} (hin : CandidateIn m device opts k p h) :
    0 < ownOf opts (endOf opts m) k := by
  have hle := hin.le
  have hwhole := hin.whole
  have hclaimed : dnodeSize ≤ claimedAt m p := DnodePhys.dnodeSize_le_claimed
  have hslot : 0 < dnodeSize := by decide
  rw [chunkEnd] at hwhole
  omega

/-- A candidate is met if and only if its chunk and the tail of it can be read. -/
theorem mem_metEvents {k p : Nat} {h : Hit} (hsound : SoundChunk m bad opts k)
    (hin : CandidateIn m device opts k p h) :
    .hit h ∈ metEvents c m bad device ashift opts ↔
      ∀ x, chunkEnd m opts k ≤ x → x < k + readable (ofMedium m) opts (endOf opts m) k →
        bad x = false := by
  have hown := hin.chunk_pos
  have hchunk : 0 < opts.chunk := Nat.lt_of_lt_of_le hown (Nat.min_le_left _ _)
  have hlist : ∀ k, (List.range' k (readable (ofMedium m) opts (endOf opts m) k)).any bad = true ↔
      ∃ x, k ≤ x ∧ x < k + readable (ofMedium m) opts (endOf opts m) k ∧ bad x = true := by
    intro k
    simp only [List.any_eq_true, List.mem_range'_1, and_assoc]
  constructor
  · intro hmet x hx hlt
    obtain ⟨k', hk', hmet⟩ := List.mem_flatMap.mp hmet
    obtain ⟨q', hq', -, -⟩ := (mem_starts hchunk).mp hk'
    by_cases hbad : (List.range' k' (readable (ofMedium m) opts (endOf opts m) k')).any bad = true
    · rw [metAt, if_pos hbad] at hmet
      cases hmet
    · rw [metAt, if_neg hbad] at hmet
      obtain rfl : k' = k := hin.chunk_eq hsound.chunk ⟨q', hq'⟩ hmet
      rw [hlist] at hbad
      rw [chunkEnd] at hx
      exact Bool.eq_false_iff.mpr (fun hx' => hbad ⟨x, by omega, hlt, hx'⟩)
  · intro htail
    obtain ⟨q, hq⟩ := hsound.chunk
    have hwhole := hin.whole
    have hle := hin.le
    have hclaimed : dnodeSize ≤ claimedAt m p := DnodePhys.dnodeSize_le_claimed
    have hend : endOf opts m ≤ m.size := endOf_le
    have hleft : ownOf opts (endOf opts m) k ≤ endOf opts m - k := Nat.min_le_right _ _
    have hsize : dnodeSize ≤ m.size - k := by
      rw [chunkEnd] at hwhole
      omega
    refine List.mem_flatMap.mpr ⟨k, (mem_starts hchunk).mpr ⟨q, hq, hsound.start_lt, hsize⟩, ?_⟩
    rw [metAt, if_neg]
    · exact hin.mem_eventsAt
    · rw [hlist]
      rintro ⟨x, hge, hlt, hx⟩
      rcases Nat.lt_or_ge x (chunkEnd m opts k) with hin | hout
      · rw [hsound.sound x hge hin] at hx
        cases hx
      · rw [htail x hout hlt] at hx
        cases hx

/-- A scan records a candidate that it met, unless there are more than it has room for. -/
theorem recorded_of_met {maxHits : Nat} {s : Scan} {h : Hit}
    (hrun : damagedScan c m bad device ashift opts maxHits = some s)
    (hmet : .hit h ∈ metEvents c m bad device ashift opts) :
    h ∈ s.hits ∨ s.stoppedEarly = true := by
  cases hstop : s.stoppedEarly with
  | true => exact Or.inr rfl
  | false =>
    left
    rw [(damagedScan_hits hrun).2 hstop]
    exact mem_hitsOf.mpr hmet

/-- With room for all, a scan records nothing that it did not meet. -/
theorem met_of_recorded (c : Codecs) (m : Medium) (bad : Nat → Bool) (device ashift : Nat)
    {opts : Options} (hchunk : 0 < opts.chunk) :
    ∃ maxHits s, damagedScan c m bad device ashift opts maxHits = some s ∧
      ∀ h, h ∈ s.hits ∨ s.stoppedEarly = true →
        .hit h ∈ metEvents c m bad device ashift opts := by
  let room := (hitsOf (metEvents c m bad device ashift opts)).length
  have hsome : (damagedScan c m bad device ashift opts room).isSome :=
    damagedScan_isSome hchunk room
  obtain ⟨s, hrun⟩ := Option.isSome_iff_exists.mp hsome
  obtain ⟨hover, hall⟩ := damagedScan_hits hrun
  have hgoing : s.stoppedEarly = false :=
    Bool.eq_false_iff.mpr (fun hstop => Nat.lt_irrefl room (hover hstop))
  refine ⟨room, s, hrun, ?_⟩
  rintro h (hrec | hstop)
  · rw [hall hgoing] at hrec
    exact mem_hitsOf.mp hrec
  · rw [hgoing] at hstop
    cases hstop

/-- A bad byte costs a scan its own chunk and no more if and only if none is in the tail of a
chunk that has a candidate and can be read. -/
theorem costsItsChunk_iff (c : Codecs) (m : Medium) (bad : Nat → Bool) (device ashift : Nat)
    (opts : Options) :
    CostsItsChunk c m bad device ashift opts ↔ TailsSound m bad device opts := by
  constructor
  · rintro ⟨-, hrecorded⟩ k hsound ⟨p, h, hin⟩
    have hchunk : 0 < opts.chunk := Nat.lt_of_lt_of_le hin.chunk_pos (Nat.min_le_left _ _)
    obtain ⟨maxHits, s, hrun, hmet⟩ := met_of_recorded c m bad device ashift hchunk
    exact (mem_metEvents hsound hin).mp (hmet h (hrecorded maxHits s hrun k p h hsound hin))
  · intro htails
    refine ⟨damagedScan_isSome, ?_⟩
    intro maxHits s hrun k p h hsound hin
    exact recorded_of_met hrun ((mem_metEvents hsound hin).mpr (htails k hsound ⟨p, h, hin⟩))

/-! A member of one chunk and one sector, whose first slot is a dnode. -/

def sectorMember : Medium :=
  { size := 4194816
    byte := fun i => [20, 17, 1, 1, 0, 0, 0, 0, 1, 0, 1].getD i 0
    device := false
    size_lt := by decide }

/-- The sector after the chunk cannot be read. -/
def badSector (x : Nat) : Bool := 4194304 ≤ x

theorem sectorMember_sound : SoundChunk sectorMember badSector plainOptions 0 where
  chunk := ⟨0, by decide⟩
  start_lt := by decide
  sound x _ hlt := by
    have hend : chunkEnd sectorMember plainOptions 0 = 4194304 := by decide
    rw [hend] at hlt
    exact decide_eq_false (Nat.not_le.mpr hlt)

theorem sectorMember_candidate : ∃ h, CandidateIn sectorMember 0 plainOptions 0 0 h := by
  have hsize : dnodeSize ≤ sectorMember.size - 0 := by decide
  have hclaimed : claimedAt sectorMember 0 = dnodeSize := by
    rw [claimedAt, ← DnodePhys.claimed_take (Nat.le_refl _), sectorMember.slice_take hsize]
    decide
  have hslot : slotEvents plainOptions 0 0 0 .plaintext (sectorMember.slice 0 dnodeSize) =
      if claimedAt sectorMember 0 ≤ dnodeSize then wholeSlot plainOptions 0 sectorMember 0
      else [] := slotEvents_slice (Nat.le_refl _) hsize
  rw [hclaimed, if_pos (Nat.le_refl _)] at hslot
  have hsome : (hitsOf (slotEvents plainOptions 0 0 0 .plaintext
      (sectorMember.slice 0 dnodeSize))).head?.isSome := by
    decide +kernel
  obtain ⟨h, hh⟩ := Option.isSome_iff_exists.mp hsome
  refine ⟨h, Nat.le_refl _, rfl, ?_, ?_⟩
  · rw [hclaimed]
    decide
  · rw [← hslot]
    exact mem_hitsOf.mp (List.mem_of_head? hh)

/-- The dnode is skipped with the chunk, none of whose bytes is bad. -/
theorem sectorMember_skipped :
    ¬ CostsItsChunk noCodecs sectorMember badSector 0 9 plainOptions := by
  rintro ⟨-, hrecorded⟩
  obtain ⟨h, hin⟩ := sectorMember_candidate
  have hchunk : 0 < plainOptions.chunk := by decide
  obtain ⟨maxHits, s, hrun, hmet⟩ :=
    met_of_recorded noCodecs sectorMember badSector 0 9 hchunk
  have hmet := hmet h (hrecorded maxHits s hrun 0 0 h sectorMember_sound hin)
  have htail := (mem_metEvents sectorMember_sound hin).mp hmet 4194304 (by decide) (by decide)
  exact absurd htail (by decide)

end Damage

end Member
end Carve
end ZvolRescue
