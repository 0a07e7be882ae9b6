import ZvolRescue.Carve.Events
import ZvolRescue.Lib.Chunks

/-!
# How a member is cut into chunks

A slot is judged by what is left of its chunk and a block is tried at the steps of its chunk.
Where no list overflows, two cuttings of a member give the same report if and only if no
structure lies across the end of a chunk of only one of them (`same_report_iff`).
-/

namespace ZvolRescue
namespace Carve
namespace Member

open Lib Ondisk Source

/-! ## What one place holds -/

section Place

variable (opts : Options) (device : Nat) (m : Medium)

/-- What the slot at `p` holds by its first `n` bytes. -/
def slotAt (p n : Nat) : List Event :=
  slotEvents opts device p 0 .plaintext (m.slice p n) ++
    headerEvents device p .plaintext (m.slice p n)

/-- What the block at `p` holds by its first `n` bytes. -/
def blockAt (c : Codecs) (p n : Nat) : List Event := blockEvents opts device c p (m.slice p n)

variable {opts device m}

theorem of_mem_dnodeEvents {offset slot : Nat} {found : Found} {dnode : DnodePhys} {e : Event}
    (h : e ∈ dnodeEvents opts device offset slot found dnode) :
    e.offset = offset ∧ e.found = found ∧ e.root? = none := by
  rw [dnodeEvents] at h
  split at h
  · cases h
  · split at h
    · cases h
    · rcases List.mem_append.mp h with h | h
      · split at h
        · rw [List.mem_singleton.mp h]
          exact ⟨rfl, rfl, rfl⟩
        · cases h
      · split at h
        · cases h
        · rw [List.mem_singleton.mp h]
          exact ⟨rfl, rfl, rfl⟩

theorem of_mem_slotEvents {offset slot : Nat} {found : Found} {buf : List UInt8} {e : Event}
    (h : e ∈ slotEvents opts device offset slot found buf) :
    e.offset = offset ∧ e.found = found ∧ e.root? = none := by
  rw [slotEvents] at h
  split at h
  · cases h
  · split at h
    · exact of_mem_dnodeEvents h
    · cases h

theorem of_mem_headerEvents {offset : Nat} {found : Found} {buf : List UInt8} {e : Event}
    (h : e ∈ headerEvents device offset found buf) :
    e.offset = offset ∧ e.found = found ∧ e.root?.isSome := by
  rw [headerEvents] at h
  split at h
  · rw [List.mem_singleton.mp h]
    exact ⟨rfl, rfl, rfl⟩
  · cases h

theorem of_mem_slotAt {p n : Nat} {e : Event} (h : e ∈ slotAt opts device m p n) :
    e.offset = p ∧ e.found = .plaintext := by
  rcases List.mem_append.mp h with h | h
  · obtain ⟨hoffset, hfound, -⟩ := of_mem_slotEvents h
    exact ⟨hoffset, hfound⟩
  · obtain ⟨hoffset, hfound, -⟩ := of_mem_headerEvents h
    exact ⟨hoffset, hfound⟩

theorem of_mem_blockAt {c : Codecs} {p n : Nat} {e : Event}
    (h : e ∈ blockAt opts device m c p n) : e.offset = p ∧ e.found ≠ .plaintext := by
  obtain ⟨codec, -, h⟩ := List.mem_flatMap.mp h
  rw [codecEvents] at h
  split at h
  · cases h
  · rcases List.mem_append.mp h with h | h
    · obtain ⟨hoffset, hfound, -⟩ := of_mem_headerEvents h
      exact ⟨hoffset, by rw [hfound]; exact Found.noConfusion⟩
    · obtain ⟨i, -, h⟩ := List.mem_flatMap.mp h
      obtain ⟨hoffset, hfound, -⟩ := of_mem_slotEvents h
      exact ⟨hoffset, by rw [hfound]; exact Found.noConfusion⟩

/-- A dnode is met where all the slots that it claims are there. -/
theorem slotEvents_take {offset slot : Nat} {found : Found} {buf : List UInt8} {n : Nat}
    (hslot : dnodeSize ≤ n) (hn : n ≤ buf.length) :
    slotEvents opts device offset slot found (buf.take n) =
      if DnodePhys.claimed buf ≤ n then slotEvents opts device offset slot found buf else [] := by
  have hcore : dnodeCoreSize ≤ n := Nat.le_trans (by decide) hslot
  rw [slotEvents, slotEvents, plausibleHead_take hcore hn]
  by_cases hclaims : DnodePhys.claimed buf ≤ n
  · rw [if_pos hclaims, DnodePhys.parse_take hclaims hn]
  · have hlong : (buf.take n).length < DnodePhys.claimed (buf.take n) := by
      rw [DnodePhys.claimed_take hslot, List.length_take]
      omega
    obtain ⟨err, herr⟩ := DnodePhys.parse_of_lt (e := .little) hlong
    rw [if_neg hclaims, herr]
    cases plausibleHead buf with
    | error r => rfl
    | ok _ => rfl

/-- What the slot at `p` holds by all bytes that follow. -/
def wholeSlot (opts : Options) (device : Nat) (m : Medium) (p : Nat) : List Event :=
  slotEvents opts device p 0 .plaintext (m.slice p (m.size - p))

/-- Bytes of the slots that the dnode at `p` claims. -/
def claimedAt (m : Medium) (p : Nat) : Nat := DnodePhys.claimed (m.slice p (m.size - p))

theorem slotEvents_slice {p n : Nat} (hslot : dnodeSize ≤ n) (hn : n ≤ m.size - p) :
    slotEvents opts device p 0 .plaintext (m.slice p n) =
      if claimedAt m p ≤ n then wholeSlot opts device m p else [] := by
  have hlength : n ≤ (m.slice p (m.size - p)).length := by rwa [m.slice_length]
  rw [← m.slice_take hn]
  exact slotEvents_take hslot hlength

theorem mem_headerEvents {offset : Nat} {found : Found} {buf : List UInt8} {objset : ObjsetPhys} :
    .root { device, offset, found, objset } ∈ headerEvents device offset found buf ↔
      asMetaObjset buf = some objset := by
  rw [headerEvents]
  cases asMetaObjset buf with
  | none => exact iff_of_false List.not_mem_nil (Option.some_ne_none _).symm
  | some os => simp [eq_comm]

theorem mem_slotAt_of_dnode {p n : Nat} {e : Event} (he : e.root? = none) :
    e ∈ slotAt opts device m p n ↔
      e ∈ slotEvents opts device p 0 .plaintext (m.slice p n) := by
  rw [slotAt, List.mem_append, or_iff_left]
  intro h
  obtain ⟨-, -, hroot⟩ := of_mem_headerEvents h
  rw [he] at hroot
  cases hroot

theorem mem_slotAt_of_root {p n : Nat} {e : Event} (he : e.root?.isSome) :
    e ∈ slotAt opts device m p n ↔ e ∈ headerEvents device p .plaintext (m.slice p n) := by
  rw [slotAt, List.mem_append, or_iff_right]
  intro h
  obtain ⟨-, -, hroot⟩ := of_mem_slotEvents h
  rw [hroot] at he
  cases he

/-- Two lengths show the same of a slot if and only if the dnode that is met there fits both
or neither and both show the same header. -/
theorem slotAt_iff {p n n' : Nat} (hslot : dnodeSize ≤ n) (hn : n ≤ m.size - p)
    (hslot' : dnodeSize ≤ n') (hn' : n' ≤ m.size - p) :
    (∀ e, e ∈ slotAt opts device m p n ↔ e ∈ slotAt opts device m p n') ↔
      (wholeSlot opts device m p ≠ [] → (claimedAt m p ≤ n ↔ claimedAt m p ≤ n')) ∧
        asMetaObjset (m.slice p n) = asMetaObjset (m.slice p n') := by
  have hdnodes : slotEvents opts device p 0 .plaintext (m.slice p n) =
      if claimedAt m p ≤ n then wholeSlot opts device m p else [] := slotEvents_slice hslot hn
  have hdnodes' : slotEvents opts device p 0 .plaintext (m.slice p n') =
      if claimedAt m p ≤ n' then wholeSlot opts device m p else [] := slotEvents_slice hslot' hn'
  constructor
  · intro h
    refine ⟨fun hne => ?_, ?_⟩
    · obtain ⟨e, he⟩ := List.exists_mem_of_ne_nil _ hne
      have hroot := (of_mem_slotEvents he).2.2
      have hsame := h e
      rw [mem_slotAt_of_dnode hroot, mem_slotAt_of_dnode hroot, hdnodes, hdnodes'] at hsame
      have hfits : ∀ k, e ∈ (if claimedAt m p ≤ k then wholeSlot opts device m p else []) ↔
          claimedAt m p ≤ k := by
        intro k
        split
        · rename_i hle
          exact iff_of_true he hle
        · rename_i hle
          exact iff_of_false List.not_mem_nil hle
      rwa [hfits, hfits] at hsame
    · apply Option.ext
      intro objset
      have hsame := h (.root { device, offset := p, found := .plaintext, objset })
      rwa [mem_slotAt_of_root rfl, mem_slotAt_of_root rfl, mem_headerEvents,
        mem_headerEvents] at hsame
  · rintro ⟨hfits, hheader⟩ e
    have hsame : slotEvents opts device p 0 .plaintext (m.slice p n) =
        slotEvents opts device p 0 .plaintext (m.slice p n') := by
      rw [hdnodes, hdnodes']
      by_cases hne : wholeSlot opts device m p = []
      · rw [hne, ite_self, ite_self]
      · rw [if_congr (hfits hne) rfl rfl]
    rw [slotAt, slotAt, hsame, headerEvents, headerEvents, hheader]

end Place

/-! ## Where the places are -/

section Cutting

variable (opts : Options) (m : Medium) (ashift : Nat)

def Options.withChunk (opts : Options) (chunk : Nat) : Options := { opts with chunk }

/-- Where the range begins. -/
def startOf : Nat := (rangeOf opts m.size).1

/-- Where the range ends, on the member. -/
def endOf : Nat := (rangeOf opts m.size).2

/-- Where the chunk begins that `p` lies in. -/
def chunkOf (p : Nat) : Nat := chunkBase (startOf opts m) opts.chunk p

/-- What is left of its chunk at `p`. -/
def slotLeft (p : Nat) : Nat := min (chunkOf opts m p + opts.chunk) (endOf opts m) - p

/-- What is read of its chunk and the tail from `p` on. -/
def blockLeft (p : Nat) : Nat :=
  chunkOf opts m p + readable (ofMedium m) opts (endOf opts m) (chunkOf opts m p) - p

/-- A slot of the range. -/
structure SlotPlace (p : Nat) : Prop where
  start : startOf opts m ≤ p
  step : (p - startOf opts m) % dnodeSize = 0
  stop : p + dnodeSize ≤ endOf opts m

/-- A place that a block is tried at. -/
structure BlockPlace (p : Nat) : Prop where
  codecs : opts.codecs ≠ []
  start : startOf opts m ≤ p
  stop : p < endOf opts m
  step : (p - chunkOf opts m p) % stepOf ashift = 0
  size : dnodeSize ≤ m.size - chunkOf opts m p

variable {opts m ashift}

theorem endOf_le : endOf opts m ≤ m.size := by
  rw [endOf, rangeOf]
  split
  · exact Nat.min_le_right _ _
  · exact le_refl _

theorem readable_ge_iff {end_ at_ : Nat} :
    dnodeSize ≤ readable (ofMedium m) opts end_ at_ ↔ dnodeSize ≤ m.size - at_ := by
  have hoverlap : dnodeSize ≤ overlap opts :=
    Nat.le_trans (Nat.le_trans (by decide) (Nat.le_max_right _ _)) (Nat.le_add_right _ 4)
  have hsize : (ofMedium m).size = m.size := rfl
  rw [readable, hsize]
  omega

theorem mem_chunkStarts {end_ k : Nat} (hchunk : 0 < opts.chunk) :
    ∀ fuel at_, end_ ≤ at_ + fuel →
      (k ∈ chunkStarts opts m end_ fuel at_ ↔
        ∃ q, k = at_ + q * opts.chunk ∧ k < end_ ∧ dnodeSize ≤ m.size - k) := by
  intro fuel
  induction fuel with
  | zero =>
    intro at_ hfuel
    refine iff_of_false List.not_mem_nil ?_
    rintro ⟨q, rfl, hlt, -⟩
    omega
  | succ fuel ih =>
    intro at_ hfuel
    have hread : ¬ readable (ofMedium m) opts end_ at_ < dnodeSize ↔ dnodeSize ≤ m.size - at_ :=
      Nat.not_lt.trans readable_ge_iff
    rw [chunkStarts]
    split
    · rename_i hin
      rw [hread] at hin
      rw [List.mem_cons, ih _ (by omega)]
      constructor
      · rintro (rfl | ⟨q, rfl, hlt, hsize⟩)
        · exact ⟨0, by rw [Nat.zero_mul, Nat.add_zero], hin.1, hin.2⟩
        · refine ⟨q + 1, ?_, hlt, hsize⟩
          rw [Nat.succ_mul]
          omega
      · rintro ⟨q, rfl, hlt, hsize⟩
        cases q with
        | zero => exact Or.inl (by rw [Nat.zero_mul, Nat.add_zero])
        | succ q =>
          rw [Nat.succ_mul] at hlt hsize ⊢
          exact Or.inr ⟨q, by omega, hlt, hsize⟩
    · rename_i hout
      rw [hread] at hout
      refine iff_of_false List.not_mem_nil ?_
      rintro ⟨q, rfl, hlt, hsize⟩
      exact hout ⟨by omega, by omega⟩

theorem own_le_readable {end_ at_ : Nat} (hend : end_ ≤ m.size) :
    ownOf opts end_ at_ ≤ readable (ofMedium m) opts end_ at_ := by
  have hsize : (ofMedium m).size = m.size := rfl
  rw [readable, hsize, ownOf]
  omega

/-- What a chunk holds is what its slots hold and its blocks. -/
theorem mem_eventsAt {c : Codecs} {device end_ k : Nat} (hend : end_ ≤ m.size) {e : Event} :
    e ∈ eventsAt opts m c device ashift end_ k ↔
      (∃ i, i * dnodeSize + dnodeSize ≤ ownOf opts end_ k ∧
        e ∈ slotAt opts device m (k + i * dnodeSize) (ownOf opts end_ k - i * dnodeSize)) ∨
      (opts.codecs ≠ [] ∧ ∃ j, j * stepOf ashift < ownOf opts end_ k ∧
        e ∈ blockAt opts device m c (k + j * stepOf ashift)
          (readable (ofMedium m) opts end_ k - j * stepOf ashift)) := by
  have hown : min (ownOf opts end_ k) (readable (ofMedium m) opts end_ k) = ownOf opts end_ k :=
    Nat.min_eq_left (own_le_readable hend)
  have hstep : 0 < stepOf ashift := Nat.two_pow_pos _
  simp only [eventsAt, chunkEvents, m.slice_length, hown, List.mem_append,
    m.slice_take (own_le_readable hend)]
  refine or_congr ?_ ?_
  · rw [List.mem_flatMap]
    refine exists_congr (fun i => and_congr ?_ ?_)
    · rw [List.mem_range, Nat.lt_iff_add_one_le, Nat.le_div_iff_mul_le (by decide), Nat.succ_mul]
    · rw [placeEvents, slotAt, m.slice_drop]
  · by_cases hcodecs : opts.codecs = []
    · rw [if_pos hcodecs]
      exact iff_of_false List.not_mem_nil (fun h => h.1 hcodecs)
    · rw [if_neg hcodecs, List.mem_flatMap, and_iff_right hcodecs]
      refine exists_congr (fun j => and_congr ?_ ?_)
      · rw [List.mem_range, lt_divCeil_iff hstep]
      · rw [blockAt, m.slice_drop]

variable (opts m ashift) in
/-- All that the chunks of a member hold. -/
def allEvents (c : Codecs) (device fuel : Nat) : List Event :=
  (chunkStarts opts m (endOf opts m) fuel (startOf opts m)).flatMap
    (eventsAt opts m c device ashift (endOf opts m))

/-- The place in the chunk at `k` that is `off` bytes into it. -/
theorem place_in_chunk {q off : Nat}
    (hoff : off < ownOf opts (endOf opts m) (startOf opts m + q * opts.chunk)) :
    chunkOf opts m (startOf opts m + q * opts.chunk + off) = startOf opts m + q * opts.chunk ∧
      slotLeft opts m (startOf opts m + q * opts.chunk + off) =
        ownOf opts (endOf opts m) (startOf opts m + q * opts.chunk) - off ∧
      blockLeft opts m (startOf opts m + q * opts.chunk + off) =
        readable (ofMedium m) opts (endOf opts m) (startOf opts m + q * opts.chunk) - off := by
  have hin : off < opts.chunk := Nat.lt_of_lt_of_le hoff (Nat.min_le_left _ _)
  have hchunk : chunkOf opts m (startOf opts m + q * opts.chunk + off) =
      startOf opts m + q * opts.chunk := chunkBase_add hin
  rw [slotLeft, blockLeft, hchunk]
  rw [ownOf] at hoff ⊢
  generalize startOf opts m + q * opts.chunk = k at *
  refine ⟨rfl, ?_, ?_⟩
  · omega
  · omega

/-- Every place of the range is that many bytes into its chunk. -/
theorem chunk_of_place (hchunk : 0 < opts.chunk) {p : Nat} (hstart : startOf opts m ≤ p)
    (hstop : p < endOf opts m) :
    chunkOf opts m p ≤ p ∧ p - chunkOf opts m p < ownOf opts (endOf opts m) (chunkOf opts m p) := by
  have hle : chunkOf opts m p ≤ p := chunkBase_le hstart
  have hlt : p < chunkOf opts m p + opts.chunk := lt_chunkBase_add hchunk hstart
  rw [ownOf]
  omega

/-- All that a cutting into chunks of whole slots shows, place by place. -/
theorem mem_allEvents {c : Codecs} {device fuel : Nat} (hchunk : 0 < opts.chunk)
    (hslots : dnodeSize ∣ opts.chunk) (hfuel : endOf opts m ≤ startOf opts m + fuel) {e : Event} :
    e ∈ allEvents opts m ashift c device fuel ↔
      (∃ p, SlotPlace opts m p ∧ e ∈ slotAt opts device m p (slotLeft opts m p)) ∨
        ∃ p, BlockPlace opts m ashift p ∧ e ∈ blockAt opts device m c p (blockLeft opts m p) := by
  rw [allEvents, List.mem_flatMap]
  constructor
  · rintro ⟨k, hk, he⟩
    obtain ⟨q, rfl, hlt, hsize⟩ := (mem_chunkStarts hchunk _ _ hfuel).mp hk
    rcases (mem_eventsAt endOf_le).mp he with ⟨i, hi, he⟩ | ⟨hcodecs, j, hj, he⟩
    · left
      have hslot : 0 < dnodeSize := by decide
      have hoff : i * dnodeSize <
          ownOf opts (endOf opts m) (startOf opts m + q * opts.chunk) := by omega
      obtain ⟨-, hleft, -⟩ := place_in_chunk hoff
      refine ⟨startOf opts m + q * opts.chunk + i * dnodeSize, ⟨?_, ?_, ?_⟩, by rwa [hleft]⟩
      · exact Nat.le_trans (Nat.le_add_right _ _) (Nat.le_add_right _ _)
      · obtain ⟨t, ht⟩ := hslots
        have hsub : startOf opts m + q * opts.chunk + i * dnodeSize - startOf opts m =
            dnodeSize * (q * t + i) := by
          rw [ht, Nat.mul_add, Nat.add_assoc, Nat.add_sub_cancel_left, Nat.mul_left_comm,
            Nat.mul_comm i]
        rw [hsub, Nat.mul_mod_right]
      · have hown : ownOf opts (endOf opts m) (startOf opts m + q * opts.chunk) ≤
            endOf opts m - (startOf opts m + q * opts.chunk) := Nat.min_le_right _ _
        omega
    · right
      obtain ⟨hbase, -, hleft⟩ := place_in_chunk hj
      refine ⟨startOf opts m + q * opts.chunk + j * stepOf ashift, ⟨hcodecs, ?_, ?_, ?_, ?_⟩,
        by rwa [hleft]⟩
      · exact Nat.le_trans (Nat.le_add_right _ _) (Nat.le_add_right _ _)
      · have hown : ownOf opts (endOf opts m) (startOf opts m + q * opts.chunk) ≤
            endOf opts m - (startOf opts m + q * opts.chunk) := Nat.min_le_right _ _
        omega
      · rw [hbase, Nat.add_sub_cancel_left, Nat.mul_mod_left]
      · rwa [hbase]
  · rintro (⟨p, hplace, he⟩ | ⟨p, hplace, he⟩)
    · have hsize : dnodeSize = 512 := rfl
      have hend : endOf opts m ≤ m.size := endOf_le
      have hstop := hplace.stop
      have hdvd : dnodeSize ∣ p - chunkOf opts m p := by
        apply Nat.dvd_of_mod_eq_zero
        rw [chunkOf, sub_chunkBase hplace.start, Nat.mod_mod_of_dvd _ hslots]
        exact hplace.step
      have hle : chunkOf opts m p ≤ p := chunkBase_le hplace.start
      have hlt : p < chunkOf opts m p + opts.chunk := lt_chunkBase_add hchunk hplace.start
      have hleft : ownOf opts (endOf opts m) (chunkOf opts m p) - (p - chunkOf opts m p) =
          slotLeft opts m p := by
        rw [slotLeft, ownOf]
        omega
      refine ⟨chunkOf opts m p, (mem_chunkStarts hchunk _ _ hfuel).mpr
        ⟨(p - startOf opts m) / opts.chunk, rfl, by omega, by omega⟩,
        (mem_eventsAt endOf_le).mpr (Or.inl ⟨(p - chunkOf opts m p) / dnodeSize, ?_, ?_⟩)⟩
      · rw [Nat.div_mul_cancel hdvd, ownOf]
        obtain ⟨a, ha⟩ := hdvd
        obtain ⟨t, ht⟩ := hslots
        rw [hsize] at ha ht
        omega
      · rw [Nat.div_mul_cancel hdvd, hleft, Nat.add_sub_cancel' hle]
        exact he
    · have hend : endOf opts m ≤ m.size := endOf_le
      have hdvd : stepOf ashift ∣ p - chunkOf opts m p := Nat.dvd_of_mod_eq_zero hplace.step
      obtain ⟨hle, hlt⟩ := chunk_of_place hchunk hplace.start hplace.stop
      have hleft : readable (ofMedium m) opts (endOf opts m) (chunkOf opts m p) -
          (p - chunkOf opts m p) = blockLeft opts m p := by
        rw [blockLeft]
        omega
      refine ⟨chunkOf opts m p, (mem_chunkStarts hchunk _ _ hfuel).mpr
        ⟨(p - startOf opts m) / opts.chunk, rfl, by have hstop := hplace.stop; omega, hplace.size⟩,
        (mem_eventsAt endOf_le).mpr
          (Or.inr ⟨hplace.codecs, (p - chunkOf opts m p) / stepOf ashift, ?_, ?_⟩)⟩
      · rw [Nat.div_mul_cancel hdvd]
        exact hlt
      · rw [Nat.div_mul_cancel hdvd, hleft, Nat.add_sub_cancel' hle]
        exact he

/-- A plaintext event is met where its slot is. -/
theorem mem_allEvents_of_plaintext {c : Codecs} {device fuel : Nat} (hchunk : 0 < opts.chunk)
    (hslots : dnodeSize ∣ opts.chunk) (hfuel : endOf opts m ≤ startOf opts m + fuel) {e : Event}
    (he : e.found = .plaintext) :
    e ∈ allEvents opts m ashift c device fuel ↔
      SlotPlace opts m e.offset ∧
        e ∈ slotAt opts device m e.offset (slotLeft opts m e.offset) := by
  rw [mem_allEvents hchunk hslots hfuel]
  constructor
  · rintro (⟨p, hplace, hin⟩ | ⟨p, -, hin⟩)
    · obtain ⟨rfl, -⟩ := of_mem_slotAt hin
      exact ⟨hplace, hin⟩
    · exact absurd he (of_mem_blockAt hin).2
  · rintro ⟨hplace, hin⟩
    exact Or.inl ⟨e.offset, hplace, hin⟩

/-- Any other event is met where its block is. -/
theorem mem_allEvents_of_compressed {c : Codecs} {device fuel : Nat} (hchunk : 0 < opts.chunk)
    (hslots : dnodeSize ∣ opts.chunk) (hfuel : endOf opts m ≤ startOf opts m + fuel) {e : Event}
    (he : e.found ≠ .plaintext) :
    e ∈ allEvents opts m ashift c device fuel ↔
      BlockPlace opts m ashift e.offset ∧
        e ∈ blockAt opts device m c e.offset (blockLeft opts m e.offset) := by
  rw [mem_allEvents hchunk hslots hfuel]
  constructor
  · rintro (⟨p, -, hin⟩ | ⟨p, hplace, hin⟩)
    · exact absurd (of_mem_slotAt hin).2 he
    · obtain ⟨rfl, -⟩ := of_mem_blockAt hin
      exact ⟨hplace, hin⟩
  · rintro ⟨hplace, hin⟩
    exact Or.inr ⟨e.offset, hplace, hin⟩

/-- A slot of the range has its own bytes left in its chunk. -/
theorem slotLeft_ge (hchunk : 0 < opts.chunk) (hslots : dnodeSize ∣ opts.chunk) {p : Nat}
    (hplace : SlotPlace opts m p) :
    dnodeSize ≤ slotLeft opts m p ∧ slotLeft opts m p ≤ m.size - p := by
  have hend : endOf opts m ≤ m.size := endOf_le
  have hlt : p < chunkOf opts m p + opts.chunk := lt_chunkBase_add hchunk hplace.start
  have hle : chunkOf opts m p ≤ p := chunkBase_le hplace.start
  have hstop := hplace.stop
  have hdvd : dnodeSize ∣ p - chunkOf opts m p := by
    apply Nat.dvd_of_mod_eq_zero
    rw [chunkOf, sub_chunkBase hplace.start, Nat.mod_mod_of_dvd _ hslots]
    exact hplace.step
  have hroom : dnodeSize ≤ chunkOf opts m p + opts.chunk - p := by
    have hsub : chunkOf opts m p + opts.chunk - p = opts.chunk - (p - chunkOf opts m p) := by
      omega
    rw [hsub]
    exact Nat.le_of_dvd (by omega) (Nat.dvd_sub hslots hdvd)
  rw [slotLeft]
  omega

end Cutting

/-! ## Two cuttings -/

section Report

variable (c : Codecs) (m : Medium) (device ashift : Nat) (opts : Options)

/-- The scan of a member in chunks of this size, to its end. -/
def report (chunk : Nat) : Option Scan :=
  scanMember c (ofMedium m) device ashift (opts.withChunk chunk) (fun _ => false) (m.size + 1)

/-- A scan gets on. -/
def Ends (chunk : Nat) : Prop :=
  0 < chunk ∨ endOf opts m ≤ startOf opts m ∨ m.size - startOf opts m < dnodeSize

/-- All that a member holds, cut into chunks of this size. -/
def eventsBy (chunk : Nat) : List Event :=
  allEvents (opts.withChunk chunk) m ashift c device (m.size + 1)

/-- No list of the scan overflows. -/
structure Uncapped (chunk : Nat) : Prop where
  hits : (hitsOf (eventsBy c m device ashift opts chunk)).length ≤ opts.maxHits
  datasets : (datasetsOf (eventsBy c m device ashift opts chunk)).length ≤ opts.maxHits
  roots : (rootsOf (eventsBy c m device ashift opts chunk)).length ≤ maxRoots

/-- Both scans come to an end and report the same. -/
def Same (chunk chunk' : Nat) : Prop :=
  ∃ s s', report c m device ashift opts chunk = some s ∧
    report c m device ashift opts chunk' = some s' ∧
    (∀ h, h ∈ s.hits ↔ h ∈ s'.hits) ∧ (∀ h, h ∈ s.datasets ↔ h ∈ s'.datasets) ∧
    ∀ r, r ∈ s.roots ↔ r ∈ s'.roots

/-- The ends of the chunks make no difference to any structure. -/
structure Agree (chunk chunk' : Nat) : Prop where
  dnodes : ∀ p, SlotPlace opts m p → wholeSlot opts device m p ≠ [] →
    (claimedAt m p ≤ slotLeft (opts.withChunk chunk) m p ↔
      claimedAt m p ≤ slotLeft (opts.withChunk chunk') m p)
  headers : ∀ p, SlotPlace opts m p →
    asMetaObjset (m.slice p (slotLeft (opts.withChunk chunk) m p)) =
      asMetaObjset (m.slice p (slotLeft (opts.withChunk chunk') m p))
  blocks : ∀ p e,
    (BlockPlace (opts.withChunk chunk) m ashift p ∧
        e ∈ blockAt opts device m c p (blockLeft (opts.withChunk chunk) m p)) ↔
      BlockPlace (opts.withChunk chunk') m ashift p ∧
        e ∈ blockAt opts device m c p (blockLeft (opts.withChunk chunk') m p)

variable {c m device ashift opts}

theorem slotPlace_withChunk {chunk p : Nat} :
    SlotPlace (opts.withChunk chunk) m p ↔ SlotPlace opts m p :=
  ⟨fun h => ⟨h.start, h.step, h.stop⟩, fun h => ⟨h.start, h.step, h.stop⟩⟩

theorem fuel_enough {chunk : Nat} :
    endOf (opts.withChunk chunk) m ≤ startOf (opts.withChunk chunk) m + (m.size + 1) := by
  have hend : endOf (opts.withChunk chunk) m ≤ m.size := endOf_le
  omega

theorem mem_hitsOf {es : List Event} {h : Hit} : h ∈ hitsOf es ↔ .hit h ∈ es := by
  rw [hitsOf, List.mem_filterMap]
  constructor
  · rintro ⟨e, he, heq⟩
    cases e <;> cases heq
    exact he
  · intro he
    exact ⟨_, he, rfl⟩

theorem hitsOf_append (es es' : List Event) : hitsOf (es ++ es') = hitsOf es ++ hitsOf es' :=
  List.filterMap_append

theorem mem_datasetsOf {es : List Event} {h : Hit} : h ∈ datasetsOf es ↔ .dataset h ∈ es := by
  rw [datasetsOf, List.mem_filterMap]
  constructor
  · rintro ⟨e, he, heq⟩
    cases e <;> cases heq
    exact he
  · intro he
    exact ⟨_, he, rfl⟩

theorem mem_rootsOf {es : List Event} {r : RootHit} : r ∈ rootsOf es ↔ .root r ∈ es := by
  rw [rootsOf, List.mem_filterMap]
  constructor
  · rintro ⟨e, he, heq⟩
    cases e <;> cases heq
    exact he
  · intro he
    exact ⟨_, he, rfl⟩

/-- A scan that gets on comes to an end. -/
theorem scanFrom_isSome {src : Surface} {stop : Nat → Bool} {end_ : Nat}
    (hchunk : 0 < opts.chunk) :
    ∀ fuel at_ s, end_ ≤ at_ + fuel →
      (scanFrom c src device ashift opts stop end_ (fuel + 1) at_ s).isSome := by
  intro fuel
  induction fuel with
  | zero =>
    intro at_ s hfuel
    rw [scanFrom, if_neg (by omega)]
    rfl
  | succ fuel ih =>
    intro at_ s hfuel
    rw [scanFrom]
    by_cases hat : at_ < end_
    · rw [if_pos hat]
      split
      · rfl
      · split
        · rfl
        · split
          · exact ih _ _ (by omega)
          · simp only
            split
            · rfl
            · exact ih _ _ (by omega)
    · rw [if_neg hat]
      rfl

/-- Chunks of no bytes show nothing. -/
theorem scanChunk_zero (hchunk : opts.chunk = 0) {end_ at_ : Nat} {window : List UInt8} {s : Scan} :
    scanChunk c device ashift opts end_ at_ window s = s := by
  have hstep : 0 < stepOf ashift := Nat.two_pow_pos _
  have hown : ownOf opts end_ at_ = 0 := by rw [ownOf, hchunk, Nat.zero_min]
  have hcount : divCeil 0 (stepOf ashift) = 0 := by
    have hnone := (lt_divCeil_iff (a := 0) (k := 0) hstep).not.mpr (by omega)
    omega
  simp only [scanChunk, hown, Nat.zero_min, List.take_zero, hcount]
  rw [plaintextPass, List.length_nil, Nat.zero_div, plaintextFrom, blocksFrom, ite_self]

theorem scanFrom_zero (hchunk : opts.chunk = 0) {end_ at_ : Nat} (hat : at_ < end_)
    (hsize : dnodeSize ≤ m.size - at_) :
    ∀ fuel s, s.stoppedEarly = false →
      scanFrom c (ofMedium m) device ashift opts (fun _ => false) end_ fuel at_ s = none := by
  intro fuel
  induction fuel with
  | zero =>
    intro s _
    rfl
  | succ fuel ih =>
    intro s hs
    have hread : ¬ readable (ofMedium m) opts end_ at_ < dnodeSize := by
      rw [Nat.not_lt]
      exact readable_ge_iff.mpr hsize
    have hin : at_ ≤ m.size := by
      have hpos : 0 < dnodeSize := by decide
      omega
    rw [scanFrom, if_pos hat, if_neg Bool.false_ne_true, if_neg hread, read_ofMedium hin]
    simp only [scanChunk_zero hchunk, hchunk, Nat.add_zero]
    rw [if_neg]
    · exact ih _ hs
    · show ¬ s.stoppedEarly = true
      rw [hs]
      exact Bool.false_ne_true

/-- Nothing is read where the range or the member has ended. -/
theorem scanFrom_nothing {end_ at_ fuel : Nat} {s : Scan}
    (h : end_ ≤ at_ ∨ m.size - at_ < dnodeSize) :
    scanFrom c (ofMedium m) device ashift opts (fun _ => false) end_ (fuel + 1) at_ s = some s := by
  rw [scanFrom]
  by_cases hat : at_ < end_
  · have hshort : readable (ofMedium m) opts end_ at_ < dnodeSize := by
      rw [← Nat.not_le, readable_ge_iff]
      omega
    rw [if_pos hat, if_neg Bool.false_ne_true, if_pos hshort]
  · rw [if_neg hat]

theorem report_eq {chunk : Nat} :
    report c m device ashift opts chunk =
      scanFrom c (ofMedium m) device ashift (opts.withChunk chunk) (fun _ => false)
        (endOf opts m) (m.size + 1) (startOf opts m) (Scan.start (startOf opts m)) := rfl

theorem report_isSome_iff {chunk : Nat} :
    (report c m device ashift opts chunk).isSome ↔ Ends m opts chunk := by
  have hfuel : endOf opts m ≤ startOf opts m + m.size := Nat.le_trans endOf_le (Nat.le_add_left _ _)
  rw [report_eq]
  constructor
  · intro hsome
    by_contra hends
    obtain ⟨hchunk, hrest⟩ := not_or.mp hends
    obtain ⟨hrange, hsize⟩ := not_or.mp hrest
    have hzero : (opts.withChunk chunk).chunk = 0 := Nat.eq_zero_of_not_pos hchunk
    rw [scanFrom_zero hzero (Nat.not_le.mp hrange) (Nat.not_lt.mp hsize) _ _ rfl] at hsome
    cases hsome
  · rintro (hchunk | hnothing)
    · have hpos : 0 < (opts.withChunk chunk).chunk := hchunk
      exact scanFrom_isSome hpos _ _ _ hfuel
    · rw [scanFrom_nothing hnothing]
      rfl

/-- A scan that nothing overflows reports all that there is. -/
theorem report_spec {chunk : Nat} {s : Scan} (huncapped : Uncapped c m device ashift opts chunk)
    (hrun : report c m device ashift opts chunk = some s) :
    s.hits = hitsOf (eventsBy c m device ashift opts chunk) ∧
      s.datasets = datasetsOf (eventsBy c m device ashift opts chunk) ∧
      s.roots = rootsOf (eventsBy c m device ashift opts chunk) := by
  have hshows : Shows (opts.withChunk chunk) s (eventsBy c m device ashift opts chunk) := by
    have hstart : Shows (opts.withChunk chunk) (Scan.start (startOf opts m)) [] := Shows.start _
    have hrun : scanFrom c (ofMedium m) device ashift (opts.withChunk chunk) (fun _ => false)
        (endOf (opts.withChunk chunk) m) (m.size + 1) (startOf (opts.withChunk chunk) m)
        (Scan.start (startOf opts m)) = some s := hrun
    rcases scanFrom_spec endOf_le _ _ _ _ hstart rfl hrun with
      ⟨-, hshows⟩ | ⟨before, b, after, heq, hstopped, -, -, hshows⟩
    · exact hshows
    · exfalso
      have hover := hshows.stopped.mp hstopped
      have hfits := huncapped.hits
      have hsplit : before ++ b :: after = (before ++ [b]) ++ after := by simp
      rw [eventsBy, allEvents, heq, hsplit, List.flatMap_append, hitsOf_append,
        List.length_append] at hfits
      rw [List.nil_append] at hover
      exact absurd hover (Nat.not_lt.mpr (Nat.le_trans (Nat.le_add_right _ _) hfits))
  refine ⟨?_, ?_, ?_⟩
  · rw [hshows.hits]
    exact List.take_of_length_le huncapped.hits
  · rw [hshows.datasets]
    exact List.take_of_length_le huncapped.datasets
  · rw [hshows.roots]
    exact List.take_of_length_le huncapped.roots

/-- Two scans that nothing overflows report the same if and only if they meet the same. -/
theorem same_iff_events {chunk chunk' : Nat} (h : Uncapped c m device ashift opts chunk)
    (h' : Uncapped c m device ashift opts chunk') :
    Same c m device ashift opts chunk chunk' ↔
      (Ends m opts chunk ∧ Ends m opts chunk') ∧
        ∀ e, e ∈ eventsBy c m device ashift opts chunk ↔
          e ∈ eventsBy c m device ashift opts chunk' := by
  constructor
  · rintro ⟨s, s', hrun, hrun', hhits, hdatasets, hroots⟩
    refine ⟨⟨?_, ?_⟩, fun e => ?_⟩
    · exact report_isSome_iff.mp (Option.isSome_iff_exists.mpr ⟨s, hrun⟩)
    · exact report_isSome_iff.mp (Option.isSome_iff_exists.mpr ⟨s', hrun'⟩)
    · obtain ⟨hs, hd, hr⟩ := report_spec h hrun
      obtain ⟨hs', hd', hr'⟩ := report_spec h' hrun'
      rw [hs, hs'] at hhits
      rw [hd, hd'] at hdatasets
      rw [hr, hr'] at hroots
      cases e with
      | hit hit => rw [← mem_hitsOf, ← mem_hitsOf, hhits]
      | dataset hit => rw [← mem_datasetsOf, ← mem_datasetsOf, hdatasets]
      | root r => rw [← mem_rootsOf, ← mem_rootsOf, hroots]
  · rintro ⟨⟨hends, hends'⟩, hsame⟩
    have hsome : (report c m device ashift opts chunk).isSome := report_isSome_iff.mpr hends
    have hsome' : (report c m device ashift opts chunk').isSome := report_isSome_iff.mpr hends'
    obtain ⟨s, hrun⟩ := Option.isSome_iff_exists.mp hsome
    obtain ⟨s', hrun'⟩ := Option.isSome_iff_exists.mp hsome'
    obtain ⟨hs, hd, hr⟩ := report_spec h hrun
    obtain ⟨hs', hd', hr'⟩ := report_spec h' hrun'
    refine ⟨s, s', hrun, hrun', fun hit => ?_, fun hit => ?_, fun r => ?_⟩
    · rw [hs, hs', mem_hitsOf, mem_hitsOf, hsame]
    · rw [hd, hd', mem_datasetsOf, mem_datasetsOf, hsame]
    · rw [hr, hr', mem_rootsOf, mem_rootsOf, hsame]

/-- Chunks of whole slots meet the same if and only if their ends make no difference. -/
theorem events_iff_agree {chunk chunk' : Nat} (hpos : 0 < chunk) (hslots : dnodeSize ∣ chunk)
    (hpos' : 0 < chunk') (hslots' : dnodeSize ∣ chunk') :
    (∀ e, e ∈ eventsBy c m device ashift opts chunk ↔
        e ∈ eventsBy c m device ashift opts chunk') ↔
      Agree c m device ashift opts chunk chunk' := by
  have hplain : ∀ e : Event, e.found = .plaintext →
      (e ∈ eventsBy c m device ashift opts chunk ↔ SlotPlace opts m e.offset ∧
        e ∈ slotAt opts device m e.offset (slotLeft (opts.withChunk chunk) m e.offset)) := by
    intro e he
    rw [eventsBy, mem_allEvents_of_plaintext hpos hslots fuel_enough he, slotPlace_withChunk]
    rfl
  have hplain' : ∀ e : Event, e.found = .plaintext →
      (e ∈ eventsBy c m device ashift opts chunk' ↔ SlotPlace opts m e.offset ∧
        e ∈ slotAt opts device m e.offset (slotLeft (opts.withChunk chunk') m e.offset)) := by
    intro e he
    rw [eventsBy, mem_allEvents_of_plaintext hpos' hslots' fuel_enough he, slotPlace_withChunk]
    rfl
  have hslot : ∀ p, SlotPlace opts m p →
      ((∀ e, e ∈ slotAt opts device m p (slotLeft (opts.withChunk chunk) m p) ↔
          e ∈ slotAt opts device m p (slotLeft (opts.withChunk chunk') m p)) ↔
        (wholeSlot opts device m p ≠ [] →
          (claimedAt m p ≤ slotLeft (opts.withChunk chunk) m p ↔
            claimedAt m p ≤ slotLeft (opts.withChunk chunk') m p)) ∧
        asMetaObjset (m.slice p (slotLeft (opts.withChunk chunk) m p)) =
          asMetaObjset (m.slice p (slotLeft (opts.withChunk chunk') m p))) := by
    intro p hp
    have hleft : dnodeSize ≤ slotLeft (opts.withChunk chunk) m p ∧
        slotLeft (opts.withChunk chunk) m p ≤ m.size - p :=
      slotLeft_ge hpos hslots (slotPlace_withChunk.mpr hp)
    have hleft' : dnodeSize ≤ slotLeft (opts.withChunk chunk') m p ∧
        slotLeft (opts.withChunk chunk') m p ≤ m.size - p :=
      slotLeft_ge hpos' hslots' (slotPlace_withChunk.mpr hp)
    exact slotAt_iff hleft.1 hleft.2 hleft'.1 hleft'.2
  constructor
  · intro hsame
    have hboth : ∀ p, SlotPlace opts m p → ∀ e,
        e ∈ slotAt opts device m p (slotLeft (opts.withChunk chunk) m p) ↔
          e ∈ slotAt opts device m p (slotLeft (opts.withChunk chunk') m p) := by
      intro p hp e
      constructor
      · intro he
        obtain ⟨rfl, hfound⟩ := of_mem_slotAt he
        exact ((hplain' e hfound).mp ((hsame e).mp ((hplain e hfound).mpr ⟨hp, he⟩))).2
      · intro he
        obtain ⟨rfl, hfound⟩ := of_mem_slotAt he
        exact ((hplain e hfound).mp ((hsame e).mpr ((hplain' e hfound).mpr ⟨hp, he⟩))).2
    refine ⟨fun p hp => ((hslot p hp).mp (hboth p hp)).1,
      fun p hp => ((hslot p hp).mp (hboth p hp)).2, fun p e => ?_⟩
    constructor
    · rintro ⟨hp, he⟩
      obtain ⟨rfl, hfound⟩ := of_mem_blockAt he
      exact (mem_allEvents_of_compressed hpos' hslots' fuel_enough hfound).mp ((hsame e).mp
        ((mem_allEvents_of_compressed hpos hslots fuel_enough hfound).mpr ⟨hp, he⟩))
    · rintro ⟨hp, he⟩
      obtain ⟨rfl, hfound⟩ := of_mem_blockAt he
      exact (mem_allEvents_of_compressed hpos hslots fuel_enough hfound).mp ((hsame e).mpr
        ((mem_allEvents_of_compressed hpos' hslots' fuel_enough hfound).mpr ⟨hp, he⟩))
  · intro hagree e
    by_cases hfound : e.found = .plaintext
    · rw [hplain e hfound, hplain' e hfound]
      refine and_congr_right (fun hp => ?_)
      exact (hslot e.offset hp).mpr ⟨hagree.dnodes _ hp, hagree.headers _ hp⟩ e
    · rw [eventsBy, eventsBy, mem_allEvents_of_compressed hpos hslots fuel_enough hfound,
        mem_allEvents_of_compressed hpos' hslots' fuel_enough hfound]
      exact hagree.blocks e.offset e

/-- Nothing is met, and nothing differs, where nothing is read. -/
theorem nothing_met {chunk : Nat}
    (hnothing : endOf opts m ≤ startOf opts m ∨ m.size - startOf opts m < dnodeSize) :
    eventsBy c m device ashift opts chunk = [] := by
  rw [eventsBy, allEvents, chunkStarts, if_neg, List.flatMap_nil]
  rw [not_and_or, Nat.not_lt, not_not]
  rcases hnothing with hrange | hsize
  · exact Or.inl hrange
  · right
    rw [← Nat.not_le, readable_ge_iff]
    exact Nat.not_le.mpr hsize

theorem nothing_agrees {chunk chunk' : Nat}
    (hnothing : endOf opts m ≤ startOf opts m ∨ m.size - startOf opts m < dnodeSize) :
    Agree c m device ashift opts chunk chunk' := by
  have hend : endOf opts m ≤ m.size := endOf_le
  have hpos : 0 < dnodeSize := by decide
  have hnoslot : ∀ p, ¬ SlotPlace opts m p := by
    intro p hp
    have hstart := hp.start
    have hstop := hp.stop
    omega
  have hnoblock : ∀ chunk p, ¬ BlockPlace (opts.withChunk chunk) m ashift p := by
    intro chunk p hp
    have hstart : startOf opts m ≤ p := hp.start
    have hstop : p < endOf opts m := hp.stop
    have hbase : startOf opts m ≤ chunkOf (opts.withChunk chunk) m p := start_le_chunkBase
    have hsize := hp.size
    omega
  refine ⟨fun p hp => absurd hp (hnoslot p), fun p hp => absurd hp (hnoslot p), fun p e => ?_⟩
  exact iff_of_false (fun h => hnoblock _ _ h.1) (fun h => hnoblock _ _ h.1)

/-- A scan for plaintext structures only. -/
def plainOptions : Options :=
  { profile := Profile.none, strictProfile := false, range := none, codecs := []
    blockSizes := [16384, 32768, 131072], maxHits := 100000, collectHits := true
    chunk := 2 ^ 22 }

/-- Codecs that decode nothing. -/
def noCodecs : Codecs :=
  { lz4Block := fun _ _ => none, zlib := fun _ _ => none, zstdHeader := fun _ => false
    zstdFrame := fun _ _ => none }

/-- A member of two slots, which are one dnode. -/
def twoSlots : Medium :=
  { size := 1024
    byte := fun i => [20, 17, 1, 1, 0, 0, 0, 0, 1, 0, 1, 0, 1].getD i 0
    device := false
    size_lt := by decide }

/-- What a scan in chunks of this size reports of the two slots. -/
def reported (chunk : Nat) : Option (List Hit × List Hit × List RootHit) :=
  (report noCodecs twoSlots 0 9 plainOptions chunk).map (fun s => (s.hits, s.datasets, s.roots))

theorem twoSlots_uncapped {chunk : Nat} (hchunk : chunk = 1024 ∨ chunk = 2048) :
    Uncapped noCodecs twoSlots 0 9 plainOptions chunk := by
  rcases hchunk with rfl | rfl
  · exact ⟨by decide +kernel, by decide +kernel, by decide +kernel⟩
  · exact ⟨by decide +kernel, by decide +kernel, by decide +kernel⟩

end Report

end Member
end Carve
end ZvolRescue
