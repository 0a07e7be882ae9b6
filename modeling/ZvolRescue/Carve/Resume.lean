import ZvolRescue.Carve.Chunks
import ZvolRescue.Lib.Firsts

/-!
# Scans that resume

A run scans each member from the offset that the last run recorded, and adds what it meets to
the index.  It stops in a chunk with more hits than it has room for and records the start of that
chunk, so the runs come to an end if and only if no chunk alone holds more (`recovers_iff`).
-/

namespace ZvolRescue
namespace Carve
namespace Member

open Lib Ondisk Source

/-! ## A run -/

/-- What a run is asked for. -/
structure Request where
  profile : Profile
  strictProfile : Bool
  range : Option (Nat × Nat)
  codecs : List Codec
  maxHits : Nat

/-- The options of the scan of one member. -/
def Request.options (q : Request) (range : Option (Nat × Nat)) : Options :=
  { profile := q.profile, strictProfile := q.strictProfile, range, codecs := q.codecs
    blockSizes := [16384, 32768, 131072], maxHits := q.maxHits, collectHits := true
    chunk := 2 ^ 22 }

/-- What the runs so far have recorded. -/
structure State where
  /-- The offset that each member was scanned to. -/
  reached : List Nat
  complete : Bool
  candidates : List Hit
  deriving DecidableEq

def State.start : State := { reached := [], complete := false, candidates := [] }

/-- What is scanned of a member of which a run has reached `from_`. -/
def memberRange (range : Option (Nat × Nat)) (from_ size : Nat) : Option (Nat × Nat) :=
  match range with
  | some (a, b) => some (max a from_, b)
  | none => if from_ = 0 then none else some (from_, size)

/-- Where a candidate was found. -/
def siteOf (h : Hit) : Nat × Nat × Nat := (h.device, h.offset, h.slot)

def siteLe (a b : Hit) : Bool :=
  if a.device = b.device then
    if a.offset = b.offset then a.slot ≤ b.slot else a.offset < b.offset
  else a.device < b.device

section Run

variable (c : Codecs) (ashift : Nat) (better : Hit → Hit → Bool) (members : List (Option Medium))
  (q : Request)

def scanOne (i : Nat) (m : Medium) (from_ : Nat) : Option Scan :=
  scanMember c (ofMedium m) i ashift (q.options (memberRange q.range from_ m.size))
    (fun _ => false) (m.size + 1)

/-- The members from member `i` on: what each was scanned to, whether all to the end, and the
hits. -/
def scanAll (reached : List Nat) : Nat → List (Option Medium) → Option (List Nat × Bool × List Hit)
  | _, [] => some ([], true, [])
  | i, none :: rest => do
    let (offsets, complete, hits) ← scanAll reached (i + 1) rest
    return (0 :: offsets, complete, hits)
  | i, some m :: rest => do
    let s ← scanOne c ashift q i m (reached.getD i 0)
    let (offsets, complete, hits) ← scanAll reached (i + 1) rest
    return (s.resumeAt :: offsets, !s.stoppedEarly && complete, s.hits ++ hits)

/-- One run.  A candidate that is met twice is one candidate. -/
def run (st : State) : Option State := do
  let (reached, complete, hits) ← scanAll c ashift q st.reached 0 members
  let candidates := dedup siteOf ((st.candidates ++ hits).mergeSort siteLe)
  return { reached, complete, candidates := candidates.mergeSort better }

def runs : Nat → State → Option State
  | 0, st => some st
  | n + 1, st => (runs n st).bind (run c ashift better members q)

end Run

theorem siteLe_ordered : Ordered siteOf siteLe where
  trans a b x := by
    simp only [siteLe]
    grind
  total a b := by
    simp only [siteLe]
    grind
  antisymm a b := by
    simp only [siteLe, siteOf]
    grind
  of_eq a b := by
    simp only [siteLe, siteOf]
    grind

/-! ## What is left of a member -/

section Left

variable {opts : Options} {m : Medium}

theorem chunkStarts_le {end_ k : Nat} :
    ∀ fuel at_, k ∈ chunkStarts opts m end_ fuel at_ → at_ ≤ k ∧ k < end_ := by
  intro fuel
  induction fuel with
  | zero =>
    intro at_ h
    cases h
  | succ fuel ih =>
    intro at_ h
    rw [chunkStarts] at h
    split at h
    · rename_i hin
      rcases List.mem_cons.mp h with rfl | h
      · exact ⟨le_refl _, hin.1⟩
      · have hrest := ih _ h
        omega
    · cases h

theorem chunkStarts_length {end_ : Nat} :
    ∀ fuel at_, (chunkStarts opts m end_ fuel at_).length ≤ fuel := by
  intro fuel
  induction fuel with
  | zero =>
    intro at_
    exact le_refl _
  | succ fuel ih =>
    intro at_
    rw [chunkStarts]
    split
    · exact Nat.succ_le_succ (ih _)
    · exact Nat.zero_le _

theorem chunkStarts_fuel (hchunk : 0 < opts.chunk) {end_ : Nat} :
    ∀ fuel fuel' at_, end_ ≤ at_ + fuel → end_ ≤ at_ + fuel' →
      chunkStarts opts m end_ fuel at_ = chunkStarts opts m end_ fuel' at_ := by
  intro fuel
  induction fuel with
  | zero =>
    intro fuel' at_ h h'
    cases fuel' with
    | zero => rfl
    | succ fuel' => rw [chunkStarts, chunkStarts, if_neg (by omega)]
  | succ fuel ih =>
    intro fuel' at_ h h'
    cases fuel' with
    | zero => rw [chunkStarts, chunkStarts, if_neg (by omega)]
    | succ fuel' =>
      rw [chunkStarts, chunkStarts, ih fuel' (at_ + opts.chunk) (by omega) (by omega)]

/-- The chunks from one of the chunks on are those that follow it. -/
theorem chunkStarts_suffix (hchunk : 0 < opts.chunk) {end_ b : Nat} {after : List Nat} :
    ∀ before fuel at_, end_ ≤ at_ + fuel →
      chunkStarts opts m end_ fuel at_ = before ++ b :: after →
      chunkStarts opts m end_ fuel b = b :: after := by
  intro before
  induction before with
  | nil =>
    intro fuel at_ hfuel h
    have hb : at_ = b := by
      cases fuel with
      | zero => cases h
      | succ fuel =>
        rw [chunkStarts] at h
        split at h
        · exact (List.cons.inj h).1
        · cases h
    rw [hb] at h
    exact h
  | cons k before ih =>
    intro fuel at_ hfuel h
    cases fuel with
    | zero => cases h
    | succ fuel =>
      rw [chunkStarts] at h
      split at h
      · obtain ⟨-, h⟩ := List.cons.inj h
        have hmem : b ∈ chunkStarts opts m end_ fuel (at_ + opts.chunk) := by
          rw [h]
          simp
        have hle := chunkStarts_le _ _ hmem
        rw [← ih fuel (at_ + opts.chunk) (by omega) h]
        exact chunkStarts_fuel hchunk _ _ _ (by omega) (by omega)
      · cases h

/-- A scan that comes to its end has nothing left. -/
theorem scanFrom_end {c : Codecs} {device ashift end_ : Nat} (hend : end_ ≤ m.size) {s' : Scan} :
    ∀ fuel at_ s, s.resumeAt = at_ ∨ end_ ≤ at_ ∧ end_ ≤ s.resumeAt →
      scanFrom c (ofMedium m) device ashift opts (fun _ => false) end_ fuel at_ s = some s' →
      s'.stoppedEarly = false → s.stoppedEarly = false →
      end_ ≤ s'.resumeAt ∨ m.size - s'.resumeAt < dnodeSize := by
  intro fuel
  induction fuel with
  | zero =>
    intro at_ s _ hrun
    cases hrun
  | succ fuel ih =>
    intro at_ s hat hrun hgoing hs
    rw [scanFrom] at hrun
    by_cases hin : at_ < end_
    · have hreach : s.resumeAt = at_ := by omega
      simp only [if_pos hin, Bool.false_eq_true, if_false] at hrun
      by_cases hshort : readable (ofMedium m) opts end_ at_ < dnodeSize
      · rw [if_pos hshort] at hrun
        cases hrun
        have hiff : dnodeSize ≤ readable (ofMedium m) opts end_ at_ ↔ dnodeSize ≤ m.size - at_ :=
          readable_ge_iff
        omega
      · rw [if_neg hshort, read_ofMedium (by omega)] at hrun
        simp only at hrun
        split at hrun
        · rename_i hstopped
          cases hrun
          exact absurd hgoing (by rw [Scan.reach, hstopped]; exact Bool.noConfusion)
        · rename_i hgoes
          refine ih _ _ ?_ hrun hgoing (Bool.eq_false_iff.mpr hgoes)
          show min (at_ + opts.chunk) end_ = at_ + opts.chunk ∨
            end_ ≤ at_ + opts.chunk ∧ end_ ≤ min (at_ + opts.chunk) end_
          omega
    · rw [if_neg hin] at hrun
      cases hrun
      left
      omega

end Left

section Held

variable (c : Codecs) (ashift : Nat) (q : Request) (i : Nat) (m : Medium)

/-- Where the scan of a member ends. -/
def endFor : Nat :=
  match q.range with
  | some (_, b) => min b m.size
  | none => m.size

/-- Where the scan begins of a member of which a run has reached `from_`. -/
def beginAt (from_ : Nat) : Nat :=
  match q.range with
  | some (a, _) => max a from_
  | none => from_

/-- The chunks that are left. -/
def left (from_ : Nat) : List Nat :=
  chunkStarts (q.options none) m (endFor q m) (m.size + 1) (beginAt q from_)

/-- The hits of a chunk. -/
def held (k : Nat) : List Hit :=
  hitsOf (eventsAt (q.options none) m c i ashift (endFor q m) k)

variable {c ashift q i m}

theorem endFor_le : endFor q m ≤ m.size := by
  rw [endFor]
  split
  · exact Nat.min_le_right _ _
  · exact le_refl _

theorem le_beginAt {from_ : Nat} : from_ ≤ beginAt q from_ := by
  rw [beginAt]
  split
  · exact Nat.le_max_right _ _
  · exact le_refl _

/-- What lies past the begin of a range is begun at. -/
theorem beginAt_of_le {from_ k : Nat} (h : beginAt q from_ ≤ k) : beginAt q k = k := by
  rw [beginAt] at h ⊢
  split at h
  · exact Nat.max_eq_right (Nat.le_trans (Nat.le_max_left _ _) h)
  · rfl

theorem rangeOf_options {from_ : Nat} :
    rangeOf (q.options (memberRange q.range from_ m.size)) m.size =
      (beginAt q from_, endFor q m) := by
  simp only [rangeOf, beginAt, endFor, Request.options, memberRange]
  cases q.range with
  | some r => rfl
  | none =>
    by_cases hzero : from_ = 0
    · simp [hzero]
    · simp [hzero]

theorem scanOne_eq {from_ : Nat} :
    scanOne c ashift q i m from_ =
      scanFrom c (ofMedium m) i ashift (q.options (memberRange q.range from_ m.size))
        (fun _ => false) (endFor q m) (m.size + 1) (beginAt q from_)
        (Scan.start (beginAt q from_)) := by
  have hrange : rangeOf (q.options (memberRange q.range from_ m.size)) (ofMedium m).size =
      (beginAt q from_, endFor q m) := rangeOf_options
  simp only [scanOne, scanMember, hrange]

theorem left_fuel {from_ : Nat} : endFor q m ≤ beginAt q from_ + (m.size + 1) := by
  have hend : endFor q m ≤ m.size := endFor_le
  omega

theorem chunk_pos {range : Option (Nat × Nat)} : 0 < (q.options range).chunk :=
  Nat.two_pow_pos 22

theorem scanOne_isSome {from_ : Nat} : (scanOne c ashift q i m from_).isSome := by
  have hend : endFor q m ≤ m.size := endFor_le
  rw [scanOne_eq]
  exact scanFrom_isSome chunk_pos _ _ _ (by omega)

/-- Nothing is left past the end. -/
theorem left_eq_nil {from_ : Nat} (h : endFor q m ≤ from_ ∨ m.size - from_ < dnodeSize) :
    left q m from_ = [] := by
  have hbegin : from_ ≤ beginAt q from_ := le_beginAt
  rw [left, chunkStarts, if_neg]
  rintro ⟨hin, hread⟩
  have hsize : dnodeSize ≤ m.size - beginAt q from_ := readable_ge_iff.mp (Nat.not_lt.mp hread)
  omega

/-- The scan of one member has read the chunks `before`, and `after` are left. -/
structure Scanned (c : Codecs) (ashift : Nat) (q : Request) (i : Nat) (m : Medium)
    (from_ : Nat) (s : Scan) (before after : List Nat) : Prop where
  chunks : left q m from_ = before ++ after
  left : left q m s.resumeAt = after
  hits : ∃ extra rest, s.hits = before.flatMap (held c ashift q i m) ++ extra ∧
    after.flatMap (held c ashift q i m) = extra ++ rest
  fits : (before.flatMap (held c ashift q i m)).length ≤ q.maxHits
  stopped : s.stoppedEarly = true ↔ after ≠ []
  exceeds : ∀ b rest, after = b :: rest →
    q.maxHits < ((before ++ [b]).flatMap (held c ashift q i m)).length

theorem hitsOf_flatMap {range : Option (Nat × Nat)} (ks : List Nat) :
    hitsOf (ks.flatMap (eventsAt (q.options range) m c i ashift (endFor q m))) =
      ks.flatMap (held c ashift q i m) := by
  rw [hitsOf, List.filterMap_flatMap]
  rfl

theorem chunkStarts_options {range : Option (Nat × Nat)} {from_ : Nat} :
    chunkStarts (q.options range) m (endFor q m) (m.size + 1) (beginAt q from_) =
      Member.left q m from_ := by
  have hread : ∀ at_, readable (ofMedium m) (q.options range) (endFor q m) at_ =
      readable (ofMedium m) (q.options none) (endFor q m) at_ := fun _ => rfl
  have hchunk : (q.options range).chunk = (q.options none).chunk := rfl
  rw [left, chunkStarts_congr hchunk hread]

theorem scanOne_spec {from_ : Nat} {s : Scan} (h : scanOne c ashift q i m from_ = some s) :
    ∃ before after, Scanned c ashift q i m from_ s before after := by
  rw [scanOne_eq] at h
  rcases scanFrom_spec endFor_le _ _ _ _ (Shows.start _) rfl h with
    ⟨hgoing, hshows⟩ | ⟨before, b, after, heq, hstopped, hat, hle, hshows⟩
  · have hunder := hshows.stopped.not.mp (by rw [hgoing]; exact Bool.false_ne_true)
    have hhits := hshows.hits
    have hend := scanFrom_end endFor_le _ _ (Scan.start (beginAt q from_)) (Or.inl rfl) h hgoing rfl
    rw [List.nil_append, chunkStarts_options, hitsOf_flatMap] at hunder hhits
    rw [List.take_of_length_le (Nat.not_lt.mp hunder)] at hhits
    refine ⟨left q m from_, [], (List.append_nil _).symm, left_eq_nil hend,
      ⟨[], [], ?_, rfl⟩, Nat.not_lt.mp hunder, ?_, fun b rest hnil => ?_⟩
    · rw [hhits, List.append_nil]
    · rw [hgoing]
      simp
    · cases hnil
  · rw [chunkStarts_options] at heq
    rw [List.nil_append, hitsOf_flatMap] at hle
    have hover := hshows.stopped.mp hstopped
    have hhits := hshows.hits
    rw [List.nil_append, hitsOf_flatMap] at hover hhits
    have hb : beginAt q from_ ≤ b := by
      have hmem : b ∈ left q m from_ := by
        rw [heq]
        simp
      exact (chunkStarts_le _ _ hmem).1
    have hleft : left q m s.resumeAt = b :: after := by
      rw [hat, left, beginAt_of_le hb]
      exact chunkStarts_suffix chunk_pos _ _ _ left_fuel heq
    refine ⟨before, b :: after, heq, hleft, ?_, hle, ?_, fun b' rest hcons => ?_⟩
    · have hroom : (before.flatMap (held c ashift q i m)).length ≤
          (q.options (memberRange q.range from_ m.size)).maxHits := hle
      obtain ⟨n, hn⟩ := Nat.exists_eq_add_of_le hroom
      refine ⟨(held c ashift q i m b).take n,
        (held c ashift q i m b).drop n ++ after.flatMap (held c ashift q i m), ?_, ?_⟩
      · rw [hhits, List.flatMap_append, List.flatMap_singleton, hn, List.take_length_add_append]
      · rw [List.flatMap_cons, ← List.append_assoc, List.take_append_drop]
    · rw [hstopped]
      simp
    · obtain ⟨rfl, -⟩ := List.cons.inj hcons
      exact hover

end Held

/-! ## The device of a hit -/

def Event.device : Event → Nat
  | hit h | dataset h => h.device
  | root r => r.device

section Device

variable {opts : Options} {m : Medium} {device : Nat} {e : Event}

theorem device_of_mem_headerEvents {offset : Nat} {found : Found} {buf : List UInt8}
    (h : e ∈ headerEvents device offset found buf) : e.device = device := by
  rw [headerEvents] at h
  split at h
  · rw [List.mem_singleton.mp h]
    rfl
  · cases h

theorem device_of_mem_dnodeEvents {offset slot : Nat} {found : Found} {dnode : DnodePhys}
    (h : e ∈ dnodeEvents opts device offset slot found dnode) : e.device = device := by
  rw [dnodeEvents] at h
  split at h
  · cases h
  · split at h
    · cases h
    · rcases List.mem_append.mp h with h | h
      · split at h
        · rw [List.mem_singleton.mp h]
          rfl
        · cases h
      · split at h
        · cases h
        · rw [List.mem_singleton.mp h]
          rfl

theorem device_of_mem_slotEvents {offset slot : Nat} {found : Found} {buf : List UInt8}
    (h : e ∈ slotEvents opts device offset slot found buf) : e.device = device := by
  rw [slotEvents] at h
  split at h
  · cases h
  · split at h
    · exact device_of_mem_dnodeEvents h
    · cases h

theorem device_of_mem_blockEvents {c : Codecs} {offset : Nat} {buf : List UInt8}
    (h : e ∈ blockEvents opts device c offset buf) : e.device = device := by
  obtain ⟨codec, -, h⟩ := List.mem_flatMap.mp h
  rw [codecEvents] at h
  split at h
  · cases h
  · rcases List.mem_append.mp h with h | h
    · exact device_of_mem_headerEvents h
    · obtain ⟨i, -, h⟩ := List.mem_flatMap.mp h
      exact device_of_mem_slotEvents h

theorem device_of_mem_chunkEvents {c : Codecs} {ashift end_ k : Nat} {window : List UInt8}
    (h : e ∈ chunkEvents opts device c ashift end_ k window) : e.device = device := by
  rw [chunkEvents] at h
  rcases List.mem_append.mp h with h | h
  · obtain ⟨i, -, h⟩ := List.mem_flatMap.mp h
    rcases List.mem_append.mp h with h | h
    · exact device_of_mem_slotEvents h
    · exact device_of_mem_headerEvents h
  · split at h
    · cases h
    · obtain ⟨j, -, h⟩ := List.mem_flatMap.mp h
      exact device_of_mem_blockEvents h

theorem device_of_mem_held {c : Codecs} {ashift : Nat} {q : Request} {i : Nat} {ks : List Nat}
    {a : Hit} (h : a ∈ ks.flatMap (held c ashift q i m)) : a.device = i := by
  obtain ⟨k, -, h⟩ := List.mem_flatMap.mp h
  exact device_of_mem_chunkEvents (mem_hitsOf.mp h)

end Device

/-! ## What one run does -/

section Step

variable {c : Codecs} {ashift : Nat} {better : Hit → Hit → Bool} {members : List (Option Medium)}
  {q : Request}

theorem Scanned.device {i : Nat} {m : Medium} {from_ : Nat} {s : Scan} {before after : List Nat}
    (h : Scanned c ashift q i m from_ s before after) {a : Hit} (ha : a ∈ s.hits) :
    a.device = i := by
  obtain ⟨extra, rest, hhits, hextra⟩ := h.hits
  rw [hhits] at ha
  rcases List.mem_append.mp ha with ha | ha
  · exact device_of_mem_held ha
  · have hin : a ∈ after.flatMap (held c ashift q i m) := by
      rw [hextra]
      exact List.mem_append_left _ ha
    exact device_of_mem_held hin

theorem scanAll_none {reached : List Nat} {ms : List (Option Medium)} {i : Nat} :
    scanAll c ashift q reached i (none :: ms) =
      (scanAll c ashift q reached (i + 1) ms).map (fun r => (0 :: r.1, r.2)) := by
  rw [scanAll]
  cases scanAll c ashift q reached (i + 1) ms with
  | none => rfl
  | some r => rfl

theorem scanAll_some {reached : List Nat} {ms : List (Option Medium)} {i : Nat} {m : Medium}
    {s : Scan} (hs : scanOne c ashift q i m (reached.getD i 0) = some s) :
    scanAll c ashift q reached i (some m :: ms) =
      (scanAll c ashift q reached (i + 1) ms).map
        (fun r => (s.resumeAt :: r.1, !s.stoppedEarly && r.2.1, s.hits ++ r.2.2)) := by
  rw [scanAll, hs]
  cases scanAll c ashift q reached (i + 1) ms with
  | none => rfl
  | some r => rfl

theorem scanAll_isSome {reached : List Nat} :
    ∀ ms i, (scanAll c ashift q reached i ms).isSome := by
  intro ms
  induction ms with
  | nil =>
    intro i
    rfl
  | cons o ms ih =>
    intro i
    cases o with
    | none =>
      rw [scanAll_none, Option.isSome_map]
      exact ih (i + 1)
    | some m =>
      have hsome : (scanOne c ashift q i m (reached.getD i 0)).isSome := scanOne_isSome
      obtain ⟨s, hs⟩ := Option.isSome_iff_exists.mp hsome
      rw [scanAll_some hs, Option.isSome_map]
      exact ih (i + 1)

/-- What a run does to member `i`. -/
def Done (c : Codecs) (ashift : Nat) (q : Request) (reached : List Nat) (complete : Bool)
    (hits : List Hit) (offset i : Nat) (m : Medium) : Prop :=
  ∃ s before after, Scanned c ashift q i m (reached.getD i 0) s before after ∧
    offset = s.resumeAt ∧ (complete = true → after = []) ∧
    ∀ a, a.device = i → (IsFirst siteOf hits a ↔ IsFirst siteOf s.hits a)

/-- Hits of other devices make no difference. -/
theorem IsFirst_append_left {l l' : List Hit} {a : Hit} (h : ∀ b ∈ l, b.device ≠ a.device) :
    IsFirst siteOf (l ++ l') a ↔ IsFirst siteOf l' a := by
  have hkey : ∀ b ∈ l, siteOf b ≠ siteOf a := fun b hb heq => h b hb (congrArg Prod.fst heq)
  rw [IsFirst.append_iff, and_iff_right hkey, or_iff_right]
  intro hfirst
  exact h a hfirst.mem rfl

theorem IsFirst_append_right {l l' : List Hit} {a : Hit} (h : ∀ b ∈ l', b.device ≠ a.device) :
    IsFirst siteOf (l ++ l') a ↔ IsFirst siteOf l a := by
  rw [IsFirst.append_iff, or_iff_left]
  rintro ⟨-, hfirst⟩
  exact h a hfirst.mem rfl

theorem scanAll_spec {reached : List Nat} :
    ∀ ms i offsets complete hits,
      scanAll c ashift q reached i ms = some (offsets, complete, hits) →
      (∀ j m, ms[j]? = some (some m) →
        Done c ashift q reached complete hits (offsets.getD j 0) (i + j) m) ∧
      (complete = false → ∃ j m s before after, ms[j]? = some (some m) ∧
        Scanned c ashift q (i + j) m (reached.getD (i + j) 0) s before after ∧ after ≠ []) ∧
      ∀ a ∈ hits, ∃ j m, ms[j]? = some (some m) ∧ a.device = i + j := by
  intro ms
  induction ms with
  | nil =>
    intro i offsets complete hits h
    rw [scanAll] at h
    cases h
    refine ⟨fun j m hj => ?_, fun hfalse => ?_, fun a ha => ?_⟩
    · cases hj
    · cases hfalse
    · cases ha
  | cons o ms ih =>
    intro i offsets complete hits h
    cases o with
    | none =>
      rw [scanAll_none, Option.map_eq_some_iff] at h
      obtain ⟨⟨offsets', complete', hits'⟩, hrest, heq⟩ := h
      cases heq
      obtain ⟨hdone, hstop, hdevice⟩ := ih _ _ _ _ hrest
      refine ⟨fun j m hj => ?_, fun hfalse => ?_, fun a ha => ?_⟩
      · cases j with
        | zero => cases hj
        | succ j =>
          have hthis := hdone j m hj
          rw [Nat.add_right_comm, Nat.add_assoc] at hthis
          exact hthis
      · obtain ⟨j, m, s, before, after, hj, hscanned, hne⟩ := hstop hfalse
        rw [Nat.add_right_comm, Nat.add_assoc] at hscanned
        exact ⟨j + 1, m, s, before, after, hj, hscanned, hne⟩
      · obtain ⟨j, m, hj, ha⟩ := hdevice a ha
        exact ⟨j + 1, m, hj, by omega⟩
    | some m =>
      have hsome : (scanOne c ashift q i m (reached.getD i 0)).isSome := scanOne_isSome
      obtain ⟨s, hs⟩ := Option.isSome_iff_exists.mp hsome
      obtain ⟨before, after, hscanned⟩ := scanOne_spec hs
      rw [scanAll_some hs, Option.map_eq_some_iff] at h
      obtain ⟨⟨offsets', complete', hits'⟩, hrest, heq⟩ := h
      cases heq
      obtain ⟨hdone, hstop, hdevice⟩ := ih _ _ _ _ hrest
      have hlater : ∀ b ∈ hits', i < b.device := by
        intro b hb
        obtain ⟨j, m, -, hb⟩ := hdevice b hb
        omega
      refine ⟨fun j m' hj => ?_, fun hfalse => ?_, fun a ha => ?_⟩
      · cases j with
        | zero =>
          cases hj
          refine ⟨s, before, after, hscanned, rfl, fun hcomplete => ?_, fun a ha => ?_⟩
          · have hgoing := (Bool.and_eq_true_iff.mp hcomplete).1
            by_contra hne
            rw [hscanned.stopped.mpr hne] at hgoing
            cases hgoing
          · refine IsFirst_append_right (fun b hb heq => ?_)
            have hlt := hlater b hb
            omega
        | succ j =>
          obtain ⟨s', before', after', hscanned', hoffset, hcomplete, hfirst⟩ := hdone j m' hj
          rw [Nat.add_right_comm, Nat.add_assoc] at hscanned' hfirst
          refine ⟨s', before', after', hscanned', hoffset,
            fun h => hcomplete (Bool.and_eq_true_iff.mp h).2, fun a ha => ?_⟩
          rw [IsFirst_append_left, hfirst a ha]
          intro b hb heq
          rw [hscanned.device hb, ha] at heq
          omega
      · by_cases hne : after = []
        · have hgoing : s.stoppedEarly = false := by
            rw [Bool.eq_false_iff]
            exact fun h => hscanned.stopped.mp h hne
          have hcomplete' : complete' = false := by
            rw [hgoing] at hfalse
            exact hfalse
          obtain ⟨j, m, s, before, after, hj, hscanned, hne⟩ := hstop hcomplete'
          rw [Nat.add_right_comm, Nat.add_assoc] at hscanned
          exact ⟨j + 1, m, s, before, after, hj, hscanned, hne⟩
        · exact ⟨0, m, s, before, after, rfl, hscanned, hne⟩
      · rcases List.mem_append.mp ha with ha | ha
        · exact ⟨0, m, rfl, hscanned.device ha⟩
        · obtain ⟨j, m, hj, ha⟩ := hdevice a ha
          exact ⟨j + 1, m, hj, by omega⟩

theorem run_eq {st : State} :
    run c ashift better members q st =
      (scanAll c ashift q st.reached 0 members).map (fun r =>
        { reached := r.1, complete := r.2.1
          candidates :=
            (dedup siteOf ((st.candidates ++ r.2.2).mergeSort siteLe)).mergeSort better }) := by
  rw [run]
  cases scanAll c ashift q st.reached 0 members with
  | none => rfl
  | some r => rfl

theorem run_isSome {st : State} : (run c ashift better members q st).isSome := by
  rw [run_eq, Option.isSome_map]
  exact scanAll_isSome _ _

/-- What a run does to a member, and that it says so when all members were scanned to the end. -/
theorem run_spec {st st' : State} (h : run c ashift better members q st = some st') :
    (∀ i m, members[i]? = some (some m) → ∃ s before after,
      Scanned c ashift q i m (st.reached.getD i 0) s before after ∧
        left q m (st'.reached.getD i 0) = after ∧ (st'.complete = true → after = []) ∧
        ∀ a, a.device = i →
          (a ∈ st'.candidates ↔ IsFirst siteOf (st.candidates ++ s.hits) a)) ∧
      (st'.complete = false → ∃ i m s before after, members[i]? = some (some m) ∧
        Scanned c ashift q i m (st.reached.getD i 0) s before after ∧ after ≠ []) ∧
      ∀ a ∈ st'.candidates, a ∈ st.candidates ∨ ∃ m, members[a.device]? = some (some m) := by
  rw [run_eq, Option.map_eq_some_iff] at h
  obtain ⟨⟨offsets, complete, hits⟩, hall, rfl⟩ := h
  obtain ⟨hdone, hstop, hdevice⟩ := scanAll_spec _ _ _ _ _ hall
  have hcandidates : ∀ a,
      a ∈ (dedup siteOf ((st.candidates ++ hits).mergeSort siteLe)).mergeSort better ↔
        IsFirst siteOf (st.candidates ++ hits) a := by
    intro a
    rw [List.mem_mergeSort, mem_dedup_mergeSort siteLe_ordered]
  refine ⟨fun i m hi => ?_, fun hfalse => ?_, fun a ha => ?_⟩
  · have hthis := hdone i m hi
    rw [Nat.zero_add] at hthis
    obtain ⟨s, before, after, hscanned, hoffset, hcomplete, hfirst⟩ := hthis
    refine ⟨s, before, after, hscanned, ?_, hcomplete, fun a ha => ?_⟩
    · show left q m (offsets.getD i 0) = after
      rw [hoffset]
      exact hscanned.left
    · rw [hcandidates, IsFirst.append_iff, IsFirst.append_iff, hfirst a ha]
  · obtain ⟨j, m, s, before, after, hj, hscanned, hne⟩ := hstop hfalse
    rw [Nat.zero_add] at hscanned
    exact ⟨j, m, s, before, after, hj, hscanned, hne⟩
  · rcases List.mem_append.mp ((hcandidates a).mp ha).mem with hin | hin
    · exact Or.inl hin
    · obtain ⟨j, m, hj, ha⟩ := hdevice a hin
      rw [Nat.zero_add] at ha
      right
      rw [ha]
      exact ⟨m, hj⟩

end Step

/-! ## What the runs have done -/

section Runs

variable {c : Codecs} {ashift : Nat} {better : Hit → Hit → Bool} {members : List (Option Medium)}
  {q : Request}

/-- All hits of a member, in the order in which they are met. -/
def allHeld (c : Codecs) (ashift : Nat) (q : Request) (i : Nat) (m : Medium) : List Hit :=
  (left q m 0).flatMap (held c ashift q i m)

/-- No chunk of a member holds more hits than a run has room for. -/
def Fits (c : Codecs) (ashift : Nat) (q : Request) (i : Nat) (m : Medium) : Prop :=
  ∀ k ∈ left q m 0, (held c ashift q i m k).length ≤ q.maxHits

/-- What `n` runs have done to a member. -/
structure Standing (c : Codecs) (ashift : Nat) (q : Request) (n : Nat) (st : State) (i : Nat)
    (m : Medium) (before after : List Nat) : Prop where
  chunks : left q m 0 = before ++ after
  left : left q m (st.reached.getD i 0) = after
  complete : st.complete = true → after = []
  sound : ∀ a ∈ st.candidates, a.device = i → IsFirst siteOf (allHeld c ashift q i m) a
  kept : ∀ a ∈ before.flatMap (held c ashift q i m),
    IsFirst siteOf (allHeld c ashift q i m) a → a ∈ st.candidates
  small : ∀ k ∈ before, (held c ashift q i m k).length ≤ q.maxHits
  advance : Fits c ashift q i m → after = [] ∨ n ≤ before.length

namespace Standing

theorem start (i : Nat) (m : Medium) :
    Standing c ashift q 0 State.start i m [] (Member.left q m 0) where
  chunks := rfl
  left := rfl
  complete h := by cases h
  sound a ha := by cases ha
  kept a ha := by cases ha
  small k hk := by cases hk
  advance _ := Or.inr (Nat.zero_le _)

theorem held_le {i : Nat} {m : Medium} {ks : List Nat} {k : Nat} (hk : k ∈ ks) :
    (held c ashift q i m k).length ≤ (ks.flatMap (held c ashift q i m)).length := by
  obtain ⟨l, r, rfl⟩ := List.append_of_mem hk
  rw [List.flatMap_append, List.flatMap_cons, List.length_append, List.length_append]
  omega

/-- One run more. -/
theorem step {n : Nat} {st st' : State} (hrun : run c ashift better members q st = some st')
    {i : Nat} {m : Medium} (hi : members[i]? = some (some m)) {before after : List Nat}
    (h : Standing c ashift q n st i m before after) :
    ∃ before' after', Standing c ashift q (n + 1) st' i m before' after' := by
  obtain ⟨s, more, rest, hscanned, hleft, hcomplete, hcandidates⟩ := (run_spec hrun).1 i m hi
  have hafter : after = more ++ rest := by rw [← h.left, hscanned.chunks]
  obtain ⟨extra, tail, hhits, hextra⟩ := hscanned.hits
  have hall : allHeld c ashift q i m =
      before.flatMap (held c ashift q i m) ++ (s.hits ++ tail) := by
    rw [allHeld, h.chunks, hafter, List.flatMap_append, List.flatMap_append, hextra, hhits,
      List.append_assoc]
  refine ⟨before ++ more, rest, ?_, hleft, hcomplete, ?_, ?_, ?_, ?_⟩
  · rw [h.chunks, hafter, List.append_assoc]
  · intro a ha hdevice
    refine IsFirst.of_next hall (fun b hb hkey => ?_) (fun b hb _ => h.kept b hb)
      ((hcandidates a hdevice).mp ha)
    exact h.sound b hb ((congrArg Prod.fst hkey).trans hdevice)
  · intro a ha hfirst
    have hdevice : a.device = i := device_of_mem_held ha
    refine (hcandidates a hdevice).mpr (IsFirst.next hall (fun b hb hkey => ?_)
      (fun b hb _ => h.kept b hb) ?_ hfirst)
    · exact h.sound b hb ((congrArg Prod.fst hkey).trans hdevice)
    · rw [hhits]
      rw [List.flatMap_append] at ha
      rcases List.mem_append.mp ha with ha | ha
      · exact List.mem_append_left _ ha
      · exact List.mem_append_right _ (List.mem_append_left _ ha)
  · intro k hk
    rcases List.mem_append.mp hk with hk | hk
    · exact h.small k hk
    · exact Nat.le_trans (held_le hk) hscanned.fits
  · intro hfits
    rcases h.advance hfits with hdone | hn
    · left
      rw [hdone] at hafter
      exact (List.append_eq_nil_iff.mp hafter.symm).2
    · by_cases hrest : rest = []
      · exact Or.inl hrest
      · right
        obtain ⟨b, rest', hcons⟩ := List.exists_cons_of_ne_nil hrest
        have hover := hscanned.exceeds b rest' hcons
        have hmore : more ≠ [] := by
          intro hnil
          have hb : b ∈ Member.left q m 0 := by
            rw [h.chunks, hafter, hcons]
            simp
          have hroom := hfits b hb
          rw [hnil, List.nil_append, List.flatMap_singleton] at hover
          omega
        have hlength := List.length_pos_of_ne_nil hmore
        rw [List.length_append]
        omega

end Standing

theorem runs_standing {i : Nat} {m : Medium} (hi : members[i]? = some (some m)) :
    ∀ n st, runs c ashift better members q n State.start = some st →
      ∃ before after, Standing c ashift q n st i m before after := by
  intro n
  induction n with
  | zero =>
    intro st hrun
    cases hrun
    exact ⟨[], left q m 0, Standing.start i m⟩
  | succ n ih =>
    intro st hrun
    rw [runs, Option.bind_eq_some_iff] at hrun
    obtain ⟨st0, hrun0, hstep⟩ := hrun
    obtain ⟨before, after, h⟩ := ih st0 hrun0
    exact h.step hstep hi

theorem runs_isSome (n : Nat) (st : State) : (runs c ashift better members q n st).isSome := by
  induction n with
  | zero => rfl
  | succ n ih =>
    obtain ⟨st', hst'⟩ := Option.isSome_iff_exists.mp ih
    rw [runs, hst']
    exact run_isSome

theorem runs_member : ∀ n st, runs c ashift better members q n State.start = some st →
    ∀ a ∈ st.candidates, ∃ m, members[a.device]? = some (some m) := by
  intro n
  induction n with
  | zero =>
    intro st hrun a ha
    cases hrun
    cases ha
  | succ n ih =>
    intro st hrun a ha
    rw [runs, Option.bind_eq_some_iff] at hrun
    obtain ⟨st0, hrun0, hstep⟩ := hrun
    rcases (run_spec hstep).2.2 a ha with hin | hmember
    · exact ih st0 hrun0 a hin
    · exact hmember

/-- A run that scans each member to the end says so. -/
theorem run_complete {st st' : State} (hrun : run c ashift better members q st = some st')
    (h : ∀ i m s before after, members[i]? = some (some m) →
      Scanned c ashift q i m (st.reached.getD i 0) s before after → after = []) :
    st'.complete = true := by
  by_contra hfalse
  obtain ⟨i, m, s, before, after, hi, hscanned, hne⟩ :=
    (run_spec hrun).2.1 (Bool.eq_false_iff.mpr hfalse)
  exact hne (h i m s before after hi hscanned)

/-- Runs that are complete have recorded the first hit of each place. -/
theorem mem_candidates {n : Nat} {st : State}
    (hrun : runs c ashift better members q n State.start = some st)
    (hcomplete : st.complete = true) (a : Hit) :
    a ∈ st.candidates ↔ ∃ m, members[a.device]? = some (some m) ∧
      IsFirst siteOf (allHeld c ashift q a.device m) a := by
  constructor
  · intro ha
    obtain ⟨m, hm⟩ := runs_member n st hrun a ha
    obtain ⟨before, after, h⟩ := runs_standing hm n st hrun
    exact ⟨m, hm, h.sound a ha rfl⟩
  · rintro ⟨m, hm, hfirst⟩
    obtain ⟨before, after, h⟩ := runs_standing hm n st hrun
    refine h.kept a ?_ hfirst
    have hchunks := h.chunks
    rw [h.complete hcomplete, List.append_nil] at hchunks
    rw [← hchunks]
    exact hfirst.mem

variable (c ashift better members q)

/-- A cap that no member reaches. -/
def Unlimited (cap : Nat) : Prop :=
  ∀ i m, members[i]? = some (some m) → (allHeld c ashift q i m).length ≤ cap

/-- Some number of runs comes to the end of all members, and what they have recorded is what one
run with an unlimited cap records. -/
def Recovers : Prop :=
  ∃ n st, runs c ashift better members q n State.start = some st ∧ st.complete = true ∧
    ∀ cap, Unlimited c ashift members q cap →
      ∃ st', run c ashift better members { q with maxHits := cap } State.start = some st' ∧
        st'.complete = true ∧ ∀ a, a ∈ st.candidates ↔ a ∈ st'.candidates

variable {c ashift better members q}

theorem allHeld_cap {cap i : Nat} {m : Medium} :
    allHeld c ashift { q with maxHits := cap } i m = allHeld c ashift q i m := by
  have hread : ∀ at_, readable (ofMedium m) (Request.options { q with maxHits := cap } none)
      (endFor q m) at_ = readable (ofMedium m) (q.options none) (endFor q m) at_ := fun _ => rfl
  have hchunk : (Request.options { q with maxHits := cap } none).chunk =
      (q.options none).chunk := rfl
  have hleft : left { q with maxHits := cap } m 0 = left q m 0 := by
    show chunkStarts (Request.options { q with maxHits := cap } none) m (endFor q m) (m.size + 1)
      (beginAt q 0) = left q m 0
    rw [left, chunkStarts_congr hchunk hread]
  rw [allHeld, hleft]
  rfl

/-- One run with an unlimited cap is complete. -/
theorem unlimited_complete {cap : Nat} (h : Unlimited c ashift members q cap) {st' : State}
    (hrun : run c ashift better members { q with maxHits := cap } State.start = some st') :
    st'.complete = true := by
  refine run_complete hrun (fun i m s before after hi hscanned => ?_)
  by_contra hne
  obtain ⟨b, rest, hcons⟩ := List.exists_cons_of_ne_nil hne
  have hover := hscanned.exceeds b rest hcons
  have hroom := h i m hi
  have hchunks : left { q with maxHits := cap } m 0 = (before ++ [b]) ++ rest := by
    have hall : left { q with maxHits := cap } m 0 = before ++ after := hscanned.chunks
    rw [hall, hcons]
    simp
  have hcapped : allHeld c ashift { q with maxHits := cap } i m = allHeld c ashift q i m :=
    allHeld_cap
  rw [← hcapped, allHeld, hchunks, List.flatMap_append, List.length_append] at hroom
  have hover : cap < _ := hover
  omega

/-- Runs that are complete have got past each chunk. -/
theorem fits_of_recovers (h : Recovers c ashift better members q) {i : Nat} {m : Medium}
    (hi : members[i]? = some (some m)) : Fits c ashift q i m := by
  obtain ⟨n, st, hrun, hcomplete, -⟩ := h
  obtain ⟨before, after, hstanding⟩ := runs_standing hi n st hrun
  have hchunks := hstanding.chunks
  rw [hstanding.complete hcomplete, List.append_nil] at hchunks
  rw [Fits, hchunks]
  exact hstanding.small

/-- Chunks that a list of members has at most. -/
def mostChunks (members : List (Option Medium)) : Nat :=
  (members.map (fun o => o.elim 0 (fun m => m.size + 1))).sum

theorem chunks_le_most {i : Nat} {m : Medium} (hi : members[i]? = some (some m)) :
    (left q m 0).length ≤ mostChunks members := by
  have hmem : some m ∈ members := List.mem_of_getElem? hi
  obtain ⟨l, r, hsplit⟩ := List.append_of_mem hmem
  have hle : m.size + 1 ≤ mostChunks members := by
    rw [mostChunks, hsplit, List.map_append, List.sum_append, List.map_cons, List.sum_cons,
      Option.elim_some]
    omega
  exact Nat.le_trans (chunkStarts_length _ _) hle

/-- Each run gets past a chunk of each member, so that enough runs come to the end. -/
theorem recovers_of_fits (h : ∀ i m, members[i]? = some (some m) → Fits c ashift q i m) :
    Recovers c ashift better members q := by
  have hsome : (runs c ashift better members q (mostChunks members + 1) State.start).isSome :=
    runs_isSome _ _
  obtain ⟨st, hst⟩ := Option.isSome_iff_exists.mp hsome
  have hdone : ∀ i m, members[i]? = some (some m) → left q m (st.reached.getD i 0) = [] := by
    intro i m hi
    obtain ⟨before, after, hstanding⟩ := runs_standing hi _ st hst
    rw [hstanding.left]
    refine (hstanding.advance (h i m hi)).resolve_right (fun hlong => ?_)
    have hmost : (left q m 0).length ≤ mostChunks members := chunks_le_most hi
    rw [hstanding.chunks, List.length_append] at hmost
    omega
  have hmore : (run c ashift better members q st).isSome := run_isSome
  obtain ⟨st', hst'⟩ := Option.isSome_iff_exists.mp hmore
  have hcomplete : st'.complete = true := by
    refine run_complete hst' (fun i m s before after hi hscanned => ?_)
    have hchunks := hscanned.chunks
    rw [hdone i m hi] at hchunks
    exact (List.append_eq_nil_iff.mp hchunks.symm).2
  have hruns : runs c ashift better members q (mostChunks members + 2) State.start = some st' := by
    rw [runs, hst]
    exact hst'
  refine ⟨_, st', hruns, hcomplete, fun cap hcap => ?_⟩
  have hone : (run c ashift better members { q with maxHits := cap } State.start).isSome :=
    run_isSome
  obtain ⟨st1, hst1⟩ := Option.isSome_iff_exists.mp hone
  have hcomplete1 := unlimited_complete hcap hst1
  refine ⟨st1, hst1, hcomplete1, fun a => ?_⟩
  have hruns1 : runs c ashift better members { q with maxHits := cap } 1 State.start = some st1 :=
    hst1
  rw [mem_candidates hruns hcomplete, mem_candidates hruns1 hcomplete1]
  simp only [allHeld_cap]

/-- A member of two slots, each of them a dnode. -/
def twoDnodes : Medium :=
  { size := 1024
    byte := fun i => [20, 17, 1, 1, 0, 0, 0, 0, 1, 0, 1, 0, 0].getD (i % 512) 0
    device := false
    size_lt := twoSlots.size_lt }

/-- What is asked for, with room for so many hits. -/
def anyDnode (maxHits : Nat) : Request :=
  { profile := Profile.none, strictProfile := false, range := none, codecs := [], maxHits }

end Runs

end Member
end Carve
end ZvolRescue
