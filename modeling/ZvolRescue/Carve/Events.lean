import ZvolRescue.Carve.Member

/-!
# What there is to find on a member

The dnodes and headers that a place holds do not depend on what was found before.  A scan keeps
the first of them, as many as it has room for, and stops once it meets a hit more
(`scanFrom_spec`).
-/

namespace ZvolRescue
namespace Carve
namespace Member

open Lib Ondisk Source

/-! ## Events -/

/-- Something that a scan meets. -/
inductive Event where
  | hit (h : Hit)
  | dataset (h : Hit)
  | root (r : RootHit)
  deriving DecidableEq, Repr

namespace Event

/-- Where it was met. -/
def offset : Event → Nat
  | hit h | dataset h => h.offset
  | root r => r.offset

def found : Event → Found
  | hit h | dataset h => h.found
  | root r => r.found

def hit? : Event → Option Hit
  | hit h => some h
  | _ => none

def dataset? : Event → Option Hit
  | dataset h => some h
  | _ => none

def root? : Event → Option RootHit
  | root r => some r
  | _ => none

end Event

def hitsOf (es : List Event) : List Hit := es.filterMap Event.hit?

def datasetsOf (es : List Event) : List Hit := es.filterMap Event.dataset?

def rootsOf (es : List Event) : List RootHit := es.filterMap Event.root?

section Events

variable (opts : Options) (device : Nat)

/-- What a dnode is met as. -/
def dnodeEvents (offset slot : Nat) (found : Found) (dnode : DnodePhys) : List Event :=
  if ¬ opts.collectHits then []
  else
    match plausibleDnode dnode with
    | .error _ => []
    | .ok () =>
      (if dnode.objectType = otDslDataset then
        [.dataset { device, offset, slot, found, dnode, misses := [] }] else []) ++
      (if opts.strictProfile ∧ opts.profile.misses dnode ≠ [] then []
        else [.hit { device, offset, slot, found, dnode, misses := opts.profile.misses dnode }])

def slotEvents (offset slot : Nat) (found : Found) (buf : List UInt8) : List Event :=
  match plausibleHead buf with
  | .error _ => []
  | .ok () =>
    match DnodePhys.parse buf .little with
    | .ok dnode => dnodeEvents opts device offset slot found dnode
    | .error _ => []

def headerEvents (offset : Nat) (found : Found) (buf : List UInt8) : List Event :=
  match asMetaObjset buf with
  | some objset => [.root { device, offset, found, objset }]
  | none => []

/-- What slot `i` of a chunk at `base` holds. -/
def placeEvents (base : Nat) (buf : List UInt8) (i : Nat) : List Event :=
  slotEvents opts device (base + i * dnodeSize) 0 .plaintext (buf.drop (i * dnodeSize)) ++
    headerEvents device (base + i * dnodeSize) .plaintext (buf.drop (i * dnodeSize))

def codecEvents (c : Codecs) (offset : Nat) (buf : List UInt8) (codec : Codec) : List Event :=
  match decompressAny c codec buf opts.blockSizes with
  | none => []
  | some out =>
    headerEvents device offset (.compressed codec) out ++
      (List.range (out.length / dnodeSize)).flatMap (fun i =>
        slotEvents opts device offset i (.compressed codec) (out.drop (i * dnodeSize)))

def blockEvents (c : Codecs) (offset : Nat) (buf : List UInt8) : List Event :=
  opts.codecs.flatMap (codecEvents opts device c offset buf)

def chunkEvents (c : Codecs) (ashift end_ at_ : Nat) (window : List UInt8) : List Event :=
  let own := min (ownOf opts end_ at_) window.length
  (List.range (own / dnodeSize)).flatMap (placeEvents opts device at_ (window.take own)) ++
    if opts.codecs = [] then []
    else
      (List.range (divCeil own (stepOf ashift))).flatMap (fun j =>
        blockEvents opts device c (at_ + j * stepOf ashift) (window.drop (j * stepOf ashift)))

end Events

/-! ## What is kept of them -/

/-- The scan has met these, and kept the first of each kind. -/
structure Shows (opts : Options) (s : Scan) (es : List Event) : Prop where
  hits : s.hits = (hitsOf es).take opts.maxHits
  datasets : s.datasets = (datasetsOf es).take opts.maxHits
  roots : s.roots = (rootsOf es).take maxRoots
  stopped : s.stoppedEarly = true ↔ opts.maxHits < (hitsOf es).length

namespace Shows

variable {opts : Options} {s : Scan} {es : List Event}

theorem start (at_ : Nat) : Shows opts (Scan.start at_) [] :=
  ⟨by simp [Scan.start, hitsOf], by simp [Scan.start, datasetsOf], by simp [Scan.start, rootsOf],
    by simp [Scan.start, hitsOf]⟩

theorem bump (h : Shows opts s es) (r : Reject) : Shows opts (s.bump r) es :=
  ⟨h.hits, h.datasets, h.roots, h.stopped⟩

theorem looked (h : Shows opts s es) : Shows opts s.looked es :=
  ⟨h.hits, h.datasets, h.roots, h.stopped⟩

theorem reach (h : Shows opts s es) (at_ : Nat) : Shows opts (s.reach at_) es :=
  ⟨h.hits, h.datasets, h.roots, h.stopped⟩

theorem addRead (h : Shows opts s es) (n : Nat) : Shows opts (s.addRead n) es :=
  ⟨h.hits, h.datasets, h.roots, h.stopped⟩

theorem foldl_bump (h : Shows opts s es) (rs : List Reject) :
    Shows opts (rs.foldl Scan.bump s) es := by
  induction rs generalizing s with
  | nil => exact h
  | cons r rs ih => exact ih (h.bump r)

/-- What is kept after one more, where room for `n` is. -/
theorem take_concat {α : Type} {n : Nat} {l : List α} {a : α} :
    (l ++ [a]).take n = if (l.take n).length < n then l.take n ++ [a] else l.take n := by
  rw [List.length_take]
  by_cases hn : l.length < n
  · have hfits : (l ++ [a]).length ≤ n := by
      rw [List.length_append, List.length_singleton]
      omega
    rw [if_pos (by omega), List.take_of_length_le hfits, List.take_of_length_le hn.le]
  · rw [if_neg (by omega), List.take_append_of_le_length (by omega)]

variable {device : Nat}

theorem considerRoot (h : Shows opts s es) (r : RootHit) :
    Shows opts (considerRoot s r) (es ++ [.root r]) := by
  have hhits : hitsOf (es ++ [.root r]) = hitsOf es := by simp [hitsOf, Event.hit?]
  have hdatasets : datasetsOf (es ++ [.root r]) = datasetsOf es := by
    simp [datasetsOf, Event.dataset?]
  have hroots : (rootsOf (es ++ [.root r])).take maxRoots =
      if s.roots.length < maxRoots then s.roots ++ [r] else s.roots := by
    have hconcat : rootsOf (es ++ [.root r]) = rootsOf es ++ [r] := by
      simp [rootsOf, Event.root?]
    rw [hconcat, take_concat, h.roots]
  rw [Member.considerRoot]
  split
  · rename_i hfull
    refine ⟨by rw [hhits]; exact h.hits, by rw [hdatasets]; exact h.datasets, ?_,
      by rw [hhits]; exact h.stopped⟩
    rw [hroots, if_neg (by omega)]
  · rename_i hfull
    refine ⟨by rw [hhits]; exact h.hits, by rw [hdatasets]; exact h.datasets, ?_,
      by rw [hhits]; exact h.stopped⟩
    rw [hroots, if_pos (by omega)]

theorem considerDataset (h : Shows opts s es) {offset slot : Nat} {found : Found}
    {dnode : DnodePhys} :
    Shows opts (considerDataset opts device s offset slot found dnode)
      (es ++ if dnode.objectType = otDslDataset then
        [.dataset { device, offset, slot, found, dnode, misses := [] }] else []) := by
  rw [Member.considerDataset]
  by_cases htype : dnode.objectType = otDslDataset
  · rw [if_pos htype]
    generalize ({ device, offset, slot, found, dnode, misses := [] } : Hit) = hit
    have hhits : hitsOf (es ++ [.dataset hit]) = hitsOf es := by simp [hitsOf, Event.hit?]
    have hroots : rootsOf (es ++ [.dataset hit]) = rootsOf es := by simp [rootsOf, Event.root?]
    have hdatasets : (datasetsOf (es ++ [.dataset hit])).take opts.maxHits =
        if s.datasets.length < opts.maxHits then s.datasets ++ [hit] else s.datasets := by
      have hconcat : datasetsOf (es ++ [.dataset hit]) = datasetsOf es ++ [hit] := by
        simp [datasetsOf, Event.dataset?]
      rw [hconcat, take_concat, h.datasets]
    by_cases hroom : s.datasets.length < opts.maxHits
    · rw [if_pos ⟨htype, hroom⟩]
      refine ⟨by rw [hhits]; exact h.hits, ?_, by rw [hroots]; exact h.roots,
        by rw [hhits]; exact h.stopped⟩
      rw [hdatasets, if_pos hroom]
    · rw [if_neg (fun hin => hroom hin.2)]
      refine ⟨by rw [hhits]; exact h.hits, ?_, by rw [hroots]; exact h.roots,
        by rw [hhits]; exact h.stopped⟩
      rw [hdatasets, if_neg hroom]
  · rw [if_neg htype, if_neg (fun hin => htype hin.1), List.append_nil]
    exact h

/-- A hit more is kept, or stops the scan. -/
theorem addHit (h : Shows opts s es) (hit : Hit) :
    Shows opts
      (if s.hits.length ≥ opts.maxHits then { s with stoppedEarly := true }
        else { s with hits := s.hits ++ [hit] }) (es ++ [.hit hit]) := by
  have hdatasets : datasetsOf (es ++ [.hit hit]) = datasetsOf es := by
    simp [datasetsOf, Event.dataset?]
  have hroots : rootsOf (es ++ [.hit hit]) = rootsOf es := by simp [rootsOf, Event.root?]
  have hconcat : hitsOf (es ++ [.hit hit]) = hitsOf es ++ [hit] := by simp [hitsOf, Event.hit?]
  have hlength : s.hits.length = min opts.maxHits (hitsOf es).length := by
    rw [h.hits, List.length_take]
  by_cases hfull : s.hits.length ≥ opts.maxHits
  · rw [if_pos hfull]
    refine ⟨?_, by rw [hdatasets]; exact h.datasets, by rw [hroots]; exact h.roots, ?_⟩
    · rw [hconcat, take_concat, ← h.hits, if_neg (by omega)]
    · rw [hconcat, List.length_append, List.length_singleton]
      exact iff_of_true rfl (by omega)
  · rw [if_neg hfull]
    refine ⟨?_, by rw [hdatasets]; exact h.datasets, by rw [hroots]; exact h.roots, ?_⟩
    · rw [hconcat, take_concat, ← h.hits, if_pos (by omega)]
    · rw [hconcat, List.length_append, List.length_singleton]
      refine iff_of_false (fun hstopped => ?_) (by omega)
      have hover := h.stopped.mp hstopped
      omega

theorem consider (h : Shows opts s es) {offset slot : Nat} {found : Found} {dnode : DnodePhys} :
    Shows opts (consider opts device s offset slot found dnode)
      (es ++ dnodeEvents opts device offset slot found dnode) := by
  rw [Member.consider, dnodeEvents]
  by_cases hcollect : opts.collectHits = true
  · rw [if_neg (not_not.mpr hcollect), if_neg (not_not.mpr hcollect)]
    cases plausibleDnode dnode with
    | error r =>
      rw [List.append_nil]
      exact h.bump r
    | ok _ =>
      simp only
      rw [← List.append_assoc]
      have hbefore : Shows opts (Member.considerDataset opts device s offset slot found dnode) _ :=
        h.considerDataset
      have hdataset := hbefore.foldl_bump (opts.profile.misses dnode)
      by_cases hstrict : opts.strictProfile = true ∧ opts.profile.misses dnode ≠ []
      · rw [if_pos hstrict, if_pos hstrict, List.append_nil]
        exact hdataset
      · rw [if_neg hstrict, if_neg hstrict]
        exact hdataset.addHit _
  · rw [if_pos hcollect, if_pos hcollect, List.append_nil]
    exact h

theorem considerSlot (h : Shows opts s es) {offset slot : Nat} {found : Found}
    {buf : List UInt8} :
    Shows opts (considerSlot opts device s offset slot found buf)
      (es ++ slotEvents opts device offset slot found buf) := by
  rw [Member.considerSlot, slotEvents]
  cases plausibleHead buf with
  | error r =>
    rw [List.append_nil]
    exact h.looked.bump r
  | ok _ =>
    cases DnodePhys.parse buf .little with
    | error e =>
      simp only
      rw [List.append_nil]
      exact h.looked.bump _
    | ok dnode => exact h.looked.consider

theorem considerHeader (h : Shows opts s es) {offset : Nat} {found : Found} {buf : List UInt8} :
    Shows opts (considerHeader device s offset found buf)
      (es ++ headerEvents device offset found buf) := by
  rw [Member.considerHeader, headerEvents]
  cases asMetaObjset buf with
  | none =>
    rw [List.append_nil]
    exact h
  | some objset => exact h.considerRoot _

theorem plaintextFrom {base : Nat} {buf : List UInt8} :
    ∀ left i s es, Shows opts s es →
      Shows opts (plaintextFrom opts device base buf left i s)
        (es ++ (List.range' i left).flatMap (placeEvents opts device base buf)) := by
  intro left
  induction left with
  | zero =>
    intro i s es h
    simpa [Member.plaintextFrom] using h
  | succ left ih =>
    intro i s es h
    rw [Member.plaintextFrom, List.range'_succ, List.flatMap_cons, ← List.append_assoc]
    refine ih _ _ _ ?_
    rw [placeEvents, ← List.append_assoc]
    exact h.considerSlot.considerHeader

theorem slotsFrom {offset : Nat} {codec : Codec} {out : List UInt8} :
    ∀ left i s es, Shows opts s es →
      Shows opts (slotsFrom opts device offset codec out left i s)
        (es ++ (List.range' i left).flatMap (fun i =>
          slotEvents opts device offset i (.compressed codec) (out.drop (i * dnodeSize)))) := by
  intro left
  induction left with
  | zero =>
    intro i s es h
    simpa [Member.slotsFrom] using h
  | succ left ih =>
    intro i s es h
    rw [Member.slotsFrom, List.range'_succ, List.flatMap_cons, ← List.append_assoc]
    exact ih _ _ _ h.considerSlot

theorem tryCodec (h : Shows opts s es) {c : Codecs} {offset : Nat} {buf : List UInt8}
    {codec : Codec} :
    Shows opts (tryCodec opts device c s offset buf codec)
      (es ++ codecEvents opts device c offset buf codec) := by
  rw [Member.tryCodec, codecEvents]
  cases decompressAny c codec buf opts.blockSizes with
  | none =>
    simp only
    rw [List.append_nil]
    exact h
  | some out =>
    simp only
    rw [← List.append_assoc, List.range_eq_range']
    exact slotsFrom _ _ _ _ h.considerHeader

theorem compressedPass (h : Shows opts s es) {c : Codecs} {offset : Nat} {buf : List UInt8} :
    Shows opts (compressedPass opts device c s offset buf)
      (es ++ blockEvents opts device c offset buf) := by
  rw [Member.compressedPass, blockEvents]
  generalize opts.codecs = codecs
  induction codecs generalizing s es with
  | nil =>
    rw [List.flatMap_nil, List.append_nil]
    exact h
  | cons codec codecs ih =>
    rw [List.foldl_cons, List.flatMap_cons, ← List.append_assoc]
    exact ih h.tryCodec

theorem blocksFrom {c : Codecs} {step base : Nat} {window : List UInt8} :
    ∀ left j s es, Shows opts s es →
      Shows opts (blocksFrom opts device c step base window left j s)
        (es ++ (List.range' j left).flatMap (fun j =>
          blockEvents opts device c (base + j * step) (window.drop (j * step)))) := by
  intro left
  induction left with
  | zero =>
    intro j s es h
    simpa [Member.blocksFrom] using h
  | succ left ih =>
    intro j s es h
    rw [Member.blocksFrom, List.range'_succ, List.flatMap_cons, ← List.append_assoc]
    exact ih _ _ _ h.compressedPass

theorem scanChunk (h : Shows opts s es) {c : Codecs} {ashift end_ at_ : Nat}
    {window : List UInt8} :
    Shows opts (scanChunk c device ashift opts end_ at_ window s)
      (es ++ chunkEvents opts device c ashift end_ at_ window) := by
  have hlength : (window.take (min (ownOf opts end_ at_) window.length)).length =
      min (ownOf opts end_ at_) window.length := by
    rw [List.length_take]
    omega
  have hplain : Shows opts
      (Member.plaintextFrom opts device at_
        (window.take (min (ownOf opts end_ at_) window.length))
        (min (ownOf opts end_ at_) window.length / dnodeSize) 0 s)
      (es ++ (List.range (min (ownOf opts end_ at_) window.length / dnodeSize)).flatMap
        (placeEvents opts device at_
          (window.take (min (ownOf opts end_ at_) window.length)))) := by
    rw [List.range_eq_range']
    exact plaintextFrom _ _ _ _ h
  simp only [Member.scanChunk, chunkEvents, plaintextPass, hlength]
  rw [← List.append_assoc]
  by_cases hcodecs : opts.codecs = []
  · rw [if_pos hcodecs, if_pos hcodecs, List.append_nil]
    exact hplain
  · rw [if_neg hcodecs, if_neg hcodecs, List.range_eq_range' (n := divCeil _ _)]
    exact blocksFrom _ _ _ _ hplain

end Shows

/-! ## The chunks of a member -/

section Chunks

variable (opts : Options) (m : Medium)

/-- Where the chunks begin that are read. -/
def chunkStarts (end_ : Nat) : (fuel at_ : Nat) → List Nat
  | 0, _ => []
  | fuel + 1, at_ =>
    if at_ < end_ ∧ ¬ readable (ofMedium m) opts end_ at_ < dnodeSize then
      at_ :: chunkStarts end_ fuel (at_ + opts.chunk)
    else []

/-- What the chunk at `at_` holds. -/
def eventsAt (c : Codecs) (device ashift end_ at_ : Nat) : List Event :=
  chunkEvents opts device c ashift end_ at_
    (m.slice at_ (readable (ofMedium m) opts end_ at_))

/-- A member of which the bytes that are `bad` cannot be read. -/
def damaged (bad : Nat → Bool) : Surface :=
  { size := m.size
    read := fun offset n =>
      if (List.range' offset n).any bad then none else (ofMedium m).read offset n }

/-- What is met of the chunk at `at_`. -/
def metAt (bad : Nat → Bool) (c : Codecs) (device ashift end_ at_ : Nat) : List Event :=
  if (List.range' at_ (readable (ofMedium m) opts end_ at_)).any bad then []
  else eventsAt opts m c device ashift end_ at_

variable {opts m}

/-- The chunks depend on how much is read of each, and on nothing else that is asked for. -/
theorem chunkStarts_congr {opts opts' : Options} {end_ : Nat} (hchunk : opts.chunk = opts'.chunk)
    (hread : ∀ at_, readable (ofMedium m) opts end_ at_ = readable (ofMedium m) opts' end_ at_) :
    ∀ fuel at_, chunkStarts opts m end_ fuel at_ = chunkStarts opts' m end_ fuel at_ := by
  intro fuel
  induction fuel with
  | zero =>
    intro at_
    rfl
  | succ fuel ih =>
    intro at_
    rw [chunkStarts, chunkStarts, hread, hchunk, ih]

theorem read_ofMedium {end_ at_ : Nat} (h : at_ ≤ m.size) :
    (ofMedium m).read at_ (readable (ofMedium m) opts end_ at_) =
      some (m.slice at_ (readable (ofMedium m) opts end_ at_)) := by
  have hle : readable (ofMedium m) opts end_ at_ ≤ m.size - at_ := Nat.min_le_left _ _
  generalize readable (ofMedium m) opts end_ at_ = n at hle
  have hread : m.readAt at_ n = .ok (m.slice at_ n) := m.readAt_of_le (by omega)
  exact congrArg Except.toOption hread

variable (opts) in
/-- The scan has met what these chunks give, or has stopped in the first that gives a hit more than
there is room for. -/
def Ended (met : Nat → List Event) (es : List Event) (starts : List Nat) (s : Scan) : Prop :=
  (s.stoppedEarly = false ∧ Shows opts s (es ++ starts.flatMap met)) ∨
    ∃ before b after, starts = before ++ b :: after ∧ s.stoppedEarly = true ∧ s.resumeAt = b ∧
      (hitsOf (es ++ before.flatMap met)).length ≤ opts.maxHits ∧
      Shows opts s (es ++ (before ++ [b]).flatMap met)

theorem Ended.cons {met : Nat → List Event} {es : List Event} {a : Nat} {rest : List Nat}
    {s : Scan} (h : Ended opts met (es ++ met a) rest s) : Ended opts met es (a :: rest) s := by
  rcases h with ⟨hdone, hshows⟩ | ⟨before, b, after, heq, hstop, hat, hle, hshows⟩
  · left
    rw [List.flatMap_cons, ← List.append_assoc]
    exact ⟨hdone, hshows⟩
  · refine Or.inr ⟨a :: before, b, after, by rw [heq, List.cons_append], hstop, hat, ?_, ?_⟩
    · rw [List.flatMap_cons, ← List.append_assoc]
      exact hle
    · rw [List.cons_append, List.flatMap_cons, ← List.append_assoc]
      exact hshows

/-- The whole scan meets what the chunks hold that can be read. -/
theorem scanFrom_damaged {bad : Nat → Bool} {c : Codecs} {device ashift end_ : Nat}
    (hend : end_ ≤ m.size) {s' : Scan} :
    ∀ fuel at_ s es, Shows opts s es → s.stoppedEarly = false →
      scanFrom c (damaged m bad) device ashift opts (fun _ => false) end_ fuel at_ s = some s' →
      Ended opts (metAt opts m bad c device ashift end_) es (chunkStarts opts m end_ fuel at_)
        s' := by
  intro fuel
  induction fuel with
  | zero =>
    intro at_ s es _ _ hrun
    cases hrun
  | succ fuel ih =>
    intro at_ s es hs hgoing hrun
    have hreadable : readable (damaged m bad) opts end_ at_ =
        readable (ofMedium m) opts end_ at_ := rfl
    rw [scanFrom] at hrun
    rw [chunkStarts]
    by_cases hat : at_ < end_
    · simp only [if_pos hat, Bool.false_eq_true, if_false, hreadable] at hrun
      by_cases hshort : readable (ofMedium m) opts end_ at_ < dnodeSize
      · rw [if_pos hshort] at hrun
        cases hrun
        rw [if_neg (fun hin => hin.2 hshort)]
        exact Or.inl ⟨hgoing, by rwa [List.flatMap_nil, List.append_nil]⟩
      · rw [if_neg hshort] at hrun
        rw [if_pos ⟨hat, hshort⟩]
        by_cases hbad : (List.range' at_ (readable (ofMedium m) opts end_ at_)).any bad = true
        · have hread : (damaged m bad).read at_ (readable (ofMedium m) opts end_ at_) = none :=
            if_pos hbad
          have hmet : metAt opts m bad c device ashift end_ at_ = [] := if_pos hbad
          have hnext : Shows opts (s.reach (at_ + opts.chunk))
              (es ++ metAt opts m bad c device ashift end_ at_) := by
            rw [hmet, List.append_nil]
            exact hs.reach (at_ + opts.chunk)
          rw [hread] at hrun
          exact Ended.cons (ih _ _ _ hnext hgoing hrun)
        · have hread : (damaged m bad).read at_ (readable (ofMedium m) opts end_ at_) =
              some (m.slice at_ (readable (ofMedium m) opts end_ at_)) :=
            (if_neg hbad).trans (read_ofMedium (by omega))
          have hmet : metAt opts m bad c device ashift end_ at_ =
              eventsAt opts m c device ashift end_ at_ := if_neg hbad
          rw [hread] at hrun
          simp only at hrun
          have hchunk : Shows opts (scanChunk c device ashift opts end_ at_
              (m.slice at_ (readable (ofMedium m) opts end_ at_))
              (s.addRead (readable (ofMedium m) opts end_ at_)))
              (es ++ metAt opts m bad c device ashift end_ at_) := by
            rw [hmet]
            exact (hs.addRead _).scanChunk
          split at hrun
          · rename_i hstopped
            cases hrun
            refine Or.inr ⟨[], at_, _, rfl, hstopped, rfl, ?_, ?_⟩
            · rw [List.flatMap_nil, List.append_nil]
              have hunder := hs.stopped.not.mp (by rw [hgoing]; exact Bool.false_ne_true)
              omega
            · rw [List.nil_append, List.flatMap_singleton]
              exact hchunk.reach at_
          · rename_i hgoes
            have hgoing := Bool.eq_false_iff.mpr hgoes
            exact Ended.cons (ih _ _ _ (hchunk.reach (min (at_ + opts.chunk) end_)) hgoing hrun)
    · rw [if_neg hat] at hrun
      cases hrun
      rw [if_neg (fun hin => hat hin.1)]
      exact Or.inl ⟨hgoing, by rwa [List.flatMap_nil, List.append_nil]⟩

theorem damaged_nowhere : damaged m (fun _ => false) = ofMedium m := by
  have hread : (damaged m (fun _ => false)).read = (ofMedium m).read := by
    funext offset n
    simp [damaged]
  exact congrArg (Surface.mk m.size) hread

/-- The whole scan meets what all chunks hold. -/
theorem scanFrom_spec {c : Codecs} {device ashift end_ : Nat} (hend : end_ ≤ m.size) {s' : Scan} :
    ∀ fuel at_ s es, Shows opts s es → s.stoppedEarly = false →
      scanFrom c (ofMedium m) device ashift opts (fun _ => false) end_ fuel at_ s = some s' →
      Ended opts (eventsAt opts m c device ashift end_) es (chunkStarts opts m end_ fuel at_)
        s' := by
  intro fuel at_ s es hs hgoing hrun
  have hmet : metAt opts m (fun _ => false) c device ashift end_ =
      eventsAt opts m c device ashift end_ := by
    funext at_
    simp [metAt]
  rw [← damaged_nowhere] at hrun
  rw [← hmet]
  exact scanFrom_damaged hend fuel at_ s es hs hgoing hrun

end Chunks

end Member
end Carve
end ZvolRescue
