import ZvolRescue.Zio.Members
import ZvolRescue.Zio.Soundness

/-!
# The block cache

The cache keys a read by device, offset and size, and only puts what it did not have.  So
over members whose contents do not change it answers what they hold, and its counter is the
length of what it keeps (`cache_invisible`).
-/

namespace ZvolRescue
namespace Zio

open Lib Ondisk

/-- What a member holds from `at_` on. -/
def bytesAt (held : (device position : Nat) → UInt8) (device at_ size : Nat) : List UInt8 :=
  (List.range size).map (fun i => held device (at_ + i))

theorem length_bytesAt (held : (device position : Nat) → UInt8) (device at_ size : Nat) :
    (bytesAt held device at_ size).length = size := by
  rw [bytesAt, List.length_map, List.length_range]

/-! ## What the cache keeps -/

namespace ReadCache

/-- The lengths of the entries together. -/
def total (c : ReadCache) : Nat := (c.map.map (fun e => e.2.length)).sum

/-- The counter is exact and within the budget, no key is there twice, and every entry is
what its member holds. -/
structure Kept (held : (device position : Nat) → UInt8) (c : ReadCache) : Prop where
  total : c.bytes = c.total
  bounded : c.bytes ≤ budget
  keys : (c.map.map Prod.fst).Nodup
  entries : ∀ e ∈ c.map, e.2 = bytesAt held e.1.1 e.1.2.1 e.1.2.2

variable {held : (device position : Nat) → UInt8} {c : ReadCache}

theorem kept_empty : Kept held empty where
  total := rfl
  bounded := Nat.zero_le _
  keys := List.nodup_nil
  entries := fun _ h => absurd h List.not_mem_nil

/-- A hit is what the member holds. -/
theorem Kept.hit (h : Kept held c) {device at_ size : Nat} {b : List UInt8}
    (hget : c.get device at_ size = some b) : b = bytesAt held device at_ size := by
  obtain ⟨before, after, hmap, -⟩ := List.lookup_eq_some_iff.mp hget
  have hmem : ((device, at_, size), b) ∈ c.map := by
    rw [hmap]
    exact List.mem_append_right _ List.mem_cons_self
  exact h.entries _ hmem

/-- After a miss no entry has the key. -/
theorem filter_of_miss {device at_ size : Nat} (hget : c.get device at_ size = none) :
    c.map.filter (fun e => e.1 ≠ (device, at_, size)) = c.map := by
  rw [List.filter_eq_self]
  intro e he
  have hne := List.lookup_eq_none_iff.mp hget e he
  rw [bne_iff_ne] at hne
  exact decide_eq_true hne.symm

/-- What is put where there was nothing adds its own length. -/
theorem Kept.add (h : Kept held c) {device at_ : Nat} {b : List UInt8}
    (hget : c.get device at_ b.length = none) (hb : b = bytesAt held device at_ b.length)
    (hroom : c.bytes + b.length ≤ budget) :
    Kept held
      { map := ((device, at_, b.length), b) ::
          c.map.filter (fun e => e.1 ≠ (device, at_, b.length))
        bytes := c.bytes + b.length } := by
  rw [filter_of_miss hget]
  refine ⟨?_, hroom, ?_, ?_⟩
  · dsimp only [ReadCache.total]
    rw [List.map_cons, List.sum_cons, h.total, ReadCache.total, Nat.add_comm]
  · rw [List.map_cons, List.nodup_cons]
    refine ⟨?_, h.keys⟩
    intro hmem
    obtain ⟨e, he, hkey⟩ := List.mem_map.mp hmem
    have hne := List.lookup_eq_none_iff.mp hget e he
    rw [bne_iff_ne] at hne
    exact hne hkey.symm
  · intro e he
    rcases List.mem_cons.mp he with rfl | hold
    · exact hb
    · exact h.entries e hold

/-- A read that was served after a miss may be put: too large it changes nothing, a full
cache starts over with it. -/
theorem Kept.put (h : Kept held c) {device at_ : Nat} {b : List UInt8}
    (hget : c.get device at_ b.length = none) (hb : b = bytesAt held device at_ b.length) :
    Kept held (c.put device at_ b) := by
  rw [ReadCache.put]
  by_cases hbig : b.length > maxEntry
  · rw [if_pos hbig]
    exact h
  · rw [if_neg hbig]
    dsimp only
    have hfits : maxEntry ≤ budget := by decide
    by_cases hfull : c.bytes + b.length > budget
    · rw [if_pos hfull]
      exact Kept.add kept_empty rfl hb (by simp only [empty]; omega)
    · rw [if_neg hfull]
      exact h.add hget hb (by omega)

end ReadCache

/-! ## Reads through the cache -/

namespace SalvageReader

variable {ω : Type}

/-- What the members hold does not change: a read that is served gives it, and a salvage
gives it outside the sectors it names. -/
structure Holds (r : SalvageReader ω) (held : (device position : Nat) → UInt8) : Prop where
  served : ∀ device index dev, r.source device = some (index, dev) → ∀ at_ size w b,
    (dev.readAt at_ size w).1 = .ok b → b = bytesAt held index at_ size
  salvaged : ∀ device index dev, r.source device = some (index, dev) → ∀ at_ size w b bad,
    (dev.readAtSalvaging at_ size w).1 = .ok (b, bad) →
      ∀ i < size, (∀ range ∈ bad, ¬ (range.1 ≤ i ∧ i < range.1 + range.2)) →
        b[i]? = some (held index (at_ + i))

/-- What a read in state `s` answers: what the member holds, or a failure that is the
member's own. -/
structure Answers (r : SalvageReader ω) (held : (device position : Nat) → UInt8)
    (s : ReaderState ω) : Prop where
  leaf : ∀ device offset size b, (r.reader.readLeaf device offset size s).1 = .ok b →
    ∃ index, device = some index ∧ b = bytesAt held index (r.reader.byteOffset index offset) size
  leafFails : ∀ device offset size e, (r.reader.readLeaf device offset size s).1 = .error e →
    (r.source device = none ∧ e = .noMember) ∨ s.mediumStop = some e ∨
      ∃ index dev err, r.source device = some (index, dev) ∧
        (dev.readAt (r.reader.byteOffset index offset) size s.world).1 = .error err ∧
        e = ioError err
  salvage : ∀ device offset size b bad, (r.salvageLeaf device offset size s).1 = .ok (b, bad) →
    ∃ index, device = some index ∧ b.length = size ∧ ∀ i < size,
      (∀ range ∈ bad, ¬ (range.1 ≤ i ∧ i < range.1 + range.2)) →
        b[i]? = some (held index (r.reader.byteOffset index offset + i))
  salvageFails : ∀ device offset size e, (r.salvageLeaf device offset size s).1 = .error e →
    (r.source device = none ∧ e = .noMember) ∨ s.mediumStop = some e ∨
      ∃ index dev err, r.source device = some (index, dev) ∧
        (dev.readAtSalvaging (r.reader.byteOffset index offset) size s.world).1 = .error err ∧
        e = ioError err

/-- One read of a member, of either kind. -/
inductive LeafRead where
  | leaf (device : Option Nat) (offset size : Nat)
  | salvaged (device : Option Nat) (offset size : Nat)

def after (r : SalvageReader ω) (s : ReaderState ω) : LeafRead → ReaderState ω
  | .leaf device offset size => (r.reader.readLeaf device offset size s).2
  | .salvaged device offset size => (r.salvageLeaf device offset size s).2

variable {r : SalvageReader ω} {held : (device position : Nat) → UInt8} {s : ReaderState ω}

theorem source_some {device : Option Nat} {index : Nat} {dev : SalvageSource ω}
    (h : r.source device = some (index, dev)) : device = some index := by
  cases device with
  | none => cases h
  | some i =>
    rw [source, Option.bind_some, Option.map_eq_some_iff] at h
    obtain ⟨found, -, heq⟩ := h
    rw [Prod.mk.injEq] at heq
    rw [heq.1]

/-- A salvage that lost nothing is what the member holds. -/
theorem Holds.whole (hr : r.Holds held) {device : Option Nat} {index : Nat}
    {dev : SalvageSource ω} (hsource : r.source device = some (index, dev)) {at_ size : Nat}
    {w : ω} {b : List UInt8} (h : (dev.readAtSalvaging at_ size w).1 = .ok (b, [])) :
    b = bytesAt held index at_ size := by
  have hlen : b.length = size := (dev.marked at_ size w (b, []) h).length
  apply List.ext_getElem?
  intro i
  rcases Nat.lt_or_ge i size with hi | hi
  · rw [hr.salvaged device index dev hsource at_ size w b [] h i hi
      (fun _ hmem => absurd hmem List.not_mem_nil), bytesAt, List.getElem?_map,
      List.getElem?_range hi, Option.map_some]
  · rw [List.getElem?_eq_none (by omega), List.getElem?_eq_none (by rw [length_bytesAt]; omega)]

theorem noteError_cache (s : ReaderState ω) (e : IoError) : (s.noteError e).cache = s.cache := by
  rw [ReaderState.noteError]
  split
  · rfl
  · rfl

/-- The cache holds what the members do after a read too. -/
theorem Holds.readLeaf_kept (hr : r.Holds held) (hs : s.cache.Kept held) (device : Option Nat)
    (offset size : Nat) : (r.reader.readLeaf device offset size s).2.cache.Kept held := by
  rw [Reader.readLeaf, reader_device]
  cases hsource : r.source device with
  | none => exact hs
  | some entry =>
    obtain ⟨index, dev⟩ := entry
    simp only [Option.map_some]
    cases (s.countRead index).mediumStop with
    | some stop => exact hs
    | none =>
      simp only
      generalize r.reader.byteOffset index offset = at_
      cases hget : (s.countRead index).cache.get index at_ size with
      | some hit => exact hs
      | none =>
        have hserved := hr.served device index dev hsource at_ size (s.countRead index).world
        have hlen := dev.length_of_readAt at_ size (s.countRead index).world
        simp only
        generalize dev.readAt at_ size (s.countRead index).world = read at hserved hlen ⊢
        obtain ⟨result, w⟩ := read
        cases result with
        | error e =>
          simp only [noteError_cache]
          exact hs
        | ok buf =>
          have hbuf := hlen buf rfl
          subst hbuf
          exact ReadCache.Kept.put hs hget (hserved buf rfl)

theorem Holds.salvageLeaf_kept (hr : r.Holds held) (hs : s.cache.Kept held)
    (device : Option Nat) (offset size : Nat) :
    (r.salvageLeaf device offset size s).2.cache.Kept held := by
  rw [salvageLeaf]
  cases hsource : r.source device with
  | none => exact hs
  | some entry =>
    obtain ⟨index, dev⟩ := entry
    simp only
    cases (s.countRead index).mediumStop with
    | some stop => exact hs
    | none =>
      simp only
      generalize r.reader.byteOffset index offset = at_
      cases hget : (s.countRead index).cache.get index at_ size with
      | some hit => exact hs
      | none =>
        have hwhole : ∀ b, (dev.readAtSalvaging at_ size (s.countRead index).world).1 =
            .ok (b, []) → b = bytesAt held index at_ size := fun _ h => hr.whole hsource h
        have hmarked := dev.marked at_ size (s.countRead index).world
        simp only
        generalize dev.readAtSalvaging at_ size (s.countRead index).world = read
          at hwhole hmarked ⊢
        obtain ⟨result, w⟩ := read
        cases result with
        | error e =>
          simp only [noteError_cache]
          exact hs
        | ok found =>
          obtain ⟨buf, bad⟩ := found
          simp only
          by_cases hbad : bad = []
          · rw [if_pos hbad]
            subst hbad
            have hbuf : buf.length = size := (hmarked (buf, []) rfl).length
            subst hbuf
            exact ReadCache.Kept.put hs hget (hwhole buf rfl)
          · rw [if_neg hbad]
            exact hs

/-! ## What a read answers -/

/-- A read fails without a member or after the stop; else the cache or the member answers. -/
theorem readLeaf_cases (r : SalvageReader ω) (s : ReaderState ω) (device : Option Nat)
    (offset size : Nat) :
    (r.source device = none ∧ (r.reader.readLeaf device offset size s).1 = .error .noMember) ∨
    (∃ stop, s.mediumStop = some stop ∧
      (r.reader.readLeaf device offset size s).1 = .error stop) ∨
    ∃ index dev, r.source device = some (index, dev) ∧
      ((∃ hit, s.cache.get index (r.reader.byteOffset index offset) size = some hit ∧
        (r.reader.readLeaf device offset size s).1 = .ok hit) ∨
      (r.reader.readLeaf device offset size s).1 =
        (dev.readAt (r.reader.byteOffset index offset) size s.world).1.mapError ioError) := by
  rw [Reader.readLeaf, reader_device]
  cases hsource : r.source device with
  | none => exact Or.inl ⟨rfl, rfl⟩
  | some entry =>
    obtain ⟨index, dev⟩ := entry
    right
    have hcache : (s.countRead index).cache = s.cache := rfl
    have hstop : (s.countRead index).mediumStop = s.mediumStop := rfl
    have hworld : (s.countRead index).world = s.world := rfl
    simp only [Option.map_some, hcache, hstop, hworld]
    cases s.mediumStop with
    | some stop => exact Or.inl ⟨stop, rfl, rfl⟩
    | none =>
      refine Or.inr ⟨index, dev, rfl, ?_⟩
      simp only
      cases s.cache.get index (r.reader.byteOffset index offset) size with
      | some hit => exact Or.inl ⟨hit, rfl, rfl⟩
      | none =>
        right
        simp only
        generalize dev.readAt (r.reader.byteOffset index offset) size s.world = read
        obtain ⟨result, w⟩ := read
        cases result with
        | error e => rfl
        | ok buf => rfl

theorem salvageLeaf_cases (r : SalvageReader ω) (s : ReaderState ω) (device : Option Nat)
    (offset size : Nat) :
    (r.source device = none ∧ (r.salvageLeaf device offset size s).1 = .error .noMember) ∨
    (∃ stop, s.mediumStop = some stop ∧ (r.salvageLeaf device offset size s).1 = .error stop) ∨
    ∃ index dev, r.source device = some (index, dev) ∧
      ((∃ hit, s.cache.get index (r.reader.byteOffset index offset) size = some hit ∧
        (r.salvageLeaf device offset size s).1 = .ok (hit, [])) ∨
      (r.salvageLeaf device offset size s).1 =
        (dev.readAtSalvaging (r.reader.byteOffset index offset) size s.world).1.mapError
          ioError) := by
  rw [salvageLeaf]
  cases hsource : r.source device with
  | none => exact Or.inl ⟨rfl, rfl⟩
  | some entry =>
    obtain ⟨index, dev⟩ := entry
    right
    have hcache : (s.countRead index).cache = s.cache := rfl
    have hstop : (s.countRead index).mediumStop = s.mediumStop := rfl
    have hworld : (s.countRead index).world = s.world := rfl
    simp only [hcache, hstop, hworld]
    cases s.mediumStop with
    | some stop => exact Or.inl ⟨stop, rfl, rfl⟩
    | none =>
      refine Or.inr ⟨index, dev, rfl, ?_⟩
      simp only
      cases s.cache.get index (r.reader.byteOffset index offset) size with
      | some hit => exact Or.inl ⟨hit, rfl, rfl⟩
      | none =>
        right
        simp only
        generalize dev.readAtSalvaging (r.reader.byteOffset index offset) size s.world = read
        obtain ⟨result, w⟩ := read
        cases result with
        | error e => rfl
        | ok found => rfl

theorem mapError_eq_error {α : Type} {x : Except IoError α} {e : ReadError}
    (h : x.mapError ioError = .error e) : ∃ err, x = .error err ∧ e = ioError err := by
  cases x with
  | error err =>
    cases h
    exact ⟨err, rfl, rfl⟩
  | ok a => cases h

theorem mapError_eq_ok {α : Type} {x : Except IoError α} {a : α}
    (h : x.mapError ioError = .ok a) : x = .ok a := by
  cases x with
  | error err => cases h
  | ok b =>
    cases h
    rfl

theorem getElem?_bytesAt {index at_ size i : Nat} (hi : i < size) :
    (bytesAt held index at_ size)[i]? = some (held index (at_ + i)) := by
  rw [bytesAt, List.getElem?_map, List.getElem?_range hi, Option.map_some]

/-- Through a cache that holds what the members do, every read answers as they would. -/
theorem Holds.answers (hr : r.Holds held) (hs : s.cache.Kept held) : r.Answers held s where
  leaf := by
    intro device offset size b h
    rcases r.readLeaf_cases s device offset size with ⟨-, hnone⟩ | ⟨stop, -, hstop⟩ |
      ⟨index, dev, hsource, ⟨hit, hget, hhit⟩ | hread⟩
    · rw [hnone] at h
      cases h
    · rw [hstop] at h
      cases h
    · rw [hhit, Except.ok.injEq] at h
      subst h
      exact ⟨index, source_some hsource, hs.hit hget⟩
    · rw [hread] at h
      exact ⟨index, source_some hsource,
        hr.served device index dev hsource _ _ _ _ (mapError_eq_ok h)⟩
  leafFails := by
    intro device offset size e h
    rcases r.readLeaf_cases s device offset size with ⟨hsource, hnone⟩ | ⟨stop, hs, hstop⟩ |
      ⟨index, dev, hsource, ⟨hit, hget, hhit⟩ | hread⟩
    · rw [hnone, Except.error.injEq] at h
      exact Or.inl ⟨hsource, h.symm⟩
    · rw [hstop, Except.error.injEq] at h
      exact Or.inr (Or.inl (h ▸ hs))
    · rw [hhit] at h
      cases h
    · rw [hread] at h
      obtain ⟨err, herr, he⟩ := mapError_eq_error h
      exact Or.inr (Or.inr ⟨index, dev, err, hsource, herr, he⟩)
  salvage := by
    intro device offset size b bad h
    rcases r.salvageLeaf_cases s device offset size with ⟨-, hnone⟩ | ⟨stop, -, hstop⟩ |
      ⟨index, dev, hsource, ⟨hit, hget, hhit⟩ | hread⟩
    · rw [hnone] at h
      cases h
    · rw [hstop] at h
      cases h
    · rw [hhit, Except.ok.injEq, Prod.mk.injEq] at h
      obtain ⟨rfl, -⟩ := h
      have hheld := hs.hit hget
      refine ⟨index, source_some hsource, ?_, ?_⟩
      · rw [hheld, length_bytesAt]
      · intro i hi _
        rw [hheld, getElem?_bytesAt hi]
    · rw [hread] at h
      have hok := mapError_eq_ok h
      exact ⟨index, source_some hsource, (dev.marked _ _ _ _ hok).length,
        hr.salvaged device index dev hsource _ _ _ _ _ hok⟩
  salvageFails := by
    intro device offset size e h
    rcases r.salvageLeaf_cases s device offset size with ⟨hsource, hnone⟩ | ⟨stop, hs, hstop⟩ |
      ⟨index, dev, hsource, ⟨hit, hget, hhit⟩ | hread⟩
    · rw [hnone, Except.error.injEq] at h
      exact Or.inl ⟨hsource, h.symm⟩
    · rw [hstop, Except.error.injEq] at h
      exact Or.inr (Or.inl (h ▸ hs))
    · rw [hhit] at h
      cases h
    · rw [hread] at h
      obtain ⟨err, herr, he⟩ := mapError_eq_error h
      exact Or.inr (Or.inr ⟨index, dev, err, hsource, herr, he⟩)

/-! ## Runs -/

theorem Holds.kept_after (hr : r.Holds held) (hs : s.cache.Kept held) (read : LeafRead) :
    (r.after s read).cache.Kept held := by
  cases read with
  | leaf device offset size => exact hr.readLeaf_kept hs device offset size
  | salvaged device offset size => exact hr.salvageLeaf_kept hs device offset size

theorem Holds.kept_run (hr : r.Holds held) (hs : s.cache.Kept held) (reads : List LeafRead) :
    (reads.foldl r.after s).cache.Kept held := by
  induction reads generalizing s with
  | nil => exact hs
  | cons read rest ih => exact ih (hr.kept_after hs read)

/-- Whatever was read before, the next read answers what the members hold, and the counter is
the length of what is kept and within the budget. -/
theorem cache_invisible (hr : r.Holds held) (hs : s.cache = ReadCache.empty)
    (reads : List LeafRead) :
    r.Answers held (reads.foldl r.after s) ∧
      (reads.foldl r.after s).cache.bytes = (reads.foldl r.after s).cache.total ∧
      (reads.foldl r.after s).cache.bytes ≤ ReadCache.budget ∧
      ((reads.foldl r.after s).cache.map.map Prod.fst).Nodup := by
  have hstart : s.cache.Kept held := by
    rw [hs]
    exact ReadCache.kept_empty
  have hkept := hr.kept_run hstart reads
  exact ⟨hr.answers hkept, hkept.total, hkept.bounded, hkept.keys⟩

/-- One member that holds sevens. -/
def sevensReader : SalvageReader Unit :=
  { sources := [some (SalvageSource.plain (filledWith 7))]
    bases := [0]
    pool := barePool (.leaf (some 0) 1) }

theorem sevensReader_holds : sevensReader.Holds (fun _ _ => 7) := by
  have hplain : ∀ device index dev, sevensReader.source device = some (index, dev) →
      dev = SalvageSource.plain (filledWith 7) := by
    intro device index dev hsource
    have hdevice := source_some hsource
    subst hdevice
    cases index with
    | zero =>
      cases hsource
      rfl
    | succ index => cases hsource
  constructor
  · intro device index dev hsource at_ size w b h
    rw [hplain device index dev hsource] at h
    cases h
    rw [bytesAt, List.map_const', List.length_range]
  · intro device index dev hsource at_ size w b bad h i hi _
    rw [hplain device index dev hsource] at h
    cases h
    rw [List.getElem?_replicate, if_pos hi]

/-- The second of two reads at one place is a hit. -/
theorem cache_invisible_sevens :
    sevensReader.Answers (fun _ _ => 7)
      ([LeafRead.leaf (some 0) 0 4, .leaf (some 0) 0 4].foldl sevensReader.after startState) :=
  (cache_invisible sevensReader_holds rfl _).1

end SalvageReader

end Zio
end ZvolRescue
