import ZvolRescue.Lib.Word
import ZvolRescue.Zio.Refine

/-!
# The reader over its devices

A `Reader` asks devices for bytes and keeps what it changes while it works: a cache of
small reads, how often each device was read, the refusal that stopped the run.  Over
devices whose answers do not change and that never stop the run, a read gives what the
same code gives over the bare `Contents` (`readBlock_refines`): cache and counters do not
show.
-/

namespace ZvolRescue
namespace Zio

open Lib Ondisk

/-! ## Devices -/

/-- Why a device did not serve a read; `incident` is there when it refused it, and says
whether the medium policy stops the run. -/
structure IoError where
  text : String
  incident : Option Bool
  deriving DecidableEq, Repr

/-- A device, a partition or an image.  Its answers may depend on a state `ω` of the world;
a read that is served fills the whole buffer. -/
structure BlockSource (ω : Type) where
  readAt : (offset size : Nat) → ω → Except IoError (List UInt8) × ω
  length_of_readAt : ∀ offset size w b, (readAt offset size w).1 = .ok b → b.length = size

/-! ## The cache -/

/-- Reads that were served, by device, offset and size. -/
structure ReadCache where
  map : List ((Nat × Nat × Nat) × List UInt8)
  bytes : Nat

namespace ReadCache

def maxEntry : Nat := 128 * 1024

def budget : Nat := 64 * 1024 * 1024

def empty : ReadCache := { map := [], bytes := 0 }

def get (c : ReadCache) (device at_ size : Nat) : Option (List UInt8) :=
  c.map.lookup (device, at_, size)

/-- Keep a read, unless it is too large; a full cache starts over. -/
def put (c : ReadCache) (device at_ : Nat) (bytes : List UInt8) : ReadCache :=
  if bytes.length > maxEntry then c
  else
    let c := if c.bytes + bytes.length > budget then empty else c
    let key := (device, at_, bytes.length)
    { map := (key, bytes) :: c.map.filter (fun e => e.1 ≠ key)
      bytes := c.bytes + bytes.length }

end ReadCache

/-! ## The reader -/

structure ReaderState (ω : Type) where
  world : ω
  /-- How many leaf reads each device has served. -/
  reads : List Nat
  mediumStop : Option ReadError
  cache : ReadCache
  mismatches : Nat

structure Reader (ω : Type) where
  devices : List (Option (BlockSource ω))
  /-- Where each device's vdev begins. -/
  bases : List Nat
  pool : Pool

variable {ω : Type}

/-- The error a leaf read fails with. -/
def ioError (e : IoError) : ReadError :=
  match e.incident with
  | some stop => .medium stop e.text
  | none => .io e.text

namespace ReaderState

def countRead (s : ReaderState ω) (index : Nat) : ReaderState ω :=
  { s with reads := s.reads.modify index (· + 1) }

/-- A refusal that stops the run is remembered, the first one only. -/
def noteError (s : ReaderState ω) (e : IoError) : ReaderState ω :=
  match e.incident with
  | some true => { s with mediumStop := some (s.mediumStop.getD (ioError e)) }
  | _ => s

end ReaderState

namespace Reader

def device (r : Reader ω) (device : Option Nat) : Option (Nat × BlockSource ω) :=
  device.bind (fun index => (r.devices.getD index none).map (fun dev => (index, dev)))

theorem getD_of_device (r : Reader ω) {device : Option Nat} {index : Nat} {dev : BlockSource ω}
    (h : r.device device = some (index, dev)) : r.devices.getD index none = some dev := by
  unfold Reader.device at h
  cases device with
  | none => cases h
  | some i =>
    simp only [Option.bind_some, Option.map_eq_some_iff, Prod.mk.injEq] at h
    obtain ⟨d, hd, hi, hdd⟩ := h
    rw [← hi, hd, hdd]

/-- The byte of a device where a vdev-relative offset lies. -/
def byteOffset (r : Reader ω) (index offset : Nat) : Nat :=
  add64 (add64 (r.bases.getD index 0) labelStartSize) offset

def readLeaf (r : Reader ω) (device : Option Nat) (offset size : Nat) :
    StateM (ReaderState ω) (Except ReadError (List UInt8)) := fun s =>
  match r.device device with
  | none => (.error .noMember, s)
  | some (index, dev) =>
    let s := s.countRead index
    match s.mediumStop with
    | some stop => (.error stop, s)
    | none =>
      let at_ := r.byteOffset index offset
      match s.cache.get index at_ size with
      | some hit => (.ok hit, s)
      | none =>
        match dev.readAt at_ size s.world with
        | (.error e, w) => (.error (ioError e), { s with world := w }.noteError e)
        | (.ok buf, w) => (.ok buf, { s with world := w, cache := s.cache.put index at_ buf })

def io (r : Reader ω) : Io (StateM (ReaderState ω)) :=
  { readLeaf := r.readLeaf
    noteMismatch := fun s => ((), { s with mismatches := s.mismatches + 1 })
    mediumStop := fun s => (s.mediumStop, s) }

/-- `read_block` of the reader. -/
def readBlock (r : Reader ω) (bp : BlkPtr) (allowUnverified : Bool) :
    StateM (ReaderState ω) (Except ReadError Block) :=
  r.pool.readBlock r.io bp allowUnverified

end Reader

/-! ## Contents -/

/-- What devices hold, when it does not change: the answer to every read. -/
abbrev Contents := (device offset size : Nat) → Except IoError (List UInt8)

/-- The reads of `r` over bare contents. -/
def Contents.io (D : Contents) (r : Reader ω) : Io Id :=
  { readLeaf := fun device offset size =>
      match r.device device with
      | none => .error .noMember
      | some (index, _) => (D index (r.byteOffset index offset) size).mapError ioError
    noteMismatch := ()
    mediumStop := none }

/-- The devices answer from `D` whatever happened before, and no refusal stops the run. -/
structure Steady (r : Reader ω) (D : Contents) : Prop where
  answer : ∀ index dev, r.devices.getD index none = some dev →
    ∀ offset size w, (dev.readAt offset size w).1 = D index offset size
  goesOn : ∀ index offset size e, D index offset size = .error e → e.incident ≠ some true

/-- What a device answers is as long as was asked for. -/
theorem Steady.length_of_readLeaf {r : Reader ω} {D : Contents} (hr : Steady r D) (w : ω)
    {device : Option Nat} {offset size : Nat} {b : List UInt8}
    (h : (D.io r).readLeaf device offset size = .ok b) : b.length = size := by
  unfold Contents.io at h
  dsimp only at h
  cases hdevice : r.device device with
  | none =>
    rw [hdevice] at h
    cases h
  | some found =>
    obtain ⟨index, dev⟩ := found
    rw [hdevice] at h
    dsimp only at h
    cases hD : D index (r.byteOffset index offset) size with
    | error e =>
      rw [hD] at h
      cases h
    | ok a =>
      rw [hD] at h
      cases h
      have hanswer := hr.answer index dev (r.getD_of_device hdevice) (r.byteOffset index offset)
        size w
      exact dev.length_of_readAt _ _ _ _ (hanswer.trans hD)

/-- Nothing stopped the run, and the cache holds what the devices do. -/
structure Quiet (D : Contents) (s : ReaderState ω) : Prop where
  running : s.mediumStop = none
  cached : ∀ index at_ size b, s.cache.get index at_ size = some b → D index at_ size = .ok b

/-! ## Cache and counters do not show -/

theorem lookup_filter {α β : Type} [DecidableEq α] [BEq α] [LawfulBEq α] (key key' : α)
    (l : List (α × β)) (b : β) (h : (l.filter (fun e => e.1 ≠ key)).lookup key' = some b) :
    l.lookup key' = some b := by
  induction l with
  | nil => exact h
  | cons e l ih =>
    cases e with
    | mk k v =>
      by_cases hk : k = key
      · have hdrop : ((k, v) :: l).filter (fun e => e.1 ≠ key) =
            l.filter (fun e => e.1 ≠ key) := by simp [hk]
        rw [hdrop] at h
        by_cases hk' : key' = k
        · exfalso
          obtain ⟨l₁, l₂, heq, -⟩ := List.lookup_eq_some_iff.mp h
          have hmem : (key', b) ∈ l.filter (fun e => e.1 ≠ key) := by
            rw [heq]
            simp
          rw [hk', hk] at hmem
          simp at hmem
        · rw [List.lookup_cons, beq_eq_false_iff_ne.mpr hk']
          exact ih h
      · have hkeep : ((k, v) :: l).filter (fun e => e.1 ≠ key) =
            (k, v) :: l.filter (fun e => e.1 ≠ key) := by simp [hk]
        rw [hkeep] at h
        rw [List.lookup_cons] at h ⊢
        cases hkk : key' == k with
        | true => rw [hkk] at h; exact h
        | false => rw [hkk] at h; exact ih h

/-- A hit after a put is the read that was put, or was a hit before. -/
theorem ReadCache.get_put {c : ReadCache} {index at_ index' at' size : Nat} {b b' : List UInt8}
    (h : (c.put index at_ b).get index' at' size = some b') :
    c.get index' at' size = some b' ∨ (index', at', size) = (index, at_, b.length) ∧ b' = b := by
  unfold put at h
  by_cases hbig : b.length > maxEntry
  · rw [if_pos hbig] at h
    exact Or.inl h
  · rw [if_neg hbig] at h
    unfold ReadCache.get at h ⊢
    rw [List.lookup_cons] at h
    cases hkey : (index', at', size) == (index, at_, b.length) with
    | true =>
      rw [hkey] at h
      exact Or.inr ⟨beq_iff_eq.mp hkey, (Option.some.inj h).symm⟩
    | false =>
      rw [hkey] at h
      have h' := lookup_filter (index, at_, b.length) (index', at', size)
        (if c.bytes + b.length > budget then empty else c).map b' h
      by_cases hfull : c.bytes + b.length > budget
      · rw [if_pos hfull] at h'
        cases h'
      · rw [if_neg hfull] at h'
        exact Or.inl h'

theorem ReaderState.noteError_eq {s : ReaderState ω} {e : IoError} (h : e.incident ≠ some true) :
    s.noteError e = s := by
  unfold noteError
  split
  next heq => exact absurd heq h
  next => rfl

section Steady

variable {r : Reader ω} {D : Contents}

theorem Steady.readLeaf_refines (hr : Steady r D) (device : Option Nat) (offset size : Nat) :
    Refines (Quiet D) (r.readLeaf device offset size)
      ((D.io r).readLeaf device offset size) := by
  intro s hs
  unfold Reader.readLeaf
  show _ = (match r.device device with
    | none => Except.error ReadError.noMember
    | some (index, _) => (D index (r.byteOffset index offset) size).mapError ioError) ∧ _
  cases hdev : r.device device with
  | none => exact ⟨rfl, hs⟩
  | some found =>
    obtain ⟨index, dev⟩ := found
    have hget := r.getD_of_device hdev
    have hstop : (s.countRead index).mediumStop = none := hs.running
    have hcache : (s.countRead index).cache = s.cache := rfl
    simp only [hstop, hcache]
    generalize r.byteOffset index offset = at_
    cases hhit : s.cache.get index at_ size with
    | some hit =>
      have hD := hs.cached index at_ size hit hhit
      simp only [hD]
      exact ⟨rfl, hs.running, hs.cached⟩
    | none =>
      have hanswer := hr.answer index dev hget at_ size (s.countRead index).world
      have hlen := dev.length_of_readAt at_ size (s.countRead index).world
      simp only
      generalize dev.readAt at_ size (s.countRead index).world = res at hanswer hlen ⊢
      obtain ⟨answer, w⟩ := res
      simp only at hanswer hlen
      subst hanswer
      cases hD : D index at_ size with
      | error e =>
        simp only
        rw [ReaderState.noteError_eq (hr.goesOn index at_ size e hD)]
        exact ⟨rfl, rfl, hs.cached⟩
      | ok buf =>
        refine ⟨rfl, rfl, ?_⟩
        intro index' at' size' b' hget'
        cases ReadCache.get_put hget' with
        | inl hold => exact hs.cached index' at' size' b' hold
        | inr hnew =>
          obtain ⟨hkey, hb⟩ := hnew
          simp only [Prod.mk.injEq] at hkey
          rw [hkey.1, hkey.2.1, hkey.2.2, hlen buf hD, hb]
          exact hD

theorem Steady.io_refines (hr : Steady r D) : r.io.Refines (Quiet D) (D.io r) where
  readLeaf := hr.readLeaf_refines
  noteMismatch := by
    intro s hs
    exact ⟨rfl, hs.running, hs.cached⟩
  mediumStop := by
    intro s hs
    exact ⟨hs.running, hs⟩

/-- Over steady devices a block reads as it does over their contents. -/
theorem Steady.readBlock_eq (hr : Steady r D) {s : ReaderState ω} (hs : Quiet D s) (bp : BlkPtr)
    (allowUnverified : Bool) :
    (r.readBlock bp allowUnverified s).1 = r.pool.readBlock (D.io r) bp allowUnverified :=
  (r.pool.readBlock_refines hr.io_refines bp allowUnverified).run hs

end Steady

end Zio
end ZvolRescue
