import ZvolRescue.Extract.Related
import ZvolRescue.Source.Ledger

/-!
# Members that are opened files

A device or an image that was opened is a member of a pool (`FileSource.member`).  A reader can
be watched: beside what it reads, a flag says whether every request that reached a member was
allowed when it came.  Watching a reader does not show (`watch_related`).
-/

namespace ZvolRescue

open Lib Zio

namespace Source

/-- The error as a reader sees it. -/
def SourceError.ioError : SourceError → IoError
  | .os .unexpectedEof => { text := "failed to fill whole buffer", incident := none }
  | .os (.other text) => { text, incident := none }
  | .imager =>
    { text := "sector(s) the imager could not read (ddrescue map)", incident := none }
  | .medium i =>
    { text :=
        (if i.stopped then "medium refused a read, stopping: "
          else "medium refused a read, skipped: ") ++ i.text
      incident := some i.stopped }

theorem World.length_of_servedFromWindows {w : World} {source offset len : Nat} {b : List UInt8}
    (h : w.servedFromWindows source offset len = some b) : b.length = len := by
  rw [servedFromWindows] at h
  obtain ⟨read, -, hread⟩ := List.exists_of_findSome?_eq_some h
  split at hread
  · cases hread
    rw [List.length_take, List.length_drop]
    omega
  · cases hread

namespace FileSource

variable (h : Host) (source : Nat) (f : FileSource)

theorem length_of_readOnce {offset len : Nat} {w : World} {b : List UInt8}
    (hb : (f.readOnce h source offset len w).1 = .ok b) : b.length = len := by
  rw [readOnce] at hb
  split at hb
  · cases hb
  · split at hb
    · rename_i hserved
      cases hb
      exact World.length_of_servedFromWindows hserved
    · split at hb
      · rename_i hanswer
        cases hb
        exact h.length_of_answer _ _ _ _ _ hanswer
      · cases hb
      · split at hb
        · cases hb
        · cases hb

theorem length_of_readAt {offset len : Nat} {w : World} {b : List UInt8}
    (hb : (f.readAt h source offset len w).1 = .ok b) : b.length = len := by
  rw [readAt] at hb
  split at hb
  · cases hb
  · exact f.length_of_readOnce h source hb

theorem readAtSalvaging_marked {offset len : Nat} {w : World} {s : List UInt8 × List (Nat × Nat)}
    (hs : (f.readAtSalvaging h source offset len w).1 = .ok s) : Marked len s.1 s.2 := by
  rw [readAtSalvaging] at hs
  cases hkind : f.kind h with
  | device =>
    rw [hkind] at hs
    have hmap : ((f.readAt h source offset len w).1).map (fun bytes => (bytes, [])) = .ok s := hs
    cases hread : (f.readAt h source offset len w).1 with
    | error e =>
      rw [hread] at hmap
      cases hmap
    | ok b =>
      rw [hread] at hmap
      cases hmap
      have hwhole := Marked.whole b
      rwa [f.length_of_readAt h source hread] at hwhole
  | image =>
    rw [hkind] at hs
    have hany : Admits h f (fun _ => True) :=
      ⟨fun _ _ _ _ _ => True.intro, fun _ _ _ _ _ => True.intro, fun _ _ _ _ _ _ _ _ => True.intro⟩
    exact (salvage_keeps (hany.readImage hkind) _ _ _ w True.intro).1 s hs

/-- The file as a member of a pool. -/
def member : SalvageSource World where
  readAt offset size w :=
    ((f.readAt h source offset size w).1.mapError SourceError.ioError,
      (f.readAt h source offset size w).2)
  length_of_readAt := by
    intro offset size w b hb
    cases hread : (f.readAt h source offset size w).1 with
    | error e =>
      rw [hread] at hb
      cases hb
    | ok b' =>
      rw [hread] at hb
      cases hb
      exact f.length_of_readAt h source hread
  readAtSalvaging offset size w :=
    ((f.readAtSalvaging h source offset size w).1.mapError SourceError.ioError,
      (f.readAtSalvaging h source offset size w).2)
  marked := by
    intro offset size w s hs
    cases hread : (f.readAtSalvaging h source offset size w).1 with
    | error e =>
      rw [hread] at hs
      cases hs
    | ok s' =>
      rw [hread] at hs
      cases hs
      exact f.readAtSalvaging_marked h source hread

end FileSource

end Source

namespace Zio

variable {ω : Type}

/-! ## Watched readers -/

/-- A member beside which it is kept whether every request so far was allowed. -/
def SalvageSource.watch (dev : SalvageSource ω) (allowed : (offset size : Nat) → ω → Bool) :
    SalvageSource (ω × Bool) where
  readAt offset size w :=
    ((dev.readAt offset size w.1).1, (dev.readAt offset size w.1).2, w.2 && allowed offset size w.1)
  length_of_readAt offset size w b hb := dev.length_of_readAt offset size w.1 b hb
  readAtSalvaging offset size w :=
    ((dev.readAtSalvaging offset size w.1).1, (dev.readAtSalvaging offset size w.1).2,
      w.2 && allowed offset size w.1)
  marked offset size w s hs := dev.marked offset size w.1 s hs

namespace ReaderState

variable {ω' : Type}

/-- The state with another world. -/
def map (f : ω → ω') (s : ReaderState ω) : ReaderState ω' :=
  { world := f s.world
    reads := s.reads
    mediumStop := s.mediumStop
    cache := s.cache
    mismatches := s.mismatches }

theorem noteError_map (f : ω → ω') (s : ReaderState ω) (e : IoError) :
    (s.noteError e).map f = (s.map f).noteError e := by
  rw [noteError, noteError]
  split
  · rfl
  · rfl

theorem noteError_world (s : ReaderState ω) (e : IoError) : (s.noteError e).world = s.world := by
  rw [noteError]
  split
  · rfl
  · rfl

end ReaderState

namespace SalvageReader

variable (r : SalvageReader ω)

def watch (allowed : (source offset size : Nat) → ω → Bool) : SalvageReader (ω × Bool) :=
  { sources := r.sources.mapIdx (fun i dev => dev.map (fun dev => dev.watch (allowed i)))
    bases := r.bases
    pool := r.pool }

theorem reader_device (device : Option Nat) :
    r.reader.device device = (r.source device).map (fun e => (e.1, e.2.toBlockSource)) := by
  cases device with
  | none => rfl
  | some index =>
    show ((r.sources.map (Option.map SalvageSource.toBlockSource)).getD index none).map _ =
      ((r.sources.getD index none).map _).map _
    rw [List.getD_eq_getElem?_getD, List.getD_eq_getElem?_getD, List.getElem?_map]
    cases r.sources[index]? with
    | none => rfl
    | some dev => cases dev <;> rfl

theorem watch_source (allowed : (source offset size : Nat) → ω → Bool) (device : Option Nat) :
    (r.watch allowed).source device =
      (r.source device).map (fun e => (e.1, e.2.watch (allowed e.1))) := by
  cases device with
  | none => rfl
  | some index =>
    show ((r.sources.mapIdx _).getD index none).map _ = ((r.sources.getD index none).map _).map _
    rw [List.getD_eq_getElem?_getD, List.getD_eq_getElem?_getD, List.getElem?_mapIdx]
    cases r.sources[index]? with
    | none => rfl
    | some dev => cases dev <;> rfl

/-- A read of a leaf, watched. -/
theorem watch_readLeaf (allowed : (source offset size : Nat) → ω → Bool) (device : Option Nat)
    (offset size : Nat) :
    Follows (ReaderState.map Prod.fst) ((r.watch allowed).reader.readLeaf device offset size)
      (r.reader.readLeaf device offset size) := by
  intro s
  rw [Reader.readLeaf, Reader.readLeaf, reader_device, reader_device, watch_source]
  cases r.source device with
  | none => exact ⟨rfl, rfl⟩
  | some entry =>
    obtain ⟨index, dev⟩ := entry
    have hbyte : (r.watch allowed).reader.byteOffset index offset =
        r.reader.byteOffset index offset := rfl
    have hstop : ((s.map Prod.fst).countRead index).mediumStop =
        (s.countRead index).mediumStop := rfl
    have hcache : ((s.map Prod.fst).countRead index).cache = (s.countRead index).cache := rfl
    simp only [Option.map_some, hbyte, hstop, hcache]
    cases (s.countRead index).mediumStop with
    | some stop => exact ⟨rfl, rfl⟩
    | none =>
      simp only
      cases (s.countRead index).cache.get index (r.reader.byteOffset index offset) size with
      | some hit => exact ⟨rfl, rfl⟩
      | none =>
        generalize r.reader.byteOffset index offset = at_
        have hwatch : (dev.watch (allowed index)).readAt at_ size (s.countRead index).world =
          ((dev.readAt at_ size s.world.1).1, (dev.readAt at_ size s.world.1).2,
            s.world.2 && allowed index at_ size s.world.1) := rfl
        have hread : dev.readAt at_ size ((s.map Prod.fst).countRead index).world =
          dev.readAt at_ size s.world.1 := rfl
        rw [hwatch, hread]
        generalize dev.readAt at_ size s.world.1 = read
        obtain ⟨result, w⟩ := read
        cases result with
        | error e => exact ⟨rfl, ReaderState.noteError_map _ _ e⟩
        | ok buf => exact ⟨rfl, rfl⟩

/-- A salvage of a leaf, watched. -/
theorem watch_salvageLeaf (allowed : (source offset size : Nat) → ω → Bool) (device : Option Nat)
    (offset size : Nat) :
    Follows (ReaderState.map Prod.fst) ((r.watch allowed).salvageLeaf device offset size)
      (r.salvageLeaf device offset size) := by
  intro s
  rw [salvageLeaf, salvageLeaf, watch_source]
  cases r.source device with
  | none => exact ⟨rfl, rfl⟩
  | some entry =>
    obtain ⟨index, dev⟩ := entry
    have hbyte : (r.watch allowed).reader.byteOffset index offset =
        r.reader.byteOffset index offset := rfl
    have hstop : ((s.map Prod.fst).countRead index).mediumStop =
        (s.countRead index).mediumStop := rfl
    have hcache : ((s.map Prod.fst).countRead index).cache = (s.countRead index).cache := rfl
    simp only [Option.map_some, hbyte, hstop, hcache]
    cases (s.countRead index).mediumStop with
    | some stop => exact ⟨rfl, rfl⟩
    | none =>
      simp only
      cases (s.countRead index).cache.get index (r.reader.byteOffset index offset) size with
      | some hit => exact ⟨rfl, rfl⟩
      | none =>
        generalize r.reader.byteOffset index offset = at_
        have hwatch : (dev.watch (allowed index)).readAtSalvaging at_ size
            (s.countRead index).world =
          ((dev.readAtSalvaging at_ size s.world.1).1, (dev.readAtSalvaging at_ size s.world.1).2,
            s.world.2 && allowed index at_ size s.world.1) := rfl
        have hread : dev.readAtSalvaging at_ size ((s.map Prod.fst).countRead index).world =
          dev.readAtSalvaging at_ size s.world.1 := rfl
        rw [hwatch, hread]
        generalize dev.readAtSalvaging at_ size s.world.1 = read
        obtain ⟨result, w⟩ := read
        cases result with
        | error e => exact ⟨rfl, ReaderState.noteError_map _ _ e⟩
        | ok found => exact ⟨rfl, rfl⟩

/-- Watching a reader does not show. -/
theorem watch_related (allowed : (source offset size : Nat) → ω → Bool) :
    SalvageReader.Related (Follows.related (ReaderState.map Prod.fst)) (r.watch allowed) r where
  pool := rfl
  io :=
    { readLeaf := r.watch_readLeaf allowed
      noteMismatch := fun _ => ⟨rfl, rfl⟩
      mediumStop := fun _ => ⟨rfl, rfl⟩ }
  salvageLeaf := r.watch_salvageLeaf allowed

/-! ## What every member keeps -/

/-- Both ways to read a member keep `I`. -/
structure Keeps (I : ω → Prop) : Prop where
  readAt : ∀ device index dev, r.source device = some (index, dev) → ∀ offset size,
    ∀ w, I w → I (dev.readAt offset size w).2
  readAtSalvaging : ∀ device index dev, r.source device = some (index, dev) → ∀ offset size,
    ∀ w, I w → I (dev.readAtSalvaging offset size w).2

variable {r} {I : ω → Prop}

theorem Keeps.readLeaf (h : r.Keeps I) (device : Option Nat) (offset size : Nat) :
    Lib.Keeps (fun s : ReaderState ω => I s.world) (r.reader.readLeaf device offset size)
      (fun _ => True) := by
  intro s hs
  refine ⟨True.intro, ?_⟩
  rw [Reader.readLeaf, reader_device]
  cases hsource : r.source device with
  | none => exact hs
  | some entry =>
    obtain ⟨index, dev⟩ := entry
    simp only [Option.map_some]
    cases (s.countRead index).mediumStop with
    | some stop => exact hs
    | none =>
      simp only
      generalize r.reader.byteOffset index offset = at_
      cases (s.countRead index).cache.get index at_ size with
      | some hit => exact hs
      | none =>
        have hkeep := h.readAt device index dev hsource at_ size (s.countRead index).world hs
        simp only
        generalize dev.readAt at_ size (s.countRead index).world = read at hkeep ⊢
        obtain ⟨result, w⟩ := read
        cases result with
        | error e =>
          show I (ReaderState.noteError _ e).world
          rw [ReaderState.noteError_world]
          exact hkeep
        | ok buf => exact hkeep

theorem Keeps.salvageLeaf (h : r.Keeps I) (device : Option Nat) (offset size : Nat) :
    Lib.Keeps (fun s : ReaderState ω => I s.world) (r.salvageLeaf device offset size)
      (fun _ => True) := by
  intro s hs
  refine ⟨True.intro, ?_⟩
  rw [SalvageReader.salvageLeaf]
  cases hsource : r.source device with
  | none => exact hs
  | some entry =>
    obtain ⟨index, dev⟩ := entry
    simp only
    cases (s.countRead index).mediumStop with
    | some stop => exact hs
    | none =>
      simp only
      generalize r.reader.byteOffset index offset = at_
      cases (s.countRead index).cache.get index at_ size with
      | some hit => exact hs
      | none =>
        have hkeep := h.readAtSalvaging device index dev hsource at_ size
          (s.countRead index).world hs
        simp only
        generalize dev.readAtSalvaging at_ size (s.countRead index).world = read at hkeep ⊢
        obtain ⟨result, w⟩ := read
        cases result with
        | error e =>
          show I (ReaderState.noteError _ e).world
          rw [ReaderState.noteError_world]
          exact hkeep
        | ok found => exact hkeep

/-- What every member keeps, every operation keeps. -/
theorem Keeps.related (h : r.Keeps I) :
    SalvageReader.Related (Lib.Keeps.related (fun s : ReaderState ω => I s.world)) r r where
  pool := rfl
  io :=
    { readLeaf := fun device offset size => ⟨rfl, h.readLeaf device offset size⟩
      noteMismatch := ⟨rfl, fun _ hs => ⟨True.intro, hs⟩⟩
      mediumStop := ⟨rfl, fun _ hs => ⟨True.intro, hs⟩⟩ }
  salvageLeaf := fun device offset size => ⟨rfl, h.salvageLeaf device offset size⟩

end SalvageReader

end Zio
end ZvolRescue
