import ZvolRescue.Source.Salvage
import ZvolRescue.Zio.Device

/-!
# Salvaging a copy

On a plain disk or a mirror a copy is the bytes themselves, and what a member still gives of
them can be kept.  Of a mirror's sides the one that lost the fewest bytes is taken.
-/

namespace ZvolRescue
namespace Zio

open Lib Ondisk Source

/-! ## Vdevs -/

namespace Node

mutual

/-- A vdev in one line. -/
def describe : Node → String
  | .leaf (some d) _ => s!"dev{d}"
  | .leaf none guid => "MISSING(0x" ++ String.ofList (Nat.toDigits 16 guid) ++ ")"
  | .mirror children => "mirror(" ++ String.intercalate "," (describeAll children) ++ ")"
  | .raidz nparity _ children =>
    s!"raidz{nparity}(" ++ String.intercalate "," (describeAll children) ++ ")"
  | .draid cfg ashift children =>
    s!"draid{cfg.nparity}:{cfg.ndata}d:{cfg.children}c:{cfg.nspares}s ashift {ashift} (" ++
      String.intercalate ", " (describeAll children) ++ ")"
  | .dspare spareId => s!"dspare#{spareId}"
  | .unsupported kind => s!"{kind}?"

def describeAll : List Node → List String
  | [] => []
  | node :: nodes => describe node :: describeAll nodes

end

mutual

/-- The leaves a copy is read whole from; none where the members hold rows. -/
def leavesOf : Node → Option (List (Option Nat))
  | .leaf device _ => some [device]
  | .mirror children => leavesOfAll children
  | _ => none

def leavesOfAll : List Node → Option (List (Option Nat))
  | [] => some []
  | node :: nodes =>
    match leavesOf node, leavesOfAll nodes with
    | some here, some rest => some (here ++ rest)
    | _, _ => none

end

end Node

/-! ## Sources that salvage -/

/-- A source that can also be read around what it refuses. -/
structure SalvageSource (ω : Type) extends BlockSource ω where
  readAtSalvaging : (offset size : Nat) → ω →
    Except IoError (List UInt8 × List (Nat × Nat)) × ω
  marked : ∀ offset size w s, (readAtSalvaging offset size w).1 = .ok s →
    Marked size s.1 s.2

namespace SalvageSource

variable {ω : Type}

/-- A source whose refusals are not read around. -/
def plain (dev : BlockSource ω) : SalvageSource ω where
  toBlockSource := dev
  readAtSalvaging offset size w :=
    ((dev.readAt offset size w).1.map (fun b => (b, [])), (dev.readAt offset size w).2)
  marked := by
    intro offset size w s h
    cases hread : (dev.readAt offset size w).1 with
    | error e =>
      rw [hread] at h
      cases h
    | ok b =>
      rw [hread] at h
      cases h
      have hwhole := Marked.whole b
      rwa [dev.length_of_readAt offset size w b hread] at hwhole

/-- An image that is read again in pieces and by sector. -/
def image (dev : BlockSource ω) (eof : IoError → Bool) : SalvageSource ω where
  toBlockSource := dev
  readAtSalvaging offset size w := salvage (m := StateM ω) dev.readAt eof offset size w
  marked := by
    intro offset size w s h
    have hfills : Fills (fun _ : ω => True) dev.readAt := by
      intro o n w' _
      exact ⟨fun b hb => dev.length_of_readAt o n w' b hb, True.intro⟩
    exact (salvage_keeps hfills eof offset size w True.intro).1 s h

end SalvageSource

/-- A reader whose devices salvage. -/
structure SalvageReader (ω : Type) where
  sources : List (Option (SalvageSource ω))
  bases : List Nat
  pool : Pool

namespace SalvageReader

variable {ω : Type} (r : SalvageReader ω)

def reader : Reader ω :=
  { devices := r.sources.map (Option.map SalvageSource.toBlockSource)
    bases := r.bases
    pool := r.pool }

def source (device : Option Nat) : Option (Nat × SalvageSource ω) :=
  device.bind (fun index => (r.sources.getD index none).map (fun dev => (index, dev)))

/-- What a member still gives of a range; sectors it refuses are zeros. -/
def salvageLeaf (device : Option Nat) (offset size : Nat) :
    StateM (ReaderState ω) (Except ReadError (List UInt8 × List (Nat × Nat))) := fun s =>
  match r.source device with
  | none => (.error .noMember, s)
  | some (index, dev) =>
    let s := s.countRead index
    match s.mediumStop with
    | some stop => (.error stop, s)
    | none =>
      let at_ := r.reader.byteOffset index offset
      match s.cache.get index at_ size with
      | some hit => (.ok (hit, []), s)
      | none =>
        match dev.readAtSalvaging at_ size s.world with
        | (.error e, w) => (.error (ioError e), { s with world := w }.noteError e)
        | (.ok (buf, bad), w) =>
          (.ok (buf, bad),
            { s with world := w, cache := if bad = [] then s.cache.put index at_ buf else s.cache })

/-- The best salvage, or why there is none. -/
def bestOr (best : Option (List UInt8 × List (Nat × Nat))) (last : ReadError) :
    Except ReadError (List UInt8 × List (Nat × Nat)) :=
  match best with
  | none => .error last
  | some b => .ok b

/-- Of the leaves the one that lost the fewest bytes; one that lost none ends the search. -/
def salvageLeaves (offset size : Nat) :
    Option (List UInt8 × List (Nat × Nat)) → ReadError → List (Option Nat) →
      StateM (ReaderState ω) (Except ReadError (List UInt8 × List (Nat × Nat)))
  | best, last, [] => pure (bestOr best last)
  | best, last, device :: rest => do
    match ← r.salvageLeaf device offset size with
    | .error e => salvageLeaves offset size best e rest
    | .ok found =>
      let better := match best with
        | none => true
        | some b => decide (lostBytes found.2 < lostBytes b.2)
      let best := if better then some found else best
      if lostBytes found.2 = 0 then pure (bestOr best last)
      else salvageLeaves offset size best last rest

/-- What is left of one copy on a member with bad sectors. -/
def salvageDva (dva : Dva) (psize : Nat) :
    StateM (ReaderState ω) (Except ReadError (List UInt8 × List (Nat × Nat))) :=
  if dva.gang then pure (.error (.gang "a gang block is not salvaged"))
  else match r.pool.locateVdev dva.vdev with
  | none => pure (.error (.unknownVdev dva.vdev))
  | some (.removed _) =>
    pure (.error (.unsupported "salvage through a removed vdev's mapping"))
  | some (.top node) =>
    match node.leavesOf with
    | none =>
      pure (.error (.unsupported
        s!"salvage under {node.describe}: parity reconstruction is whole-block"))
    | some leaves => r.salvageLeaves dva.offset psize none .noMember leaves

end SalvageReader

/-! ## What a salvage gives -/

/-- The ranges of a salvage are in order, apart, not empty, and zeros. -/
def Named (s : List UInt8 × List (Nat × Nat)) : Prop := ∃ size, Marked size s.1 s.2

namespace SalvageReader

variable {ω : Type} (r : SalvageReader ω)

theorem salvageLeaf_named (device : Option Nat) (offset size : Nat) :
    Keeps (fun _ => True) (r.salvageLeaf device offset size)
      (fun found => ∀ s, found = .ok s → Named s) := by
  intro s _
  refine ⟨?_, True.intro⟩
  intro found hfound
  rw [salvageLeaf] at hfound
  cases hsource : r.source device with
  | none => simp [hsource] at hfound
  | some entry =>
    obtain ⟨index, dev⟩ := entry
    simp only [hsource] at hfound
    cases hstop : (s.countRead index).mediumStop with
    | some stop => simp [hstop] at hfound
    | none =>
      simp only [hstop] at hfound
      cases hhit : (s.countRead index).cache.get index (r.reader.byteOffset index offset) size with
      | some hit =>
        simp only [hhit, Except.ok.injEq] at hfound
        rw [← hfound]
        exact ⟨hit.length, Marked.whole hit⟩
      | none =>
        simp only [hhit] at hfound
        have hmarked := dev.marked (r.reader.byteOffset index offset) size
          (s.countRead index).world
        generalize dev.readAtSalvaging (r.reader.byteOffset index offset) size
          (s.countRead index).world = read at hfound hmarked
        obtain ⟨result, w⟩ := read
        cases result with
        | error e => simp at hfound
        | ok kept =>
          simp only [Except.ok.injEq] at hfound
          rw [← hfound]
          exact ⟨size, hmarked kept rfl⟩

theorem salvageLeaves_named (offset size : Nat) (leaves : List (Option Nat)) :
    ∀ (best : Option (List UInt8 × List (Nat × Nat))) (last : ReadError),
      (∀ b, best = some b → Named b) →
      Keeps (fun _ => True) (r.salvageLeaves offset size best last leaves)
        (fun found => ∀ s, found = .ok s → Named s) := by
  have hdone : ∀ (best : Option (List UInt8 × List (Nat × Nat))) (last : ReadError),
      (∀ b, best = some b → Named b) → ∀ s, bestOr best last = .ok s → Named s := by
    intro best last hbest s hs
    cases best with
    | none => cases hs
    | some b =>
      cases hs
      exact hbest _ rfl
  induction leaves with
  | nil =>
    intro best last hbest
    exact Keeps.pure (hdone best last hbest)
  | cons device rest ih =>
    intro best last hbest
    rw [salvageLeaves]
    apply Keeps.bind (r.salvageLeaf_named device offset size)
    intro result hresult
    cases result with
    | error e => exact ih best e hbest
    | ok found =>
      have hchosen : ∀ better : Bool, ∀ b, (if better then some found else best) = some b →
          Named b := by
        intro better b hb
        cases better with
        | true =>
          cases hb
          exact hresult found rfl
        | false => exact hbest b hb
      simp only
      by_cases hwhole : lostBytes found.2 = 0
      · rw [if_pos hwhole]
        exact Keeps.pure (hdone _ last (hchosen _))
      · rw [if_neg hwhole]
        exact ih _ last (hchosen _)

theorem salvageDva_named (dva : Dva) (psize : Nat) :
    Keeps (fun _ => True) (r.salvageDva dva psize) (fun found => ∀ s, found = .ok s → Named s) := by
  have herror : ∀ e : ReadError, Keeps (fun _ => True)
      (pure (.error e) : StateM (ReaderState ω) (Except ReadError (List UInt8 × List (Nat × Nat))))
      (fun found => ∀ s, found = .ok s → Named s) := by
    intro e
    apply Keeps.pure
    intro s hs
    cases hs
  rw [salvageDva]
  by_cases hgang : dva.gang = true
  · rw [if_pos hgang]
    exact herror _
  rw [if_neg hgang]
  cases r.pool.locateVdev dva.vdev with
  | none => exact herror _
  | some where_ =>
    cases where_ with
    | removed mapping => exact herror _
    | top node =>
      simp only
      cases node.leavesOf with
      | none => exact herror _
      | some leaves =>
        exact r.salvageLeaves_named dva.offset psize leaves none .noMember
          (fun b hb => by cases hb)

end SalvageReader

end Zio
end ZvolRescue
