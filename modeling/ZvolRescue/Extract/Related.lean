import ZvolRescue.Extract.Volume
import ZvolRescue.Zio.Refine
import ZvolRescue.Zio.Salvage

/-!
# An extraction over two readers

Where the operations of a pool reader are related to those of another, so are the walk to a
block and the extraction of a volume (`extractFrom_related`).
-/

namespace ZvolRescue

open Lib Ondisk Source Zio

/-! ## Salvaging a copy -/

namespace Zio

section Salvage

variable {ω ω' : Type} {r : SalvageReader ω} {r' : SalvageReader ω'}
  {R : Lib.Related (StateM (ReaderState ω)) (StateM (ReaderState ω'))}

/-- The operations of `r` are related to those of `r'`, which has the same pool. -/
structure SalvageReader.Related (R : Lib.Related (StateM (ReaderState ω)) (StateM (ReaderState ω')))
    (r : SalvageReader ω) (r' : SalvageReader ω') : Prop where
  pool : r.pool = r'.pool
  io : Io.Related R r.reader.io r'.reader.io
  salvageLeaf : ∀ device offset size,
    R.rel (r.salvageLeaf device offset size) (r'.salvageLeaf device offset size)

namespace SalvageReader

theorem salvageLeaves_related (h : SalvageReader.Related R r r') (offset size : Nat)
    (leaves : List (Option Nat)) :
    ∀ (best : Option (List UInt8 × List (Nat × Nat))) (last : ReadError),
      R.rel (r.salvageLeaves offset size best last leaves)
        (r'.salvageLeaves offset size best last leaves) := by
  induction leaves with
  | nil =>
    intro best last
    exact R.pure _
  | cons device rest ih =>
    intro best last
    rw [salvageLeaves, salvageLeaves]
    apply R.bind (h.salvageLeaf device offset size)
    intro result
    cases result with
    | error e => exact ih best e
    | ok found =>
      simp only
      by_cases hwhole : lostBytes found.2 = 0
      · rw [if_pos hwhole, if_pos hwhole]
        exact R.pure _
      · rw [if_neg hwhole, if_neg hwhole]
        exact ih _ last

theorem salvageDva_related (h : SalvageReader.Related R r r') (dva : Dva) (psize : Nat) :
    R.rel (r.salvageDva dva psize) (r'.salvageDva dva psize) := by
  rw [salvageDva, salvageDva, h.pool]
  by_cases hgang : dva.gang = true
  · rw [if_pos hgang, if_pos hgang]
    exact R.pure _
  rw [if_neg hgang, if_neg hgang]
  cases r'.pool.locateVdev dva.vdev with
  | none => exact R.pure _
  | some where_ =>
    cases where_ with
    | removed mapping => exact R.pure _
    | top node =>
      simp only
      cases node.leavesOf with
      | none => exact R.pure _
      | some leaves => exact salvageLeaves_related h dva.offset psize leaves none .noMember

end SalvageReader

end Salvage

end Zio

/-! ## The operations of a pool reader -/

namespace Dmu

variable {m n : Type → Type} [Monad m] [Monad n] {R : Lib.Related m n}
  {reader : PoolReader m} {reader' : PoolReader n}

/-- The operations of `reader` are related to those of `reader'`. -/
structure PoolReader.Related (R : Lib.Related m n) (reader : PoolReader m)
    (reader' : PoolReader n) : Prop where
  readBlock : ∀ bp, R.rel (reader.readBlock bp) (reader'.readBlock bp)
  verify : ∀ bp raw, R.rel (reader.verify bp raw) (reader'.verify bp raw)
  salvageDva : ∀ dva psize, R.rel (reader.salvageDva dva psize) (reader'.salvageDva dva psize)

/-- The same object through another reader. -/
def ObjectReader.through (obj : ObjectReader m) (reader' : PoolReader n) : ObjectReader n :=
  { reader := reader', dnode := obj.dnode, endian := obj.endian }

namespace ObjectReader

theorem locateFrom_related (obj : ObjectReader m)
    (h : PoolReader.Related R obj.reader reader') (blkid : Nat) :
    ∀ level bp, R.rel (obj.locateFrom blkid level bp)
      ((obj.through reader').locateFrom blkid level bp) := by
  intro level
  induction level with
  | zero =>
    intro bp
    exact R.pure _
  | succ level ih =>
    intro bp
    rw [locateFrom, locateFrom]
    by_cases hhole : bp.isHole = true
    · rw [if_pos hhole, if_pos hhole]
      exact R.pure _
    rw [if_neg hhole, if_neg hhole]
    apply R.bind (h.readBlock bp)
    intro result
    cases result with
    | error e => exact R.pure _
    | ok block =>
      have hepbs : (obj.through reader').epbs = obj.epbs := rfl
      simp only [hepbs]
      generalize shr64 blkid (obj.epbs * level) % shl64 1 obj.epbs = index
      split
      · cases BlkPtr.parse ((block.data.drop (mul64 index bpSize)).take bpSize) bp.endian with
        | error e => exact R.pure _
        | ok child => exact ih child
      · exact R.pure _

theorem locate_related (obj : ObjectReader m) (h : PoolReader.Related R obj.reader reader')
    (blkid : Nat) :
    R.rel (obj.locate blkid) ((obj.through reader').locate blkid) := by
  rw [locate, locate]
  have hepbs : (obj.through reader').epbs = obj.epbs := rfl
  have hdnode : (obj.through reader').dnode = obj.dnode := rfl
  simp only [hepbs, hdnode]
  cases obj.dnode.nlevels with
  | zero => exact R.pure _
  | succ level =>
    simp only
    split
    · exact R.pure _
    · exact obj.locateFrom_related h blkid level _

end ObjectReader

end Dmu

/-! ## Extraction -/

namespace Extract

open Dmu

section Reading

variable {m n : Type → Type} [Monad m] [Monad n] {R : Lib.Related m n}
  {reader : PoolReader m} {reader' : PoolReader n}

theorem bestSalvage_related (h : PoolReader.Related R reader reader') (psize : Nat)
    (dvas : List Dva) :
    ∀ best : Option Salvage,
      R.rel (bestSalvage reader psize best dvas) (bestSalvage reader' psize best dvas) := by
  induction dvas with
  | nil =>
    intro best
    exact R.pure _
  | cons dva rest ih =>
    intro best
    rw [bestSalvage, bestSalvage]
    apply R.bind (h.salvageDva dva psize)
    intro result
    cases result with
    | error e => exact ih best
    | ok found =>
      simp only
      by_cases hwhole : lostBytes found.2 = 0
      · rw [if_pos hwhole, if_pos hwhole]
        exact R.pure _
      · rw [if_neg hwhole, if_neg hwhole]
        exact ih _

theorem salvage_related (h : PoolReader.Related R reader reader') (bp : BlkPtr) (e : ReadError) :
    R.rel (salvage reader bp e) (salvage reader' bp e) := by
  cases e with
  | io what =>
    rw [salvage, salvage]
    split
    · exact R.pure _
    apply R.bind (bestSalvage_related h bp.psize bp.dvas none)
    intro found
    match found with
    | none => exact R.pure _
    | some (data, []) =>
      apply R.bind (h.verify bp data)
      intro v
      exact R.pure _
    | some (data, bad :: rest) => exact R.pure _
  | _ => exact R.pure _

theorem whyNotSalvaged_related (h : PoolReader.Related R reader reader') (bp : BlkPtr) :
    R.rel (whyNotSalvaged reader bp) (whyNotSalvaged reader' bp) := by
  rw [whyNotSalvaged, whyNotSalvaged]
  split
  · exact R.pure _
  split
  · exact R.pure _
  split
  · exact R.pure _
  · apply R.bind (h.salvageDva _ _)
    intro result
    cases result with
    | error e => exact R.pure _
    | ok found => exact R.pure _

theorem readFailed_related (h : PoolReader.Related R reader reader') (bp : Option BlkPtr)
    (e : ReadError) : R.rel (readFailed reader bp e) (readFailed reader' bp e) := by
  cases bp with
  | none => exact R.pure _
  | some bp =>
    show R.rel (salvage reader bp e >>= _) (salvage reader' bp e >>= _)
    apply R.bind (salvage_related h bp e)
    intro found
    match found with
    | some (.whole data) => exact R.pure _
    | some (.partly data ranges) => exact R.pure _
    | none =>
      cases e with
      | io what =>
        apply R.bind (whyNotSalvaged_related h bp)
        intro why
        exact R.pure _
      | _ => exact R.pure _

theorem readVolumeBlock_related (obj : ObjectReader m)
    (h : PoolReader.Related R obj.reader reader') (onError : OnError) (blkid : Nat) :
    R.rel (readVolumeBlock obj onError blkid)
      (readVolumeBlock (obj.through reader') onError blkid) := by
  have hfailed : ∀ (bp : Option BlkPtr) (e : ReadError), R.rel
      (if onError = .abort then pure (.stopped e.text false) else readFailed obj.reader bp e)
      (if onError = .abort then pure (.stopped e.text false) else readFailed reader' bp e) := by
    intro bp e
    by_cases habort : onError = .abort
    · rw [if_pos habort, if_pos habort]
      exact R.pure _
    · rw [if_neg habort, if_neg habort]
      exact readFailed_related h bp e
  rw [readVolumeBlock, readVolumeBlock]
  apply R.bind (obj.locate_related h blkid)
  intro located
  rcases located with e | _ | bp
  on_goal 1 => refine R.bind (R.pure _) (fun result => ?_)
  on_goal 2 => refine R.bind (R.pure _) (fun result => ?_)
  on_goal 3 => refine R.bind (R.map _ (h.readBlock bp)) (fun result => ?_)
  -- What follows the read does not depend on where the pointer came from.
  all_goals
    cases result with
    | ok data => cases data <;> exact R.pure _
    | error e =>
      cases e with
      | medium stop what =>
        cases stop with
        | true => exact R.pure _
        | false => exact hfailed _ _
      | _ => exact hfailed _ _

variable {τ : Type}

theorem visitBlocks_related {read : Nat → m BlockRead} {read' : Nat → n BlockRead}
    (h : ∀ blkid, R.rel (read blkid) (read' blkid)) (sink : BlockSink τ) (stop : Nat → Bool) :
    ∀ left blkid run, R.rel (visitBlocks read sink stop left blkid run)
      (visitBlocks read' sink stop left blkid run) := by
  intro left
  induction left with
  | zero =>
    intro blkid run
    exact R.pure _
  | succ left ih =>
    intro blkid run
    rw [visitBlocks, visitBlocks]
    by_cases hstop : stop blkid = true
    · rw [if_pos hstop, if_pos hstop]
      exact R.pure _
    rw [if_neg hstop, if_neg hstop]
    apply R.bind (h blkid)
    intro found
    cases run.record sink blkid found with
    | next run => exact ih (blkid + 1) run
    | broke run => exact R.pure _
    | failed e run => exact R.pure _

/-- The extraction of a volume, over each of the readers. -/
theorem extractFrom_related (hashes : ImageHashes) (obj : ObjectReader m)
    (h : PoolReader.Related R obj.reader reader') (volsize : Nat) (sink : BlockSink τ)
    (onError : OnError) (startBlock : Nat) (digests : Digests) (stop : Nat → Bool) (s : τ) :
    R.rel (extractFrom hashes obj volsize sink onError startBlock digests stop s)
      (extractFrom hashes (obj.through reader') volsize sink onError startBlock digests stop s) := by
  rw [extractFrom, extractFrom]
  have hdnode : (obj.through reader').dnode = obj.dnode := rfl
  simp only [hdnode]
  by_cases hbs : obj.dnode.datablksz = 0
  · rw [if_pos hbs, if_pos hbs]
    exact R.pure _
  · rw [if_neg hbs, if_neg hbs]
    apply R.bind (visitBlocks_related (readVolumeBlock_related obj h onError) sink stop _ _ _)
    intro visited
    obtain ⟨result, run⟩ := visited
    cases result with
    | error e => exact R.pure _
    | ok _ => exact R.pure _

end Reading

end Extract
end ZvolRescue
