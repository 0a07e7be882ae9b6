import Mathlib.Data.List.Forall2
import ZvolRescue.Lib.Stateful
import ZvolRescue.Zio.Verified

/-!
# The reader over two monads

Where the three operations of an `Io` are related to those of another, so is every function of
the reader: `readBlock_related`, one lemma for each function before it.  Two such relations are
used: that a reader refines its pure reading (`readBlock_refines`), and that it keeps an
invariant of its state (`readBlock_keeps`).
-/

namespace ZvolRescue
namespace Zio

open Lib Ondisk

variable {m n : Type → Type} [Monad m] [Monad n]
  {R : Lib.Related m n} {io : Io m} {io' : Io n}

/-- The operations of `io` are related to those of `io'`. -/
structure Io.Related (R : Lib.Related m n) (io : Io m) (io' : Io n) : Prop where
  readLeaf : ∀ device offset size,
    R.rel (io.readLeaf device offset size) (io'.readLeaf device offset size)
  noteMismatch : R.rel io.noteMismatch io'.noteMismatch
  mediumStop : R.rel io.mediumStop io'.mediumStop

/-- The operations of `io`, run under `I`, do what those of `pureIo` do. -/
structure Io.Refines {σ : Type} (I : σ → Prop) (io : Io (StateM σ)) (pureIo : Io Id) : Prop where
  readLeaf : ∀ device offset size,
    Lib.Refines I (io.readLeaf device offset size) (pureIo.readLeaf device offset size)
  noteMismatch : Lib.Refines I io.noteMismatch pureIo.noteMismatch
  mediumStop : Lib.Refines I io.mediumStop pureIo.mediumStop

/-- The operations of `io` keep `I`. -/
structure Io.Keeps {σ : Type} (I : σ → Prop) (io : Io (StateM σ)) : Prop where
  readLeaf : ∀ device offset size,
    Lib.Keeps I (io.readLeaf device offset size) (fun _ => True)
  noteMismatch : Lib.Keeps I io.noteMismatch (fun _ => True)
  mediumStop : Lib.Keeps I io.mediumStop (fun _ => True)

theorem Io.Refines.related {σ : Type} {I : σ → Prop} {io : Io (StateM σ)} {pureIo : Io Id}
    (h : Io.Refines I io pureIo) : Io.Related (Lib.Refines.related I) io pureIo :=
  ⟨h.readLeaf, h.noteMismatch, h.mediumStop⟩

theorem Io.Keeps.related {σ : Type} {I : σ → Prop} {io : Io (StateM σ)} (h : Io.Keeps I io) :
    Io.Related (Lib.Keeps.related I) io io :=
  ⟨fun device offset size => ⟨rfl, h.readLeaf device offset size⟩, ⟨rfl, h.noteMismatch⟩,
    ⟨rfl, h.mediumStop⟩⟩

inductive Child.Related (R : Lib.Related m n) : Child m → Child n → Prop where
  | dspare (spareId : Nat) : Child.Related R (.dspare spareId) (.dspare spareId)
  | other {read : Nat → Nat → m (Except ReadError (List UInt8))}
      {read' : Nat → Nat → n (Except ReadError (List UInt8))}
      (h : ∀ offset size, R.rel (read offset size) (read' offset size)) :
      Child.Related R (.other read) (.other read')

/-- Related lists are related at every index. -/
theorem rel_getElem? {α β : Type} {R : α → β → Prop} {l : List α} {l' : List β}
    (h : List.Forall₂ R l l') (i : Nat) : Option.Rel R l[i]? l'[i]? := by
  induction h generalizing i with
  | nil =>
    rw [List.getElem?_nil, List.getElem?_nil]
    exact Option.Rel.none
  | cons h _ ih =>
    cases i with
    | zero => exact Option.Rel.some h
    | succ i => exact ih i

theorem rel_of_mem_right {α β : Type} {R : α → β → Prop} {l : List α} {l' : List β}
    (h : List.Forall₂ R l l') {b : β} (hb : b ∈ l') : ∃ a, R a b := by
  induction h with
  | nil => cases hb
  | cons h _ ih =>
    cases hb with
    | head => exact ⟨_, h⟩
    | tail _ hb => exact ih hb

/-! ## Columns and rows -/

section Rows

variable {children : List (Child m)} {children' : List (Child n)}

theorem readColumnFrom_related (hc : List.Forall₂ (Child.Related R) children children')
    (cfg : Option Draid.Config) (c : Raidz.Column) :
    ∀ rounds devidx, R.rel (readColumnFrom cfg children c rounds devidx)
      (readColumnFrom cfg children' c rounds devidx) := by
  intro rounds
  induction rounds with
  | zero =>
    intro devidx
    exact R.pure _
  | succ rounds ih =>
    intro devidx
    have h := rel_getElem? hc devidx
    unfold readColumnFrom
    generalize children[devidx]? = a at h ⊢
    generalize children'[devidx]? = b at h ⊢
    cases h with
    | none => exact R.pure _
    | some h =>
      cases h with
      | dspare spareId =>
        cases cfg with
        | none => exact R.pure _
        | some cfg => exact ih _
      | other h => exact h _ _

theorem readColumn_related (hc : List.Forall₂ (Child.Related R) children children')
    (cfg : Option Draid.Config) (c : Raidz.Column) :
    R.rel (readColumn cfg children c) (readColumn cfg children' c) := by
  unfold readColumn
  by_cases h : c.size = 0
  · rw [if_pos h, if_pos h]
    exact R.pure _
  · rw [if_neg h, if_neg h, hc.length_eq]
    exact readColumnFrom_related hc cfg c _ _

theorem readRow_related (hc : List.Forall₂ (Child.Related R) children children')
    (cfg : Option Draid.Config) (map : Raidz.Map) :
    R.rel (readRow cfg children map) (readRow cfg children' map) := by
  unfold readRow
  apply R.bind (R.mapM (fun c => readColumn_related hc cfg c) _)
  intro reads
  exact R.pure _

theorem readParity_related (hc : List.Forall₂ (Child.Related R) children children')
    (cfg : Option Draid.Config) (row : Columns) :
    R.rel (readParity cfg children row) (readParity cfg children' row) := by
  unfold readParity
  apply R.bind
  · apply R.mapM
    intro p
    cases p.1 with
    | some b => exact R.pure _
    | none =>
      cases row.map.parity[p.2]? with
      | none => exact R.pure _
      | some c => exact R.map _ (readColumn_related hc cfg c)
  · intro parity
    exact R.pure _

theorem readParityIfLost_related (hc : List.Forall₂ (Child.Related R) children children')
    (cfg : Option Draid.Config) (row : Columns) :
    R.rel (readParityIfLost cfg children row) (readParityIfLost cfg children' row) := by
  unfold readParityIfLost
  by_cases h : row.lost = []
  · rw [if_pos h, if_pos h]
    exact R.pure _
  · rw [if_neg h, if_neg h]
    exact readParity_related hc cfg row

theorem readRows_related (hc : List.Forall₂ (Child.Related R) children children')
    (node : Node) (offset size : Nat) :
    R.rel (readRows node children offset size) (readRows node children' offset size) :=
  R.mapM (fun map => readRow_related hc node.cfg map) _

theorem wholeRows_related (hc : List.Forall₂ (Child.Related R) children children')
    (cfg : Option Draid.Config) :
    ∀ rows, R.rel (wholeRows cfg children rows) (wholeRows cfg children' rows) := by
  intro rows
  induction rows with
  | nil => exact R.pure _
  | cons row rows ih =>
    unfold wholeRows
    apply R.bind (readParityIfLost_related hc cfg row)
    intro row
    cases row.rebuilt with
    | error e => exact R.pure _
    | ok data =>
      apply R.bind ih
      intro rest
      cases rest with
      | error e => exact R.pure _
      | ok rest => exact R.pure _

theorem readStripe_related (hc : List.Forall₂ (Child.Related R) children children')
    (node : Node) (offset size : Nat) :
    R.rel (readStripe node children offset size)
      (readStripe node children' offset size) := by
  unfold readStripe
  apply R.bind (readRows_related hc node offset size)
  intro rows
  apply R.bind (wholeRows_related hc node.cfg rows)
  intro out
  cases out with
  | error e => exact R.pure _
  | ok out => exact R.pure _

theorem rebuildRows_related (hc : List.Forall₂ (Child.Related R) children children')
    (cfg : Option Draid.Config) :
    ∀ rows, R.rel (Pool.rebuildRows cfg children rows)
      (Pool.rebuildRows cfg children' rows) := by
  intro rows
  induction rows with
  | nil => exact R.pure _
  | cons row rows ih =>
    unfold Pool.rebuildRows
    apply R.bind (readParityIfLost_related hc cfg row)
    intro row
    by_cases h : row.lost.length > row.available
    · rw [if_pos h, if_pos h]
      exact R.pure _
    · rw [if_neg h, if_neg h]
      cases row.rebuilt with
      | error e => exact R.pure _
      | ok data =>
        apply R.bind ih
        intro rest
        cases rest with
        | error e => exact R.pure _
        | ok rest => exact R.pure _

end Rows

/-! ## Reads under a vdev -/

theorem asChild_related {read : Nat → Nat → m (Except ReadError (List UInt8))}
    {read' : Nat → Nat → n (Except ReadError (List UInt8))} (node : Node)
    (h : ∀ offset size, R.rel (read offset size) (read' offset size)) :
    Child.Related R (node.asChild read) (node.asChild read') := by
  cases node with
  | dspare spareId => exact Child.Related.dspare spareId
  | _ => exact Child.Related.other h

mutual

theorem readCandidates_related (h : Io.Related R io io') :
    ∀ (node : Node) (offset size : Nat),
      R.rel (readCandidates io node offset size) (readCandidates io' node offset size)
  | .leaf device guid, offset, size => by
    unfold readCandidates
    apply R.bind (h.readLeaf device offset size)
    intro read
    exact R.pure _
  | .mirror children, offset, size => by
    unfold readCandidates
    exact readCandidatesOfAll_related h children offset size
  | .raidz nparity ashift children, offset, size => by
    unfold readCandidates
    exact readStripe_related (childrenOf_related h children) _ offset size
  | .draid cfg ashift children, offset, size => by
    unfold readCandidates
    exact readStripe_related (childrenOf_related h children) _ offset size
  | .dspare spareId, offset, size => by
    unfold readCandidates
    exact R.pure _
  | .unsupported kind, offset, size => by
    unfold readCandidates
    exact R.pure _

theorem readCandidatesOfAll_related (h : Io.Related R io io') :
    ∀ (nodes : List Node) (offset size : Nat),
      R.rel (readCandidatesOfAll io nodes offset size)
        (readCandidatesOfAll io' nodes offset size)
  | [], offset, size => by
    unfold readCandidatesOfAll
    exact R.pure _
  | node :: nodes, offset, size => by
    unfold readCandidatesOfAll
    apply R.bind (readCandidates_related h node offset size)
    intro here
    apply R.bind (readCandidatesOfAll_related h nodes offset size)
    intro rest
    exact R.pure _

theorem childrenOf_related (h : Io.Related R io io') :
    ∀ nodes : List Node,
      List.Forall₂ (Child.Related R) (childrenOf io nodes) (childrenOf io' nodes)
  | [] => by
    unfold childrenOf
    exact List.Forall₂.nil
  | node :: nodes => by
    unfold childrenOf
    apply List.Forall₂.cons _ (childrenOf_related h nodes)
    apply asChild_related
    intro offset size
    exact R.map _ (readCandidates_related h node offset size)

end

/-! ## Verified reads -/

namespace Pool

variable (p : Pool)

theorem verify_related (h : Io.Related R io io') (bp : BlkPtr) (raw : List UInt8) :
    R.rel (p.verify io bp raw) (p.verify io' bp raw) := by
  unfold Pool.verify
  by_cases hv : p.verdict bp raw = .mismatch
  · rw [if_pos hv, if_pos hv]
    apply R.bind h.noteMismatch
    intro _
    exact R.pure _
  · rw [if_neg hv, if_neg hv]
    exact R.pure _

theorem tryTrials_related (h : Io.Related R io io') (bp : BlkPtr) (rows : List Columns) (r : Nat)
    (data : List (List UInt8)) :
    ∀ ts, R.rel (p.tryTrials io bp rows r data ts) (p.tryTrials io' bp rows r data ts) := by
  intro ts
  induction ts with
  | nil => exact R.pure _
  | cons t ts ih =>
    unfold tryTrials
    cases Raidz.reconstruct data t.usable t.missing with
    | error e => exact ih
    | ok rebuilt =>
      apply R.bind (p.verify_related h bp _)
      intro v
      by_cases hv : v ≠ .mismatch
      · rw [if_pos hv, if_pos hv]
        exact R.pure _
      · rw [if_neg hv, if_neg hv]
        exact ih

theorem search_related (h : Io.Related R io io') (bp : BlkPtr) (rows : List Columns) :
    ∀ rs, R.rel (p.search io bp rows rs) (p.search io' bp rows rs) := by
  intro rs
  induction rs with
  | nil => exact R.pure _
  | cons row rs ih =>
    unfold search
    apply R.bind (p.tryTrials_related h bp rows _ _ _)
    intro found
    cases found with
    | none => exact ih
    | some found => exact R.pure _

theorem readStriped_related (h : Io.Related R io io') (node : Node) (dva : Dva) (bp : BlkPtr)
    (i : Nat) :
    R.rel (p.readStriped io node dva bp i) (p.readStriped io' node dva bp i) := by
  have hc := childrenOf_related h node.children
  unfold readStriped
  apply R.bind (readRows_related hc node dva.offset bp.psize)
  intro rows
  apply R.bind (rebuildRows_related hc node.cfg rows)
  intro rebuilt
  cases rebuilt with
  | error e => exact R.pure _
  | ok rows =>
    apply R.bind (p.verify_related h bp _)
    intro v
    by_cases hv : v ≠ .mismatch
    · rw [if_pos hv, if_pos hv]
      exact R.pure _
    · rw [if_neg hv, if_neg hv]
      apply R.bind (R.mapM (fun row => readParity_related hc node.cfg row) rows)
      intro rows
      apply R.bind (p.search_related h bp rows _)
      intro found
      cases found with
      | none => exact R.pure _
      | some found => exact R.pure _

theorem readVerifiedLeaf_related (h : Io.Related R io io') (device : Option Nat) (dva : Dva)
    (bp : BlkPtr) (i : Nat) :
    R.rel (p.readVerifiedLeaf io device dva bp i)
      (p.readVerifiedLeaf io' device dva bp i) := by
  unfold readVerifiedLeaf
  apply R.bind (h.readLeaf device dva.offset bp.psize)
  intro read
  cases read with
  | error e => exact R.pure _
  | ok raw =>
    apply R.bind (p.verify_related h bp raw)
    intro v
    exact R.pure _

mutual

theorem readVerified_related (h : Io.Related R io io') (dva : Dva) (bp : BlkPtr) (i : Nat) :
    ∀ node : Node,
      R.rel (p.readVerified io dva bp i node) (p.readVerified io' dva bp i node)
  | .leaf device guid => by
    unfold readVerified
    exact p.readVerifiedLeaf_related h device dva bp i
  | .mirror children => by
    unfold readVerified
    exact readVerifiedAny_related h dva bp i .noMember children
  | .raidz nparity ashift children => by
    unfold readVerified
    exact p.readStriped_related h _ dva bp i
  | .draid cfg ashift children => by
    unfold readVerified
    exact p.readStriped_related h _ dva bp i
  | .dspare spareId => by
    unfold readVerified
    exact R.pure _
  | .unsupported kind => by
    unfold readVerified
    exact R.pure _

theorem readVerifiedAny_related (h : Io.Related R io io') (dva : Dva) (bp : BlkPtr) (i : Nat)
    (last : ReadError) :
    ∀ nodes : List Node,
      R.rel (p.readVerifiedAny io dva bp i last nodes)
        (p.readVerifiedAny io' dva bp i last nodes)
  | [] => by
    unfold readVerifiedAny
    exact R.pure _
  | node :: nodes => by
    unfold readVerifiedAny
    apply R.bind (readVerified_related h dva bp i node)
    intro tried
    cases tried with
    | mk attempts result =>
      cases result with
      | ok found => exact R.pure _
      | error e =>
        apply R.bind (readVerifiedAny_related h dva bp i (last.moreTelling e) nodes)
        intro more
        exact R.pure _

end

theorem candidatesOn_related (h : Io.Related R io io')
    {remapped : Nat → Mapping → Nat → Nat → m (List RawCandidate)}
    {remapped' : Nat → Mapping → Nat → Nat → n (List RawCandidate)}
    (hr : ∀ vdev mapping offset size,
      R.rel (remapped vdev mapping offset size) (remapped' vdev mapping offset size))
    (vdev offset size : Nat) :
    R.rel (p.candidatesOn io remapped vdev offset size)
      (p.candidatesOn io' remapped' vdev offset size) := by
  unfold candidatesOn
  cases p.locateVdev vdev with
  | none => exact R.pure _
  | some location =>
    cases location with
    | top node => exact readCandidates_related h node offset size
    | removed mapping => exact hr vdev mapping offset size

theorem remappedCandidates_related (h : Io.Related R io io') :
    ∀ depth vdev mapping offset size,
      R.rel (p.remappedCandidates io depth vdev mapping offset size)
        (p.remappedCandidates io' depth vdev mapping offset size) := by
  intro depth
  induction depth with
  | zero =>
    intro vdev mapping offset size
    exact R.pure _
  | succ depth ih =>
    intro vdev mapping offset size
    unfold remappedCandidates
    cases mapping.remap offset size with
    | error gap => exact R.pure _
    | ok segments =>
      apply R.map
      apply R.mapM
      intro s
      exact p.candidatesOn_related h ih s.vdev s.offset s.size

theorem firstVerified_related (h : Io.Related R io io') (dva : Dva) (bp : BlkPtr) (i : Nat) :
    ∀ (candidates : List RawCandidate) (last : ReadError),
      R.rel (p.firstVerified io dva bp i last candidates)
        (p.firstVerified io' dva bp i last candidates) := by
  intro candidates
  induction candidates with
  | nil =>
    intro last
    exact R.pure _
  | cons c rest ih =>
    intro last
    cases c with
    | mk device read =>
      cases read with
      | error e =>
        unfold firstVerified
        apply R.bind (ih e)
        intro more
        exact R.pure _
      | ok raw =>
        unfold firstVerified
        apply R.bind (p.verify_related h bp raw)
        intro v
        dsimp only
        cases accept raw v with
        | ok found => exact R.pure _
        | error e =>
          apply R.bind (ih e)
          intro more
          exact R.pure _

theorem readVerifiedRemapped_related (h : Io.Related R io io') (dva : Dva) (mapping : Mapping)
    (bp : BlkPtr) (i : Nat) :
    R.rel (p.readVerifiedRemapped io dva mapping bp i)
      (p.readVerifiedRemapped io' dva mapping bp i) := by
  unfold readVerifiedRemapped
  apply R.bind (p.remappedCandidates_related h _ _ _ _ _)
  intro candidates
  exact p.firstVerified_related h dva bp i candidates .noMember

/-! ## Gang blocks, copies and blocks -/

theorem joinChildren_related {read : BlkPtr → m (Except ReadError (List UInt8))}
    {read' : BlkPtr → n (Except ReadError (List UInt8))}
    (hr : ∀ child, R.rel (read child) (read' child)) :
    ∀ children, R.rel (joinChildren read children) (joinChildren read' children) := by
  intro children
  induction children with
  | nil => exact R.pure _
  | cons child rest ih =>
    unfold joinChildren
    by_cases hh : child.isHole
    · rw [if_pos hh, if_pos hh]
      exact ih
    · rw [if_neg hh, if_neg hh]
      apply R.bind (hr child)
      intro raw
      cases raw with
      | error e => exact R.pure _
      | ok raw => exact R.map _ ih

theorem readGangWith_related (h : Io.Related R io io')
    {read : BlkPtr → m (Except ReadError (List UInt8))}
    {read' : BlkPtr → n (Except ReadError (List UInt8))}
    (hr : ∀ child, R.rel (read child) (read' child)) (dva : Dva) (bp : BlkPtr) :
    R.rel (p.readGangWith io read dva bp) (p.readGangWith io' read' dva bp) := by
  unfold readGangWith
  apply R.bind (p.candidatesOn_related h (p.remappedCandidates_related h _) _ _ _)
  intro candidates
  cases p.pickHeader bp (p.gangHeaderSize bp) .noMember candidates with
  | error e => exact R.pure _
  | ok header =>
    dsimp only
    cases parseGangHeader header bp.endian with
    | error e => exact R.pure _
    | ok children => exact R.map _ (joinChildren_related hr children)

section Copies

variable {gang : Dva → BlkPtr → m (Except ReadError (List UInt8))}
  {gang' : Dva → BlkPtr → n (Except ReadError (List UInt8))}

theorem readCopy_related (h : Io.Related R io io')
    (hg : ∀ dva bp, R.rel (gang dva bp) (gang' dva bp)) (bp : BlkPtr) (dva : Dva)
    (i : Nat) :
    R.rel (p.readCopy io gang bp dva i) (p.readCopy io' gang' bp dva i) := by
  unfold readCopy
  cases p.locateVdev dva.vdev with
  | none => exact R.pure _
  | some location =>
    by_cases hd : dva.gang
    · show R.rel (if dva.gang then _ else _) (if dva.gang then _ else _)
      rw [if_pos hd, if_pos hd]
      apply R.bind (hg dva bp)
      intro raw
      cases raw with
      | error e => exact R.pure _
      | ok raw =>
        apply R.bind (p.verify_related h bp raw)
        intro v
        exact R.pure _
    · show R.rel (if dva.gang then _ else _) (if dva.gang then _ else _)
      rw [if_neg hd, if_neg hd]
      cases location with
      | top node => exact p.readVerified_related h dva bp i node
      | removed mapping => exact p.readVerifiedRemapped_related h dva mapping bp i

theorem readCopies_related (h : Io.Related R io io')
    (hg : ∀ dva bp, R.rel (gang dva bp) (gang' dva bp)) (bp : BlkPtr) :
    ∀ (dvas : List (Dva × Nat)) (last : ReadError),
      R.rel (p.readCopies io gang bp last dvas) (p.readCopies io' gang' bp last dvas) := by
  intro dvas
  induction dvas with
  | nil =>
    intro last
    exact R.pure _
  | cons d rest ih =>
    intro last
    cases d with
    | mk dva i =>
      unfold readCopies
      by_cases he : dva.isEmpty
      · rw [if_pos he, if_pos he]
        exact ih last
      · rw [if_neg he, if_neg he]
        apply R.bind (p.readCopy_related h hg bp dva i)
        intro tried
        cases tried with
        | mk attempts result =>
          cases result with
          | ok found => exact R.pure _
          | error e =>
            apply R.bind (ih (p.lastError dva last e))
            intro more
            exact R.pure _

end Copies

theorem readGang_related (h : Io.Related R io io') :
    ∀ depth dva bp, R.rel (p.readGang io depth dva bp) (p.readGang io' depth dva bp) := by
  intro depth
  induction depth with
  | zero =>
    intro dva bp
    exact R.pure _
  | succ depth ih =>
    intro dva bp
    unfold readGang
    apply p.readGangWith_related h
    intro child
    exact R.map _ (p.readCopies_related h ih child _ _)

theorem readRawVerified_related (h : Io.Related R io io') (bp : BlkPtr) :
    R.rel (p.readRawVerified io (p.readGang io maxDepth) bp)
      (p.readRawVerified io' (p.readGang io' maxDepth) bp) :=
  p.readCopies_related h (p.readGang_related h _) bp _ _

/-- The whole read of a block refines its pure reading. -/
theorem readBlock_related (h : Io.Related R io io') (bp : BlkPtr) (allowUnverified : Bool) :
    R.rel (p.readBlock io bp allowUnverified) (p.readBlock io' bp allowUnverified) := by
  unfold readBlock
  by_cases hh : bp.isHole
  · rw [if_pos hh, if_pos hh]
    exact R.pure _
  · rw [if_neg hh, if_neg hh]
    cases bp.embeddedPayload with
    | some payload => exact R.pure _
    | none =>
      apply R.bind (p.readRawVerified_related h bp)
      intro tried
      cases tried with
      | mk attempts raw =>
        apply R.bind h.mediumStop
        intro stop
        cases stop with
        | some stop => exact R.pure _
        | none => exact R.pure _

/-! ## Refinement and invariants -/

section Refines

variable {σ : Type} {I : σ → Prop} {sio : Io (StateM σ)} {pureIo : Io Id}

theorem readBlock_refines (h : Io.Refines I sio pureIo) (bp : BlkPtr) (allowUnverified : Bool) :
    Refines I (p.readBlock sio bp allowUnverified) (p.readBlock pureIo bp allowUnverified) :=
  p.readBlock_related h.related bp allowUnverified

theorem readRawVerified_refines (h : Io.Refines I sio pureIo) (bp : BlkPtr) :
    Refines I (p.readRawVerified sio (p.readGang sio maxDepth) bp)
      (p.readRawVerified pureIo (p.readGang pureIo maxDepth) bp) :=
  p.readRawVerified_related h.related bp

theorem readVerifiedRemapped_refines (h : Io.Refines I sio pureIo) (dva : Dva) (mapping : Mapping)
    (bp : BlkPtr) (i : Nat) :
    Refines I (p.readVerifiedRemapped sio dva mapping bp i)
      (p.readVerifiedRemapped pureIo dva mapping bp i) :=
  p.readVerifiedRemapped_related h.related dva mapping bp i

theorem readStriped_refines (h : Io.Refines I sio pureIo) (node : Node) (dva : Dva) (bp : BlkPtr)
    (i : Nat) :
    Refines I (p.readStriped sio node dva bp i) (p.readStriped pureIo node dva bp i) :=
  p.readStriped_related h.related node dva bp i

/-- The read of a block keeps what each of the three operations keeps. -/
theorem readBlock_keeps (h : Io.Keeps I sio) (bp : BlkPtr) (allowUnverified : Bool) :
    Keeps I (p.readBlock sio bp allowUnverified) (fun _ => True) :=
  (p.readBlock_related h.related bp allowUnverified).2

end Refines

end Pool

end Zio
end ZvolRescue
