import ZvolRescue.Zio.Copies
import ZvolRescue.Zio.Removed

/-!
# Reads that stop no run

A run is stopped by a device that refuses a read.  Where no leaf read fails so, no read of a block
does, on any vdevs (`readBlock_calm`).
-/

namespace ZvolRescue
namespace Zio

open Lib Ondisk

/-! ## Errors that do not stop a run -/

theorem ReadError.Calm.moreTelling {a b : ReadError} (ha : a.Calm) (hb : b.Calm) :
    (a.moreTelling b).Calm := by
  unfold ReadError.moreTelling
  split
  · exact ha
  · exact hb
  · exact hb
  · exact ha
  · exact hb

/-- What fails here does not stop a run. -/
def Calm {α : Type} (r : Except ReadError α) : Prop := ∀ e, r = .error e → e.Calm

section Calm

variable {α β : Type}

theorem Calm.ok (a : α) : Calm (.ok a : Except ReadError α) := by
  intro e h
  cases h

theorem Calm.error {e : ReadError} (h : e.Calm) : Calm (.error e : Except ReadError α) := by
  intro e' he
  cases he
  exact h

theorem Calm.map {r : Except ReadError α} (h : Calm r) (f : α → β) : Calm (r.map f) := by
  cases r with
  | error e => exact Calm.error (h e rfl)
  | ok a => exact Calm.ok (f a)

end Calm

/-- No leaf read stops the run, and nothing has. -/
structure Io.Calm (io : Io Id) : Prop where
  readLeaf : ∀ device offset size, Zio.Calm (io.readLeaf device offset size).run
  mediumStop : io.mediumStop.run = none

/-! ## Reads under a vdev -/

section Vdevs

variable {io : Io Id}

theorem Columns.rebuilt_calm (row : Columns) : Calm row.rebuilt := by
  unfold Columns.rebuilt
  split
  · exact Calm.ok _
  · split
    · exact Calm.ok _
    · exact Calm.error (fun _ h => by cases h)

theorem wholeRows_calm (cfg : Option Draid.Config) (children : List (Child Id)) :
    ∀ rows, Calm (wholeRows cfg children rows).run := by
  intro rows
  induction rows with
  | nil => exact Calm.ok _
  | cons row rows ih =>
    unfold wholeRows
    simp only [Id.run_bind]
    generalize (readParityIfLost cfg children row).run = row
    have hrow := row.rebuilt_calm
    cases hrebuilt : row.rebuilt with
    | error e => exact Calm.error (hrow e hrebuilt)
    | ok data =>
      simp only [Id.run_bind]
      generalize (wholeRows cfg children rows).run = rest at ih
      cases rest with
      | error e => exact Calm.error (ih e rfl)
      | ok rest => exact Calm.ok _

theorem readStripe_calm (node : Node) (children : List (Child Id)) (offset size : Nat) :
    ∀ c ∈ (readStripe node children offset size).run, Calm c.2 := by
  intro c hc
  unfold readStripe at hc
  simp only [Id.run_bind] at hc
  have hwhole := wholeRows_calm node.cfg children (readRows node children offset size).run
  generalize (wholeRows node.cfg children (readRows node children offset size).run).run = out
    at hc hwhole
  cases out with
  | error e =>
    rw [List.mem_singleton.mp hc]
    exact Calm.error (hwhole e rfl)
  | ok out =>
    rw [List.mem_singleton.mp hc]
    exact Calm.ok _

mutual

theorem readCandidates_calm (hio : io.Calm) :
    ∀ (node : Node) (offset size : Nat), ∀ c ∈ (readCandidates io node offset size).run, Calm c.2
  | .leaf device guid, offset, size => by
    intro c hc
    unfold readCandidates at hc
    rw [List.mem_singleton.mp hc]
    exact hio.readLeaf device offset size
  | .mirror children, offset, size => by
    unfold readCandidates
    exact readCandidatesOfAll_calm hio children offset size
  | .raidz nparity ashift children, offset, size => by
    unfold readCandidates
    exact readStripe_calm _ _ offset size
  | .draid cfg ashift children, offset, size => by
    unfold readCandidates
    exact readStripe_calm _ _ offset size
  | .dspare spareId, offset, size => by
    intro c hc
    unfold readCandidates at hc
    rw [List.mem_singleton.mp hc]
    exact Calm.error (fun _ h => by cases h)
  | .unsupported kind, offset, size => by
    intro c hc
    unfold readCandidates at hc
    rw [List.mem_singleton.mp hc]
    exact Calm.error (fun _ h => by cases h)

theorem readCandidatesOfAll_calm (hio : io.Calm) :
    ∀ (nodes : List Node) (offset size : Nat),
      ∀ c ∈ (readCandidatesOfAll io nodes offset size).run, Calm c.2
  | [], offset, size => by
    intro c hc
    unfold readCandidatesOfAll at hc
    cases hc
  | node :: nodes, offset, size => by
    intro c hc
    unfold readCandidatesOfAll at hc
    rcases List.mem_append.mp hc with hc | hc
    · exact readCandidates_calm hio node offset size c hc
    · exact readCandidatesOfAll_calm hio nodes offset size c hc

end

end Vdevs

namespace Pool

theorem joinWay_calm {k : Nat} {per : List (List RawCandidate)}
    (h : ∀ piece ∈ per, ∀ c ∈ piece, Calm c.2) : Calm (joinWay k per) := by
  induction per with
  | nil => exact Calm.ok _
  | cons piece per ih =>
    have hpiece := h piece List.mem_cons_self
    have hrest := ih (fun piece hp => h piece (List.mem_cons_of_mem _ hp))
    rw [joinWay]
    cases hget : piece[min k (piece.length - 1)]? with
    | none => exact Calm.error (fun _ h => by cases h)
    | some c =>
      obtain ⟨device, read⟩ := c
      have hc := hpiece _ (List.mem_of_getElem? hget)
      cases read with
      | error e => exact hc
      | ok b => exact hrest.map _

theorem ways_calm {per : List (List RawCandidate)} (h : ∀ piece ∈ per, ∀ c ∈ piece, Calm c.2) :
    ∀ c ∈ ways per, Calm c.2 := by
  intro c hc
  obtain ⟨k, -, rfl⟩ := List.mem_map.mp hc
  exact joinWay_calm h

variable (p : Pool) {io : Io Id}

theorem candidatesOn_calm (hio : io.Calm)
    {remapped : Nat → Mapping → Nat → Nat → Id (List RawCandidate)}
    (hremapped : ∀ vdev mapping offset size, ∀ c ∈ (remapped vdev mapping offset size).run,
      Calm c.2) (vdev offset size : Nat) :
    ∀ c ∈ (p.candidatesOn io remapped vdev offset size).run, Calm c.2 := by
  unfold candidatesOn
  cases p.locateVdev vdev with
  | none =>
    intro c hc
    rw [List.mem_singleton.mp hc]
    exact Calm.error (fun _ h => by cases h)
  | some location =>
    cases location with
    | top node => exact readCandidates_calm hio node offset size
    | removed mapping => exact hremapped vdev mapping offset size

theorem remappedCandidates_calm (hio : io.Calm) :
    ∀ depth vdev mapping offset size,
      ∀ c ∈ (p.remappedCandidates io depth vdev mapping offset size).run, Calm c.2 := by
  intro depth
  induction depth with
  | zero =>
    intro vdev mapping offset size c hc
    rw [List.mem_singleton.mp hc]
    exact Calm.error (fun _ h => by cases h)
  | succ depth ih =>
    intro vdev mapping offset size
    cases hremap : mapping.remap offset size with
    | error gap =>
      intro c hc
      unfold remappedCandidates at hc
      rw [hremap] at hc
      rw [List.mem_singleton.mp hc]
      exact Calm.error (fun _ h => by cases h)
    | ok segments =>
      rw [p.remappedCandidates_run hremap]
      apply ways_calm
      intro piece hpiece
      obtain ⟨s, -, rfl⟩ := List.mem_map.mp hpiece
      exact p.candidatesOn_calm hio ih s.vdev s.offset s.size

theorem accept_calm (raw : List UInt8) (v : Verify) : Calm (accept raw v) := by
  cases v with
  | ok => exact Calm.ok _
  | notChecked => exact Calm.ok _
  | mismatch => exact Calm.error (fun _ h => by cases h)
  | unsupported => exact Calm.error (fun _ h => by cases h)

theorem firstVerified_calm {bp : BlkPtr} (dva : Dva) (i : Nat) :
    ∀ (candidates : List RawCandidate) (last : ReadError), last.Calm →
      (∀ c ∈ candidates, Calm c.2) →
      Calm (p.firstVerified io dva bp i last candidates).run.2 := by
  intro candidates
  induction candidates with
  | nil =>
    intro last hlast _
    exact Calm.error hlast
  | cons c rest ih =>
    intro last hlast hall
    obtain ⟨device, read⟩ := c
    have hrest := fun c hc => hall c (List.mem_cons_of_mem _ hc)
    unfold firstVerified
    cases read with
    | error e => exact ih e (hall _ List.mem_cons_self e rfl) hrest
    | ok raw =>
      simp only [Id.run_bind]
      generalize (p.verify io bp raw).run = v
      have haccept := accept_calm raw v
      cases hresult : accept raw v with
      | ok found => exact Calm.ok _
      | error e => exact ih e (haccept e hresult) hrest

theorem readVerifiedRemapped_calm (hio : io.Calm) (dva : Dva) (mapping : Mapping) (bp : BlkPtr)
    (i : Nat) : Calm (p.readVerifiedRemapped io dva mapping bp i).run.2 := by
  unfold readVerifiedRemapped
  exact p.firstVerified_calm dva i _ .noMember (fun _ h => by cases h)
    (p.remappedCandidates_calm hio maxDepth dva.vdev mapping dva.offset bp.psize)

/-! ## Copies -/

theorem rebuildRows_calm (cfg : Option Draid.Config) (children : List (Child Id)) :
    ∀ rows e, (rebuildRows cfg children rows).run = .error e → e.2.Calm := by
  intro rows
  induction rows with
  | nil =>
    intro e h
    cases h
  | cons row rows ih =>
    intro e h
    unfold rebuildRows at h
    simp only [Id.run_bind] at h
    generalize (readParityIfLost cfg children row).run = row at h
    by_cases hmany : row.lost.length > row.available
    · rw [if_pos hmany] at h
      cases h
      intro _ h
      cases h
    · rw [if_neg hmany] at h
      have hrow := row.rebuilt_calm
      cases hrebuilt : row.rebuilt with
      | error e' =>
        rw [hrebuilt] at h
        cases h
        exact hrow e' hrebuilt
      | ok data =>
        rw [hrebuilt] at h
        simp only [Id.run_bind] at h
        generalize (rebuildRows cfg children rows).run = rest at h ih
        cases rest with
        | error e' =>
          cases h
          exact ih _ rfl
        | ok rest => cases h

theorem readStriped_calm (node : Node) (dva : Dva) (bp : BlkPtr) (i : Nat) :
    Calm (p.readStriped io node dva bp i).run.2 := by
  unfold readStriped
  simp only [Id.run_bind]
  have hrebuild := rebuildRows_calm node.cfg (childrenOf io node.children)
    (readRows node (childrenOf io node.children) dva.offset bp.psize).run
  generalize (rebuildRows node.cfg (childrenOf io node.children)
    (readRows node (childrenOf io node.children) dva.offset bp.psize).run).run = rebuilt
    at hrebuild
  cases rebuilt with
  | error e => exact Calm.error (hrebuild e rfl)
  | ok rows =>
    simp only [Id.run_bind]
    by_cases hv : (p.verify io bp (assemble bp.psize rows)).run ≠ .mismatch
    · rw [if_pos hv]
      exact Calm.ok _
    · rw [if_neg hv]
      simp only [Id.run_bind]
      generalize (p.search io bp _ _).run = found
      cases found with
      | none => exact Calm.error (fun _ h => by cases h)
      | some found => exact Calm.ok _

theorem readVerifiedLeaf_calm (hio : io.Calm) (device : Option Nat) (dva : Dva) (bp : BlkPtr)
    (i : Nat) : Calm (p.readVerifiedLeaf io device dva bp i).run.2 := by
  unfold readVerifiedLeaf
  simp only [Id.run_bind]
  have hread := hio.readLeaf device dva.offset bp.psize
  generalize (io.readLeaf device dva.offset bp.psize).run = read at hread
  cases read with
  | error e => exact Calm.error (hread e rfl)
  | ok raw => exact accept_calm raw _

mutual

theorem readVerified_calm (hio : io.Calm) (dva : Dva) (bp : BlkPtr) (i : Nat) :
    ∀ node : Node, Calm (p.readVerified io dva bp i node).run.2
  | .leaf device guid => by
    unfold readVerified
    exact p.readVerifiedLeaf_calm hio device dva bp i
  | .mirror children => by
    unfold readVerified
    exact readVerifiedAny_calm hio dva bp i children .noMember (fun _ h => by cases h)
  | .raidz nparity ashift children => by
    unfold readVerified
    exact p.readStriped_calm _ dva bp i
  | .draid cfg ashift children => by
    unfold readVerified
    exact p.readStriped_calm _ dva bp i
  | .dspare spareId => by
    unfold readVerified
    exact Calm.error (fun _ h => by cases h)
  | .unsupported kind => by
    unfold readVerified
    exact Calm.error (fun _ h => by cases h)

theorem readVerifiedAny_calm (hio : io.Calm) (dva : Dva) (bp : BlkPtr) (i : Nat) :
    ∀ (nodes : List Node) (last : ReadError), last.Calm →
      Calm (p.readVerifiedAny io dva bp i last nodes).run.2
  | [], last, hlast => by
    unfold readVerifiedAny
    exact Calm.error hlast
  | node :: nodes, last, hlast => by
    have hhere := readVerified_calm hio dva bp i node
    unfold readVerifiedAny
    simp only [Id.run_bind]
    generalize (p.readVerified io dva bp i node).run = tried at hhere
    obtain ⟨attempts, result⟩ := tried
    cases result with
    | ok found => exact Calm.ok _
    | error e =>
      exact readVerifiedAny_calm hio dva bp i nodes _ (hlast.moreTelling (hhere e rfl))

end

/-! ## Gang blocks and blocks -/

theorem pickHeader_calm (bp : BlkPtr) (size : Nat) :
    ∀ (candidates : List RawCandidate) (last : ReadError), last.Calm →
      (∀ c ∈ candidates, Calm c.2) → Calm (p.pickHeader bp size last candidates) := by
  intro candidates
  induction candidates with
  | nil =>
    intro last hlast _
    exact Calm.error hlast
  | cons c rest ih =>
    intro last hlast hall
    obtain ⟨device, read⟩ := c
    have hrest := fun c hc => hall c (List.mem_cons_of_mem _ hc)
    unfold pickHeader
    cases read with
    | error e => exact ih e (hall _ List.mem_cons_self e rfl) hrest
    | ok buf =>
      simp only
      split
      · exact Calm.ok _
      · split
        · exact Calm.ok _
        · exact ih _ (fun _ h => by cases h) hrest

theorem joinChildren_calm {readRaw : BlkPtr → Id (Except ReadError (List UInt8))}
    (hread : ∀ child, Calm (readRaw child).run) :
    ∀ children, Calm (joinChildren readRaw children).run := by
  intro children
  induction children with
  | nil => exact Calm.ok _
  | cons child rest ih =>
    unfold joinChildren
    by_cases hhole : child.isHole
    · rw [if_pos hhole]
      exact ih
    · rw [if_neg hhole]
      simp only [Id.run_bind]
      have hchild := hread child
      generalize (readRaw child).run = raw at hchild
      cases raw with
      | error e => exact Calm.error (hchild e rfl)
      | ok raw => exact ih.map _

theorem readGangWith_calm (hio : io.Calm)
    {readRaw : BlkPtr → Id (Except ReadError (List UInt8))}
    (hread : ∀ child, Calm (readRaw child).run) (dva : Dva) (bp : BlkPtr) :
    Calm (p.readGangWith io readRaw dva bp).run := by
  unfold readGangWith
  simp only [Id.run_bind]
  have hpick := p.pickHeader_calm bp (p.gangHeaderSize bp) _ .noMember (fun _ h => by cases h)
    (p.candidatesOn_calm hio (p.remappedCandidates_calm hio maxDepth) dva.vdev dva.offset
      (p.gangHeaderSize bp))
  generalize p.pickHeader bp (p.gangHeaderSize bp) .noMember _ = header at hpick
  cases header with
  | error e => exact Calm.error (hpick e rfl)
  | ok header =>
    simp only
    cases parseGangHeader header bp.endian with
    | error e => exact Calm.error (fun _ h => by cases h)
    | ok children => exact (joinChildren_calm hread children).map _

theorem readCopy_calm (hio : io.Calm) {gang : Dva → BlkPtr → Id (Except ReadError (List UInt8))}
    (hgang : ∀ dva bp, Calm (gang dva bp).run) (bp : BlkPtr) (dva : Dva) (i : Nat) :
    Calm (p.readCopy io gang bp dva i).run.2 := by
  unfold readCopy
  cases p.locateVdev dva.vdev with
  | none => exact Calm.error (fun _ h => by cases h)
  | some location =>
    simp only
    by_cases hd : dva.gang = true
    · rw [if_pos hd]
      simp only [Id.run_bind]
      have hread := hgang dva bp
      generalize (gang dva bp).run = raw at hread
      cases raw with
      | error e => exact Calm.error (hread e rfl)
      | ok raw => exact accept_calm raw _
    · rw [if_neg hd]
      cases location with
      | top node => exact p.readVerified_calm hio dva bp i node
      | removed mapping => exact p.readVerifiedRemapped_calm hio dva mapping bp i

theorem readCopies_calm (hio : io.Calm) {gang : Dva → BlkPtr → Id (Except ReadError (List UInt8))}
    (hgang : ∀ dva bp, Calm (gang dva bp).run) (bp : BlkPtr) :
    ∀ (dvas : List (Dva × Nat)) (last : ReadError), last.Calm →
      Calm (p.readCopies io gang bp last dvas).run.2 := by
  intro dvas
  induction dvas with
  | nil =>
    intro last hlast
    exact Calm.error hlast
  | cons d rest ih =>
    intro last hlast
    obtain ⟨dva, i⟩ := d
    unfold readCopies
    by_cases hempty : dva.isEmpty
    · rw [if_pos hempty]
      exact ih last hlast
    · rw [if_neg hempty]
      simp only [Id.run_bind]
      have hcopy := p.readCopy_calm hio hgang bp dva i
      generalize (p.readCopy io gang bp dva i).run = tried at hcopy
      obtain ⟨attempts, result⟩ := tried
      cases result with
      | ok found => exact Calm.ok _
      | error e =>
        have he := hcopy e rfl
        apply ih
        unfold lastError
        split
        · exact he
        · exact hlast.moreTelling he

theorem readGang_calm (hio : io.Calm) :
    ∀ depth dva bp, Calm (p.readGang io depth dva bp).run := by
  intro depth
  induction depth with
  | zero =>
    intro dva bp
    exact Calm.error (fun _ h => by cases h)
  | succ depth ih =>
    intro dva bp
    unfold readGang
    apply p.readGangWith_calm hio
    intro child
    exact p.readCopies_calm hio ih child _ _ (fun _ h => by cases h)

/-- No read of a block stops the run. -/
theorem readBlock_calm (hio : io.Calm) (bp : BlkPtr) (allowUnverified : Bool) :
    Calm (p.readBlock io bp allowUnverified).run := by
  unfold readBlock
  by_cases hhole : bp.isHole
  · rw [if_pos hhole]
    exact Calm.error (fun _ h => by cases h)
  · rw [if_neg hhole]
    cases bp.embeddedPayload with
    | some payload =>
      simp only
      cases decompress p.codecs bp.compression payload bp.lsize with
      | error e => exact Calm.error (fun _ h => by cases h)
      | ok data => exact Calm.ok _
    | none =>
      simp only [Id.run_bind, hio.mediumStop]
      have hread := p.readCopies_calm hio (p.readGang_calm hio maxDepth) bp bp.dva.zipIdx
        .noMember (fun _ h => by cases h)
      change Calm (p.conclude bp (p.readRawVerified io (p.readGang io maxDepth) bp).run.1
        (p.readRawVerified io (p.readGang io maxDepth) bp).run.2)
      change Calm (p.readRawVerified io (p.readGang io maxDepth) bp).run.2 at hread
      generalize (p.readRawVerified io (p.readGang io maxDepth) bp).run = tried at hread ⊢
      obtain ⟨attempts, result⟩ := tried
      cases result with
      | ok raw => exact fun e he => (p.finish_settled he).2
      | error e =>
        apply Calm.error
        simp only [failure]
        split
        · intro _ h
          cases h
        · split
          · intro _ h
            cases h
          · exact hread e rfl

end Pool

end Zio
end ZvolRescue
