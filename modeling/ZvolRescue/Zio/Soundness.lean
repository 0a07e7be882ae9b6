import ZvolRescue.Zio.Device

/-!
# What a block read hands out

No path hands out bytes that failed their checksum, on any devices.  The paths differ on
bytes whose checksum this build cannot evaluate: leaves, mirrors, removed vdevs and gangs
refuse them, `readStriped` takes them.  So a read is sound exactly if the checksum can be
evaluated or no copy on a RAID-Z or dRAID can be put together (`readBlock_sound_iff`).
-/

namespace ZvolRescue
namespace Zio

open Lib Ondisk

/-- What the claim of a block read is: the bytes that were decompressed carry a checksum
that verified, or none. -/
def Sound {ω : Type} (r : Reader ω) (bp : BlkPtr) (allowUnverified : Bool)
    (s : ReaderState ω) : Prop :=
  ∀ block, (r.readBlock bp allowUnverified s).1 = .ok block →
    ∃ raw, (r.pool.readRawVerified r.io (r.pool.readGang r.io Pool.maxDepth) bp s).1.2 = .ok raw ∧
      decompress r.pool.codecs bp.compression raw bp.lsize = .ok block.data ∧
      (r.pool.verdict bp raw = .ok ∨ r.pool.verdict bp raw = .notChecked)

namespace Pool

variable (p : Pool)

/-! ## No path takes a mismatch -/

/-- If the copy was handed out, its verdict is the checksum's, and not a mismatch. -/
def NotRefuted (bp : BlkPtr) (result : Except ReadError (List UInt8 × Verify)) : Prop :=
  ∀ raw v, result = .ok (raw, v) → v = p.verdict bp raw ∧ v ≠ .mismatch

theorem notRefuted_error (bp : BlkPtr) (e : ReadError) : p.NotRefuted bp (.error e) := by
  intro raw v h
  cases h

theorem notRefuted_accept (bp : BlkPtr) (raw : List UInt8) :
    p.NotRefuted bp (accept raw (p.verdict bp raw)) := by
  intro raw' v h
  cases hv : p.verdict bp raw with
  | ok => rw [hv] at h; cases h; exact ⟨hv.symm, by simp⟩
  | notChecked => rw [hv] at h; cases h; exact ⟨hv.symm, by simp⟩
  | mismatch => rw [hv] at h; cases h
  | unsupported => rw [hv] at h; cases h

section Stateful

variable {σ : Type} {io : Io (StateM σ)}

/-- No invariant at all. -/
abbrev Anywhere : σ → Prop := fun _ => True

theorem verify_keeps (bp : BlkPtr) (raw : List UInt8) :
    Keeps Anywhere (p.verify io bp raw) (fun v => v = p.verdict bp raw) := by
  unfold verify
  by_cases h : p.verdict bp raw = .mismatch
  · rw [if_pos h]
    apply Keeps.bind Keeps.anything
    intro _ _
    exact Keeps.pure h.symm
  · rw [if_neg h]
    exact Keeps.pure rfl

theorem tryTrials_keeps (bp : BlkPtr) (rows : List Columns) (r : Nat)
    (data : List (List UInt8)) (ts : List Trial) :
    Keeps Anywhere (p.tryTrials io bp rows r data ts)
      (fun found => ∀ raw v, found = some (raw, v) → v = p.verdict bp raw ∧ v ≠ .mismatch) := by
  induction ts with
  | nil =>
    apply Keeps.pure
    intro raw v h
    cases h
  | cons t ts ih =>
    unfold tryTrials
    cases Raidz.reconstruct data t.usable t.missing with
    | error e => exact ih
    | ok rebuilt =>
      apply Keeps.bind (p.verify_keeps bp _)
      intro v hv
      by_cases hm : v ≠ .mismatch
      · rw [if_pos hm]
        apply Keeps.pure
        intro raw w h
        cases h
        exact ⟨hv, hm⟩
      · rw [if_neg hm]
        exact ih

theorem search_keeps (bp : BlkPtr) (rows : List Columns) (rs : List (Columns × Nat)) :
    Keeps Anywhere (p.search io bp rows rs)
      (fun found => ∀ raw v, found = some (raw, v) → v = p.verdict bp raw ∧ v ≠ .mismatch) := by
  induction rs with
  | nil =>
    apply Keeps.pure
    intro raw v h
    cases h
  | cons row rs ih =>
    unfold search
    apply Keeps.bind (p.tryTrials_keeps bp rows _ _ _)
    intro found h
    cases found with
    | none => exact ih
    | some found => exact Keeps.pure h

theorem readStriped_keeps (node : Node) (dva : Dva) (bp : BlkPtr) (i : Nat) :
    Keeps Anywhere (p.readStriped io node dva bp i) (fun t => p.NotRefuted bp t.2) := by
  unfold readStriped
  apply Keeps.bind Keeps.anything
  intro rows _
  apply Keeps.bind Keeps.anything
  intro rebuilt _
  cases rebuilt with
  | error e => exact Keeps.pure (p.notRefuted_error bp e.2)
  | ok rows =>
    apply Keeps.bind (p.verify_keeps bp _)
    intro v hv
    by_cases hm : v ≠ .mismatch
    · rw [if_pos hm]
      apply Keeps.pure
      intro raw w h
      cases h
      exact ⟨hv, hm⟩
    · rw [if_neg hm]
      apply Keeps.bind Keeps.anything
      intro rows _
      apply Keeps.bind (p.search_keeps bp rows _)
      intro found h
      cases found with
      | none => exact Keeps.pure (p.notRefuted_error bp _)
      | some found =>
        apply Keeps.pure
        intro raw w heq
        cases heq
        exact h _ _ rfl

theorem readVerifiedLeaf_keeps (device : Option Nat) (dva : Dva) (bp : BlkPtr) (i : Nat) :
    Keeps Anywhere (p.readVerifiedLeaf io device dva bp i) (fun t => p.NotRefuted bp t.2) := by
  unfold readVerifiedLeaf
  apply Keeps.bind Keeps.anything
  intro read _
  cases read with
  | error e => exact Keeps.pure (p.notRefuted_error bp e)
  | ok raw =>
    apply Keeps.bind (p.verify_keeps bp raw)
    intro v hv
    apply Keeps.pure
    rw [hv]
    exact p.notRefuted_accept bp raw

mutual

theorem readVerified_keeps (dva : Dva) (bp : BlkPtr) (i : Nat) :
    ∀ node : Node,
      Keeps Anywhere (p.readVerified io dva bp i node) (fun t => p.NotRefuted bp t.2)
  | .leaf device guid => by
    unfold readVerified
    exact p.readVerifiedLeaf_keeps device dva bp i
  | .mirror children => by
    unfold readVerified
    exact readVerifiedAny_keeps dva bp i .noMember children
  | .raidz nparity ashift children => by
    unfold readVerified
    exact p.readStriped_keeps _ dva bp i
  | .draid cfg ashift children => by
    unfold readVerified
    exact p.readStriped_keeps _ dva bp i
  | .dspare spareId => by
    unfold readVerified
    exact Keeps.pure (p.notRefuted_error bp _)
  | .unsupported kind => by
    unfold readVerified
    exact Keeps.pure (p.notRefuted_error bp _)

theorem readVerifiedAny_keeps (dva : Dva) (bp : BlkPtr) (i : Nat) (last : ReadError) :
    ∀ nodes : List Node,
      Keeps Anywhere (p.readVerifiedAny io dva bp i last nodes) (fun t => p.NotRefuted bp t.2)
  | [] => by
    unfold readVerifiedAny
    exact Keeps.pure (p.notRefuted_error bp last)
  | node :: nodes => by
    unfold readVerifiedAny
    apply Keeps.bind (readVerified_keeps dva bp i node)
    intro tried h
    obtain ⟨attempts, result⟩ := tried
    cases result with
    | ok found => exact Keeps.pure h
    | error e =>
      apply Keeps.bind (readVerifiedAny_keeps dva bp i (last.moreTelling e) nodes)
      intro more hmore
      exact Keeps.pure hmore

end

theorem firstVerified_keeps (dva : Dva) (bp : BlkPtr) (i : Nat) (candidates : List RawCandidate) :
    ∀ last, Keeps Anywhere (p.firstVerified io dva bp i last candidates)
      (fun t => p.NotRefuted bp t.2) := by
  induction candidates with
  | nil =>
    intro last
    exact Keeps.pure (p.notRefuted_error bp last)
  | cons c rest ih =>
    intro last
    obtain ⟨device, read⟩ := c
    unfold firstVerified
    cases read with
    | error e =>
      apply Keeps.bind (ih e)
      intro more hmore
      exact Keeps.pure hmore
    | ok raw =>
      apply Keeps.bind (p.verify_keeps bp raw)
      intro v hv
      have hacc := p.notRefuted_accept bp raw
      rw [← hv] at hacc
      dsimp only
      cases ha : accept raw v with
      | ok found =>
        apply Keeps.pure
        rw [← ha]
        exact hacc
      | error e =>
        apply Keeps.bind (ih e)
        intro more hmore
        exact Keeps.pure hmore

section Copies

variable {gang : Dva → BlkPtr → StateM σ (Except ReadError (List UInt8))}

theorem readCopy_keeps (bp : BlkPtr) (dva : Dva) (i : Nat) :
    Keeps Anywhere (p.readCopy io gang bp dva i) (fun t => p.NotRefuted bp t.2) := by
  unfold readCopy
  cases p.locateVdev dva.vdev with
  | none => exact Keeps.pure (p.notRefuted_error bp _)
  | some location =>
    show Keeps Anywhere (if dva.gang then _ else _) _
    by_cases hd : dva.gang
    · rw [if_pos hd]
      apply Keeps.bind Keeps.anything
      intro raw _
      cases raw with
      | error e => exact Keeps.pure (p.notRefuted_error bp e)
      | ok raw =>
        apply Keeps.bind (p.verify_keeps bp raw)
        intro v hv
        apply Keeps.pure
        rw [hv]
        exact p.notRefuted_accept bp raw
    · rw [if_neg hd]
      cases location with
      | top node => exact p.readVerified_keeps dva bp i node
      | removed mapping =>
        show Keeps Anywhere (p.readVerifiedRemapped io dva mapping bp i) _
        unfold readVerifiedRemapped
        apply Keeps.bind Keeps.anything
        intro candidates _
        exact p.firstVerified_keeps dva bp i candidates .noMember

/-- On any devices, a read never hands out bytes that fail their checksum. -/
theorem readCopies_keeps (bp : BlkPtr) (dvas : List (Dva × Nat)) :
    ∀ last, Keeps Anywhere (p.readCopies io gang bp last dvas)
      (fun t => ∀ raw, t.2 = .ok raw → p.verdict bp raw ≠ .mismatch) := by
  induction dvas with
  | nil =>
    intro last
    apply Keeps.pure
    intro raw h
    cases h
  | cons d rest ih =>
    intro last
    obtain ⟨dva, i⟩ := d
    unfold readCopies
    by_cases he : dva.isEmpty
    · rw [if_pos he]
      exact ih last
    · rw [if_neg he]
      apply Keeps.bind (p.readCopy_keeps bp dva i)
      intro tried h
      obtain ⟨attempts, result⟩ := tried
      cases result with
      | ok found =>
        obtain ⟨raw, v⟩ := found
        apply Keeps.pure
        intro raw' heq
        cases heq
        have hv := h raw v rfl
        rw [← hv.1]
        exact hv.2
      | error e =>
        apply Keeps.bind (ih (p.lastError dva last e))
        intro more hmore
        exact Keeps.pure hmore

end Copies

/-- What `readBlock` does with the outcome of `readRawVerified`. -/
theorem readBlock_run {bp : BlkPtr} (hhole : bp.isHole = false) (hembedded : bp.embedded = false)
    (allowUnverified : Bool) (s : σ) {attempts : List Attempt}
    {raw : Except ReadError (List UInt8)} {s' : σ}
    (h : p.readRawVerified io (p.readGang io maxDepth) bp s = ((attempts, raw), s')) :
    (p.readBlock io bp allowUnverified s).1 =
      match (io.mediumStop s').1 with
      | some stop => .error stop
      | none => p.conclude bp attempts raw := by
  have hpayload : bp.embeddedPayload = none := by
    unfold BlkPtr.embeddedPayload
    rw [hembedded]
    rfl
  unfold readBlock
  rw [if_neg (by simp [hhole]), hpayload]
  show ((p.readRawVerified io (p.readGang io maxDepth) bp >>= _) s).1 = _
  rw [bind_run, h]
  show ((io.mediumStop >>= _) s').1 = _
  rw [bind_run]
  cases (io.mediumStop s').1 with
  | some stop => rfl
  | none => rfl

theorem finish_ok {bp : BlkPtr} (hcrypt : bp.isEncrypted = false) {attempts : List Attempt}
    {raw : List UInt8} {block : Block} (h : p.finish bp attempts raw = .ok block) :
    decompress p.codecs bp.compression raw bp.lsize = .ok block.data := by
  unfold finish at h
  simp only [hcrypt, Bool.false_eq_true, if_false] at h
  cases hd : decompress p.codecs bp.compression raw bp.lsize with
  | error e => rw [hd] at h; cases h
  | ok data => rw [hd] at h; cases h; rfl

theorem finish_of_decompress {bp : BlkPtr} (hcrypt : bp.isEncrypted = false)
    (attempts : List Attempt) {raw data : List UInt8}
    (h : decompress p.codecs bp.compression raw bp.lsize = .ok data) :
    ∃ block, p.finish bp attempts raw = .ok block := by
  unfold finish
  simp only [hcrypt, Bool.false_eq_true, if_false, h]
  exact ⟨_, rfl⟩

end Stateful

end Pool

/-! ## Checksums that cannot be evaluated -/

namespace Pool

variable (p : Pool)

/-- The bytes of a striped copy as first put together: the columns that read, and the lost
ones from parity. -/
def stripedBytes (io : Io Id) (node : Node) (offset psize : Nat) : Option (List UInt8) :=
  match (rebuildRows node.cfg (childrenOf io node.children)
      (readRows node (childrenOf io node.children) offset psize).run).run with
  | .error _ => none
  | .ok rows => some (assemble psize rows)

mutual

/-- The first striped copy under a vdev that can be put together. -/
def firstStriped (io : Io Id) (offset psize : Nat) : Node → Option (List UInt8)
  | .mirror children => firstStripedOf io offset psize children
  | .raidz nparity ashift children => stripedBytes io (.raidz nparity ashift children) offset psize
  | .draid cfg ashift children => stripedBytes io (.draid cfg ashift children) offset psize
  | .leaf _ _ | .dspare _ | .unsupported _ => none

def firstStripedOf (io : Io Id) (offset psize : Nat) : List Node → Option (List UInt8)
  | [] => none
  | node :: nodes => (firstStriped io offset psize node).or (firstStripedOf io offset psize nodes)

end

/-- The striped copy behind a DVA, if it can be put together. -/
def stripedCopyAt (io : Io Id) (psize : Nat) (dva : Dva) : Option (List UInt8) :=
  if dva.isEmpty then none
  else match p.locateVdev dva.vdev with
    | some (.top node) => firstStriped io dva.offset psize node
    | _ => none

/-- The first striped copy of a block that can be put together. -/
def stripedCopy (io : Io Id) (bp : BlkPtr) : Option (List UInt8) :=
  if bp.isHole then none else bp.dva.findSome? (p.stripedCopyAt io bp.psize)

section Pure

/-- The checksum of the block cannot be evaluated. -/
def Unevaluable (bp : BlkPtr) : Prop := ∀ raw, p.verdict bp raw = .unsupported

variable {io : Io Id} {bp : BlkPtr}

theorem verify_run (io : Io Id) (bp : BlkPtr) (raw : List UInt8) :
    (p.verify io bp raw).run = p.verdict bp raw := by
  unfold verify
  by_cases h : p.verdict bp raw = .mismatch
  · rw [if_pos h, h]
    rfl
  · rw [if_neg h]
    rfl

theorem verify_unsupported (io : Io Id) (huns : p.Unevaluable bp) (raw : List UInt8) :
    (p.verify io bp raw).run = .unsupported := by
  rw [p.verify_run, huns raw]

theorem readStriped_unsupported (huns : p.Unevaluable bp) (node : Node) (dva : Dva) (i : Nat) :
    (p.readStriped io node dva bp i).run.2.toOption =
      (stripedBytes io node dva.offset bp.psize).map (fun raw => (raw, .unsupported)) := by
  unfold readStriped stripedBytes
  simp only [Id.run_bind]
  cases (rebuildRows node.cfg (childrenOf io node.children)
      (readRows node (childrenOf io node.children) dva.offset bp.psize).run).run with
  | error e => rfl
  | ok rows =>
    simp only [Id.run_bind]
    have hv := p.verify_unsupported io huns (assemble bp.psize rows)
    rw [hv, if_pos (by simp)]
    rfl

theorem readVerifiedLeaf_unsupported (huns : p.Unevaluable bp) (device : Option Nat) (dva : Dva) (i : Nat) :
    (p.readVerifiedLeaf io device dva bp i).run.2.toOption = none := by
  unfold readVerifiedLeaf
  simp only [Id.run_bind]
  cases (io.readLeaf device dva.offset bp.psize).run with
  | error e => rfl
  | ok raw =>
    show (accept raw (p.verify io bp raw).run).toOption = none
    rw [p.verify_unsupported io huns]
    rfl

mutual

theorem readVerified_unsupported (huns : p.Unevaluable bp) (dva : Dva) (i : Nat) :
    ∀ node : Node, (p.readVerified io dva bp i node).run.2.toOption =
      (firstStriped io dva.offset bp.psize node).map (fun raw => (raw, .unsupported))
  | .leaf device guid => by
    unfold readVerified firstStriped
    exact p.readVerifiedLeaf_unsupported huns device dva i
  | .mirror children => by
    unfold readVerified firstStriped
    exact readVerifiedAny_unsupported huns dva i .noMember children
  | .raidz nparity ashift children => by
    unfold readVerified firstStriped
    exact p.readStriped_unsupported huns _ dva i
  | .draid cfg ashift children => by
    unfold readVerified firstStriped
    exact p.readStriped_unsupported huns _ dva i
  | .dspare spareId => by
    unfold readVerified firstStriped
    rfl
  | .unsupported kind => by
    unfold readVerified firstStriped
    rfl

theorem readVerifiedAny_unsupported (huns : p.Unevaluable bp) (dva : Dva) (i : Nat) (last : ReadError) :
    ∀ nodes : List Node, (p.readVerifiedAny io dva bp i last nodes).run.2.toOption =
      (firstStripedOf io dva.offset bp.psize nodes).map (fun raw => (raw, .unsupported))
  | [] => by
    unfold readVerifiedAny firstStripedOf
    rfl
  | node :: nodes => by
    have hnode := readVerified_unsupported huns dva i node
    unfold readVerifiedAny firstStripedOf
    show (Id.run (α := Tried) (match (p.readVerified io dva bp i node).run with
      | (attempts, .ok found) => _
      | (attempts, .error e) => _)).2.toOption = _
    generalize (p.readVerified io dva bp i node).run = tried at hnode ⊢
    obtain ⟨attempts, result⟩ := tried
    cases result with
    | ok found =>
      cases hf : firstStriped io dva.offset bp.psize node with
      | none => rw [hf] at hnode; cases hnode
      | some raw => rw [hf] at hnode; exact hnode
    | error e =>
      cases hf : firstStriped io dva.offset bp.psize node with
      | none => exact readVerifiedAny_unsupported huns dva i (last.moreTelling e) nodes
      | some raw => rw [hf] at hnode; cases hnode

end

theorem firstVerified_unsupported (huns : p.Unevaluable bp) (dva : Dva) (i : Nat) (candidates : List RawCandidate) :
    ∀ last, (p.firstVerified io dva bp i last candidates).run.2.toOption = none := by
  induction candidates with
  | nil =>
    intro last
    rfl
  | cons c rest ih =>
    intro last
    obtain ⟨device, read⟩ := c
    unfold firstVerified
    cases read with
    | error e => exact ih e
    | ok raw =>
      simp only [Id.run_bind]
      rw [p.verify_unsupported io huns]
      exact ih .checksumUnsupported

theorem readCopies_unsupported (io : Io Id) (huns : p.Unevaluable bp)
    (gang : Dva → BlkPtr → Id (Except ReadError (List UInt8)))
    (dvas : List (Dva × Nat)) (hgang : ∀ d ∈ dvas, d.1.gang = false) :
    ∀ last, (p.readCopies io gang bp last dvas).run.2.toOption =
      (dvas.map Prod.fst).findSome? (p.stripedCopyAt io bp.psize) := by
  induction dvas with
  | nil =>
    intro last
    rfl
  | cons d rest ih =>
    intro last
    obtain ⟨dva, i⟩ := d
    have ih' := ih (fun d hd => hgang d (List.mem_cons_of_mem _ hd))
    rw [List.map_cons, List.findSome?_cons]
    rw [readCopies]
    by_cases he : dva.isEmpty
    · rw [if_pos he, stripedCopyAt, if_pos he]
      exact ih' last
    · rw [if_neg he]
      have hcopy : (p.readCopy io gang bp dva i).run.2.toOption =
          (p.stripedCopyAt io bp.psize dva).map (fun raw => (raw, .unsupported)) := by
        rw [readCopy, stripedCopyAt, if_neg he]
        cases p.locateVdev dva.vdev with
        | none => rfl
        | some location =>
          show (Id.run (α := Tried) (if dva.gang then _ else _)).2.toOption = _
          have hg : dva.gang = false := hgang _ List.mem_cons_self
          rw [if_neg (by simp [hg])]
          cases location with
          | top node => exact p.readVerified_unsupported huns dva i node
          | removed mapping => exact p.firstVerified_unsupported huns dva i _ .noMember
      simp only [Id.run_bind]
      generalize (p.readCopy io gang bp dva i).run = tried at hcopy ⊢
      generalize p.stripedCopyAt io bp.psize dva = striped at hcopy ⊢
      obtain ⟨attempts, result⟩ := tried
      cases result with
      | ok found =>
        obtain ⟨raw, v⟩ := found
        cases striped with
        | none => cases hcopy
        | some raw' => cases hcopy; rfl
      | error e =>
        cases striped with
        | none => exact ih' (p.lastError dva last e)
        | some raw' => cases hcopy

end Pure

end Pool

/-! ## Checksums that can be evaluated -/

section Reader

variable {ω : Type} (r : Reader ω)

/-- A block that was read came out of bytes that were handed out. -/
theorem readBlock_ok {bp : BlkPtr} (hembedded : bp.embedded = false)
    (hcrypt : bp.isEncrypted = false) {allowUnverified : Bool} {s : ReaderState ω} {block : Block}
    (h : (r.readBlock bp allowUnverified s).1 = .ok block) :
    ∃ raw, (r.pool.readRawVerified r.io (r.pool.readGang r.io Pool.maxDepth) bp s).1.2 = .ok raw ∧
      decompress r.pool.codecs bp.compression raw bp.lsize = .ok block.data := by
  cases hhole : bp.isHole with
  | true =>
    unfold Reader.readBlock Pool.readBlock at h
    rw [if_pos hhole] at h
    cases h
  | false =>
    cases hraw : r.pool.readRawVerified r.io (r.pool.readGang r.io Pool.maxDepth) bp s with
    | mk tried s' =>
      obtain ⟨attempts, raw⟩ := tried
      have hrun := r.pool.readBlock_run hhole hembedded allowUnverified s hraw
      unfold Reader.readBlock at h
      rw [hrun] at h
      cases hstop : (r.io.mediumStop s').1 with
      | some stop => rw [hstop] at h; cases h
      | none =>
        rw [hstop] at h
        cases raw with
        | error e => cases h
        | ok raw => exact ⟨raw, rfl, r.pool.finish_ok hcrypt h⟩

/-- Where the checksum can be evaluated a read is sound, whatever the devices do. -/
theorem sound_of_evaluable {bp : BlkPtr} (hembedded : bp.embedded = false)
    (hcrypt : bp.isEncrypted = false) (hev : bp.checksum.evaluable r.pool.salt = true)
    (allowUnverified : Bool) (s : ReaderState ω) : Sound r bp allowUnverified s := by
  intro block h
  obtain ⟨raw, hraw, hdata⟩ := readBlock_ok r hembedded hcrypt h
  refine ⟨raw, hraw, hdata, ?_⟩
  have hmis : r.pool.verdict bp raw ≠ .mismatch :=
    (r.pool.readCopies_keeps bp bp.dva.zipIdx .noMember s True.intro).1 raw hraw
  have huns : r.pool.verdict bp raw ≠ .unsupported := by
    intro hv
    have hne := (verifyBlock_eq_unsupported_iff _ _ _ _ _ _ _).mp hv
    rw [hev] at hne
    cases hne
  cases hv : r.pool.verdict bp raw with
  | ok => exact Or.inl rfl
  | notChecked => exact Or.inr rfl
  | mismatch => exact absurd hv hmis
  | unsupported => exact absurd hv huns

theorem unevaluable {bp : BlkPtr} (hev : bp.checksum.evaluable r.pool.salt = false) :
    r.pool.Unevaluable bp := by
  intro raw
  exact (verifyBlock_eq_unsupported_iff _ _ _ _ _ _ _).mpr hev

/-- Over steady devices, what is handed out without a verdict is the first striped copy. -/
theorem readRaw_unevaluable {D : Contents} (hr : Steady r D) {s : ReaderState ω}
    (hs : Quiet D s) {bp : BlkPtr} (hgang : ∀ d ∈ bp.dva, d.gang = false)
    (hhole : bp.isHole = false) (hev : bp.checksum.evaluable r.pool.salt = false) :
    (r.pool.readRawVerified r.io (r.pool.readGang r.io Pool.maxDepth) bp s).1.2.toOption =
      r.pool.stripedCopy (D.io r) bp := by
  have hgang' : ∀ d ∈ bp.dva.zipIdx, d.1.gang = false := by
    intro d hd
    exact hgang d.1 (List.fst_mem_of_mem_zipIdx hd)
  have hpure := r.pool.readCopies_unsupported (D.io r) (unevaluable r hev)
    (r.pool.readGang (D.io r) Pool.maxDepth) bp.dva.zipIdx hgang' .noMember
  rw [(r.pool.readRawVerified_refines hr.io_refines bp).run hs]
  unfold Pool.stripedCopy
  rw [if_neg (by simp [hhole])]
  show (r.pool.readCopies (D.io r) (r.pool.readGang (D.io r) Pool.maxDepth) bp .noMember
    bp.dva.zipIdx).run.2.toOption = _
  rw [hpure, List.zipIdx_map_fst]

/-- A striped copy that can be put together is handed out without a verdict. -/
theorem not_sound_of_stripedCopy {D : Contents} (hr : Steady r D) {s : ReaderState ω}
    (hs : Quiet D s) {bp : BlkPtr} (allowUnverified : Bool) (hembedded : bp.embedded = false)
    (hcrypt : bp.isEncrypted = false) (hgang : ∀ d ∈ bp.dva, d.gang = false)
    (hev : bp.checksum.evaluable r.pool.salt = false) {raw data : List UInt8}
    (hraw : r.pool.stripedCopy (D.io r) bp = some raw)
    (hdata : decompress r.pool.codecs bp.compression raw bp.lsize = .ok data) :
    ¬ Sound r bp allowUnverified s := by
  intro hsound
  have hhole : bp.isHole = false := by
    cases hh : bp.isHole with
    | false => rfl
    | true =>
      unfold Pool.stripedCopy at hraw
      rw [if_pos hh] at hraw
      cases hraw
  have hread := readRaw_unevaluable r hr hs hgang hhole hev
  have hquiet := (r.pool.readRawVerified_refines hr.io_refines bp s hs).2
  cases hrun : r.pool.readRawVerified r.io (r.pool.readGang r.io Pool.maxDepth) bp s with
  | mk tried s' =>
    obtain ⟨attempts, result⟩ := tried
    rw [hrun] at hread hquiet
    rw [hraw] at hread
    have hresult : result = .ok raw := by
      cases result with
      | error e => cases hread
      | ok raw' => cases hread; rfl
    obtain ⟨block, hblock⟩ := r.pool.finish_of_decompress hcrypt attempts hdata
    have hok : (r.readBlock bp allowUnverified s).1 = .ok block := by
      unfold Reader.readBlock
      rw [r.pool.readBlock_run hhole hembedded allowUnverified s hrun]
      show (match s'.mediumStop with
        | some stop => _
        | none => _) = _
      rw [hquiet.running, hresult]
      exact hblock
    obtain ⟨raw', -, -, hverdict⟩ := hsound block hok
    rw [unevaluable r hev raw'] at hverdict
    cases hverdict with
    | inl h => cases h
    | inr h => cases h

/-- A read of a plain block is sound, on any devices, if the checksum of the pointer can be
evaluated.  Where the devices are steady it is sound exactly then, or if no striped copy of
the block can be put together into bytes that decompress. -/
theorem readBlock_sound_iff (bp : BlkPtr) (allowUnverified : Bool)
    (hembedded : bp.embedded = false) (hcrypt : bp.isEncrypted = false)
    (hgang : ∀ d ∈ bp.dva, d.gang = false) :
    (bp.checksum.evaluable r.pool.salt = true → ∀ s, Sound r bp allowUnverified s) ∧
    ∀ D, Steady r D → ∀ s, Quiet D s →
      (Sound r bp allowUnverified s ↔
        bp.checksum.evaluable r.pool.salt = true ∨
          ∀ raw, r.pool.stripedCopy (D.io r) bp = some raw →
            ∀ data, decompress r.pool.codecs bp.compression raw bp.lsize ≠ .ok data) := by
  refine ⟨fun hev s => sound_of_evaluable r hembedded hcrypt hev allowUnverified s, ?_⟩
  intro D hr s hs
  cases hev : bp.checksum.evaluable r.pool.salt with
  | true => exact ⟨fun _ => Or.inl rfl, fun _ => sound_of_evaluable r hembedded hcrypt hev _ s⟩
  | false =>
    constructor
    · intro hsound
      apply Or.inr
      intro raw hraw data hdata
      exact not_sound_of_stripedCopy r hr hs allowUnverified hembedded hcrypt hgang hev hraw hdata
        hsound
    · intro hcond block hblock
      have hcond := hcond.resolve_left (by simp)
      obtain ⟨raw, hraw, hdata⟩ := readBlock_ok r hembedded hcrypt hblock
      have hhole : bp.isHole = false := by
        cases hh : bp.isHole with
        | false => rfl
        | true =>
          unfold Reader.readBlock Pool.readBlock at hblock
          rw [if_pos hh] at hblock
          cases hblock
      have hread := readRaw_unevaluable r hr hs hgang hhole hev
      rw [hraw] at hread
      exact absurd hdata (hcond raw hread.symm block.data)

end Reader

/-! ## A RAID-Z whose salt is not known -/

/-- A device that holds one byte everywhere. -/
def filledWith (b : UInt8) : BlockSource Unit where
  readAt := fun _ size w => (.ok (List.replicate size b), w)
  length_of_readAt := by
    intro offset size w bytes h
    cases h
    exact List.length_replicate

def noHashes : Hashes :=
  { sha256 := fun _ => [], sha512_256 := fun _ => [], blake3 := fun _ _ => []
    skein := fun _ _ => [], edonr := fun _ _ => [] }

def noCodecs : Codecs :=
  { lz4Block := fun _ _ => none, zlib := fun _ _ => none
    zstdHeader := fun _ => false, zstdFrame := fun _ _ => none }

/-- A pool of one vdev, whose salt was not found. -/
def barePool (node : Node) : Pool :=
  { tops := [(0, node)]
    topAshift := [(0, 9)]
    dynamicGang := false
    salt := none
    keys := none
    removed := []
    hashes := noHashes
    codecs := noCodecs }

/-- A single-parity RAID-Z of two blank devices. -/
def blankReader : Reader Unit :=
  { devices := [some (filledWith 0), some (filledWith 0)]
    bases := [0, 0]
    pool := barePool (.raidz 1 9 [.leaf (some 0) 1, .leaf (some 1) 2]) }

/-- A pointer to one sector, with a checksum that needs the salt. -/
def saltedPointer : BlkPtr :=
  { dva0 := { vdev := 0, offset := 4096, asize := 1024, gang := false }
    dva1 := Dva.empty
    dva2 := Dva.empty
    lsize := 512
    psize := 512
    compression := .off
    checksum := .blake3
    objectType := 23
    level := 0
    endian := .little
    encrypted := false
    embedded := false
    physicalBirth := 0
    birth := 7
    cksum := { w0 := 1, w1 := 2, w2 := 3, w3 := 4 }
    raw := [] }

def blankContents : Contents := fun _ _ size => .ok (List.replicate size 0)

def startState : ReaderState Unit :=
  { world := (), reads := [0, 0], mediumStop := none, cache := ReadCache.empty, mismatches := 0 }

theorem blankReader_steady : Steady blankReader blankContents where
  answer := by
    intro index dev hdev offset size w
    match index, hdev with
    | 0, hdev => cases hdev; rfl
    | 1, hdev => cases hdev; rfl
    | _ + 2, hdev => cases hdev
  goesOn := by
    intro index offset size e h
    cases h

theorem startState_quiet (D : Contents) : Quiet D startState where
  running := rfl
  cached := by
    intro index at_ size b h
    cases h

theorem saltedPointer_noGang : ∀ d ∈ saltedPointer.dva, d.gang = false := by decide

theorem readBlock_sound_iff_blank :
    Sound blankReader saltedPointer false startState ↔
      saltedPointer.checksum.evaluable none = true ∨
        ∀ raw, blankReader.pool.stripedCopy (blankContents.io blankReader) saltedPointer = some raw →
          ∀ data, decompress blankReader.pool.codecs .off raw 512 ≠ .ok data :=
  (readBlock_sound_iff blankReader saltedPointer false rfl rfl saltedPointer_noGang).2
    blankContents blankReader_steady startState (startState_quiet _)

/-- Not every read is sound: the sector of the RAID-Z is handed out unverified. -/
theorem readBlock_unverified :
    ¬ ∀ (ω : Type) (r : Reader ω) (bp : BlkPtr) (allowUnverified : Bool) (s : ReaderState ω),
      bp.embedded = false → bp.isEncrypted = false → (∀ d ∈ bp.dva, d.gang = false) →
        Sound r bp allowUnverified s := by
  intro h
  have hraw : blankReader.pool.stripedCopy (blankContents.io blankReader) saltedPointer =
      some (List.replicate 512 0) := by decide +kernel
  exact not_sound_of_stripedCopy blankReader blankReader_steady (startState_quiet _) false rfl rfl
    saltedPointer_noGang rfl hraw rfl
    (h Unit blankReader saltedPointer false startState rfl rfl saltedPointer_noGang)

end Zio
end ZvolRescue
