import ZvolRescue.Lib.Ranked
import ZvolRescue.Source.Sectors
import ZvolRescue.Zio.Gang
import ZvolRescue.Zio.Salvage

/-!
# Copies on disks and mirrors

On a disk or a mirror every leaf below the vdev of a DVA has a copy of the block.  Which error the
read of a block fails with is told by the reads of its copies: an i/o error only where no copy
reads and one fails (`Copied.readBlock_io`, `Copied.readBlock_settled`).
-/

namespace ZvolRescue
namespace Zio

open Lib Ondisk Source

/-! ## The copies of a block -/

/-- A copy of a block: the DVA, and the device of the leaf. -/
abbrev Side := Dva × Option Nat

namespace Pool

variable (p : Pool)

/-- The leaves that hold the copies of a DVA. -/
def sidesOf (dva : Dva) : List (Option Nat) :=
  match p.locateVdev dva.vdev with
  | some (.top node) => node.leavesOf.getD []
  | _ => []

/-- The copies of a block in the order in which they are read. -/
def copiesOf (bp : BlkPtr) : List Side :=
  bp.dvas.flatMap (fun dva => (p.sidesOf dva).map (fun device => (dva, device)))

/-- The DVA is on a disk or a mirror, and not of a gang. -/
structure Mirrored (dva : Dva) : Prop where
  plain : dva.gang = false
  leaves : ∃ node leaves, p.locateVdev dva.vdev = some (.top node) ∧ node.leavesOf = some leaves

end Pool

/-! ## The verdicts of a failed read -/

/-- The verdicts on the copies that were read. -/
def verdicts (attempts : List Attempt) : List Verify :=
  attempts.filterMap (fun a => a.result.toOption)

theorem verdicts_append (attempts attempts' : List Attempt) :
    verdicts (attempts ++ attempts') = verdicts attempts ++ verdicts attempts' :=
  List.filterMap_append

namespace ReadError

/-- The errors of an image: it is not there, or it does not serve the read. -/
def Plain (e : ReadError) : Prop := e = .noMember ∨ ∃ text, e = .io text

theorem Plain.moreTelling {a b : ReadError} (ha : a.Plain) (hb : b.Plain) :
    (a.moreTelling b).Plain := by
  rcases ha with rfl | ⟨text, rfl⟩ <;> rcases hb with rfl | ⟨text', rfl⟩
  · exact Or.inl rfl
  · exact Or.inr ⟨_, rfl⟩
  · exact Or.inr ⟨_, rfl⟩
  · exact Or.inr ⟨_, rfl⟩

/-- Of a copy that is not there and one that fails the failure is told. -/
theorem io_of_moreTelling {a b : ReadError} (ha : a.Plain) (hb : b.Plain)
    (h : (∃ text, a = .io text) ∨ ∃ text, b = .io text) : ∃ text, a.moreTelling b = .io text := by
  rcases ha with rfl | ⟨text, rfl⟩ <;> rcases hb with rfl | ⟨text', rfl⟩
  · rcases h with ⟨text, h⟩ | ⟨text, h⟩ <;> cases h
  · exact ⟨_, rfl⟩
  · exact ⟨_, rfl⟩
  · exact ⟨_, rfl⟩

/-- An error that does not stop the run. -/
def Calm (e : ReadError) : Prop := ∀ text, e ≠ .medium true text

/-- An error that neither asks for a salvage nor stops the run. -/
def Settled (e : ReadError) : Prop := (∀ text, e ≠ .io text) ∧ e.Calm

end ReadError

/-- What leaf reads give. -/
abbrev LeafReads := List (Except ReadError (List UInt8))

/-- What the attempts and the error of a read that failed say of the leaf reads so far. -/
structure Judged (verdict : List UInt8 → Verify) (reads : LeafReads) (attempts : List Attempt)
    (last : ReadError) : Prop where
  /-- Whatever was read has been judged, and was not taken. -/
  judged : ∀ raw, .ok raw ∈ reads → verdict raw ∈ verdicts attempts
  rejected : ∀ v ∈ verdicts attempts, v = .mismatch ∨ v = .unsupported
  none : (∀ r ∈ reads, ∃ e : ReadError, r = .error e) → verdicts attempts = []
  plain : (∀ r ∈ reads, ∃ e : ReadError, r = .error e ∧ e.Plain) → last.Plain
  io : (∀ r ∈ reads, ∃ e : ReadError, r = .error e ∧ e.Plain) →
    (∃ text, .error (.io text) ∈ reads) → ∃ text, last = .io text
  missing : (∀ r ∈ reads, r = .error .noMember) → last = .noMember

namespace Judged

variable {verdict : List UInt8 → Verify} {reads reads' : LeafReads}
  {attempts attempts' : List Attempt} {last last' : ReadError}

theorem nil : Judged verdict [] [] .noMember where
  judged := fun _ h => absurd h List.not_mem_nil
  rejected := fun _ h => absurd h List.not_mem_nil
  none := fun _ => rfl
  plain := fun _ => Or.inl rfl
  io := fun _ ⟨_, h⟩ => absurd h List.not_mem_nil
  missing := fun _ => rfl

/-- More reads that failed. -/
theorem append (h : Judged verdict reads attempts last)
    (h' : Judged verdict reads' attempts' last') :
    Judged verdict (reads ++ reads') (attempts ++ attempts') (last.moreTelling last') where
  judged := by
    intro raw hraw
    rw [verdicts_append]
    rcases List.mem_append.mp hraw with hraw | hraw
    · exact List.mem_append_left _ (h.judged raw hraw)
    · exact List.mem_append_right _ (h'.judged raw hraw)
  rejected := by
    intro v hv
    rw [verdicts_append] at hv
    rcases List.mem_append.mp hv with hv | hv
    · exact h.rejected v hv
    · exact h'.rejected v hv
  none := by
    intro hall
    rw [verdicts_append, h.none (fun r hr => hall r (List.mem_append_left _ hr)),
      h'.none (fun r hr => hall r (List.mem_append_right _ hr))]
    rfl
  plain := fun hall => (h.plain (fun r hr => hall r (List.mem_append_left _ hr))).moreTelling
    (h'.plain (fun r hr => hall r (List.mem_append_right _ hr)))
  io := by
    rintro hall ⟨text, htext⟩
    have hleft := fun r hr => hall r (List.mem_append_left _ hr)
    have hright := fun r hr => hall r (List.mem_append_right _ hr)
    refine ReadError.io_of_moreTelling (h.plain hleft) (h'.plain hright) ?_
    rcases List.mem_append.mp htext with htext | htext
    · exact Or.inl (h.io hleft ⟨text, htext⟩)
    · exact Or.inr (h'.io hright ⟨text, htext⟩)
  missing := by
    intro hall
    rw [h.missing (fun r hr => hall r (List.mem_append_left _ hr)),
      h'.missing (fun r hr => hall r (List.mem_append_right _ hr))]
    rfl

end Judged

/-- What a read comes to: the bytes of one of the leaf reads, or an error after all of them. -/
structure Told (verdict : List UInt8 → Verify) (reads : LeafReads) (attempts : List Attempt)
    (result : Except ReadError (List UInt8)) : Prop where
  taken : ∀ raw, result = .ok raw → .ok raw ∈ reads
  failed : ∀ e, result = .error e → Judged verdict reads attempts e

namespace Pool

section Told

variable (p : Pool) {io : Io Id} {bp : BlkPtr}

/-- The leaf reads of a DVA. -/
def leafReads (io : Io Id) (dva : Dva) (size : Nat) (leaves : List (Option Nat)) : LeafReads :=
  leaves.map (fun device => io.readLeaf device dva.offset size)

theorem readVerifiedLeaf_told (device : Option Nat) (dva : Dva) (i : Nat) :
    Told (p.verdict bp) (leafReads io dva bp.psize [device])
      (p.readVerifiedLeaf io device dva bp i).run.1
      ((p.readVerifiedLeaf io device dva bp i).run.2.map Prod.fst) := by
  rw [readVerifiedLeaf, leafReads, List.map_singleton]
  simp only [Id.run_bind]
  cases hread : io.readLeaf device dva.offset bp.psize with
  | error e =>
    refine ⟨fun raw h => (by cases h), fun e' h => ?_⟩
    cases h
    refine ⟨fun raw h => (by cases List.mem_singleton.mp h), fun v hv => absurd hv List.not_mem_nil,
      fun _ => rfl, fun hall => ?_, ?_, fun hall => ?_⟩
    · obtain ⟨e', heq, hplain⟩ := hall _ List.mem_cons_self
      cases heq
      exact hplain
    · rintro - ⟨text, htext⟩
      cases List.mem_singleton.mp htext
      exact ⟨text, rfl⟩
    · cases hall _ List.mem_cons_self
      rfl
  | ok raw =>
    show Told _ _ [_] ((accept raw (p.verify io bp raw).run).map Prod.fst)
    rw [p.verify_run io bp raw]
    refine ⟨fun raw' h => ?_, fun e h => ⟨fun raw' h' => ?_, fun v hv => ?_, fun hall => ?_,
      fun hall => ?_, fun hall => ?_, fun hall => ?_⟩⟩
    · cases hverdict : p.verdict bp raw <;> rw [hverdict] at h <;> cases h <;>
        exact List.mem_singleton.mpr rfl
    · cases List.mem_singleton.mp h'
      exact List.mem_singleton.mpr (p.verify_run io bp raw).symm
    · have hsame : v = (p.verify io bp raw).run := List.mem_singleton.mp hv
      rw [hsame, p.verify_run io bp raw]
      cases hverdict : p.verdict bp raw with
      | ok => rw [hverdict] at h; cases h
      | notChecked => rw [hverdict] at h; cases h
      | mismatch => exact Or.inl rfl
      | unsupported => exact Or.inr rfl
    · obtain ⟨e', heq⟩ := hall _ List.mem_cons_self
      cases heq
    · obtain ⟨e', heq, -⟩ := hall _ List.mem_cons_self
      cases heq
    · obtain ⟨e', heq, -⟩ := hall _ List.mem_cons_self
      cases heq
    · cases hall _ List.mem_cons_self

mutual

/-- The copies on the leaves of a disk or a mirror. -/
theorem readVerified_told (dva : Dva) (i : Nat) :
    ∀ (node : Node) (leaves : List (Option Nat)), node.leavesOf = some leaves →
      Told (p.verdict bp) (leafReads io dva bp.psize leaves)
        (p.readVerified io dva bp i node).run.1
        ((p.readVerified io dva bp i node).run.2.map Prod.fst)
  | .leaf device guid, leaves, h => by
    cases h
    unfold readVerified
    exact p.readVerifiedLeaf_told device dva i
  | .mirror children, leaves, h => by
    unfold readVerified
    exact readVerifiedAny_told dva i children leaves h [] [] .noMember Judged.nil
  | .raidz _ _ _, _, h => by cases h
  | .draid _ _ _, _, h => by cases h
  | .dspare _, _, h => by cases h
  | .unsupported _, _, h => by cases h

theorem readVerifiedAny_told (dva : Dva) (i : Nat) :
    ∀ (nodes : List Node) (leaves : List (Option Nat)), Node.leavesOfAll nodes = some leaves →
      ∀ (reads : LeafReads) (attempts : List Attempt) (last : ReadError),
        Judged (p.verdict bp) reads attempts last →
        Told (p.verdict bp) (reads ++ leafReads io dva bp.psize leaves)
          (attempts ++ (p.readVerifiedAny io dva bp i last nodes).run.1)
          ((p.readVerifiedAny io dva bp i last nodes).run.2.map Prod.fst)
  | [], leaves, h => by
    cases h
    intro reads attempts last hjudged
    unfold readVerifiedAny
    refine ⟨fun raw h => (by cases h), fun e h => ?_⟩
    cases h
    rw [leafReads, List.map_nil, List.append_nil]
    show Judged _ _ (attempts ++ []) _
    rw [List.append_nil]
    exact hjudged
  | node :: nodes, leaves, h => by
    intro reads attempts last hjudged
    rw [Node.leavesOfAll] at h
    cases hhere : node.leavesOf with
    | none => simp [hhere] at h
    | some here =>
      cases hrest : Node.leavesOfAll nodes with
      | none => simp [hhere, hrest] at h
      | some rest =>
        simp only [hhere, hrest, Option.some.injEq] at h
        subst h
        have htold := readVerified_told dva i node here hhere
        have hlater := readVerifiedAny_told dva i nodes rest hrest
        rw [leafReads, List.map_append, ← List.append_assoc]
        unfold readVerifiedAny
        simp only [Id.run_bind]
        generalize (p.readVerified io dva bp i node).run = tried at htold ⊢
        obtain ⟨tries, result⟩ := tried
        cases result with
        | ok found =>
          refine ⟨fun raw h => ?_, fun e h => (by cases h)⟩
          exact List.mem_append_left _ (List.mem_append_right _ (htold.taken raw h))
        | error e =>
          have hnext := hlater _ _ _ (hjudged.append (htold.failed e rfl))
          rw [List.append_assoc attempts] at hnext
          exact hnext

end

/-- Bytes that were accepted fail only in what is made of them. -/
theorem finish_settled {attempts : List Attempt} {raw : List UInt8} {e : ReadError}
    (h : p.finish bp attempts raw = .error e) : e.Settled := by
  rw [finish] at h
  split at h
  next hplain =>
    cases h
    by_cases hcrypt : bp.isEncrypted = true
    · rw [if_pos hcrypt] at hplain
      cases hkeys : p.keys with
      | none =>
        rw [hkeys] at hplain
        cases hplain
        exact ⟨fun _ h => (by cases h), fun _ h => (by cases h)⟩
      | some keys =>
        rw [hkeys] at hplain
        dsimp only at hplain
        cases hdec : keys.decryptBlock bp raw with
        | error text =>
          rw [hdec] at hplain
          cases hplain
          exact ⟨fun _ h => (by cases h), fun _ h => (by cases h)⟩
        | ok data =>
          rw [hdec] at hplain
          cases hplain
    · rw [if_neg hcrypt] at hplain
      cases hplain
  next plain hplain =>
    cases hdata : decompress p.codecs bp.compression plain bp.lsize with
    | error text =>
      rw [hdata] at h
      cases h
      exact ⟨fun _ h => (by cases h), fun _ h => (by cases h)⟩
    | ok data =>
      rw [hdata] at h
      cases h

variable {gang : Dva → BlkPtr → Id (Except ReadError (List UInt8))}

/-- The leaf reads of the DVAs that are in use. -/
def copyReads (io : Io Id) (size : Nat) (dvas : List Dva) : LeafReads :=
  dvas.flatMap (fun dva => leafReads io dva size (p.sidesOf dva))

theorem readCopies_told : ∀ (dvas : List (Dva × Nat)),
    (∀ d ∈ dvas, d.1.isEmpty = false → p.Mirrored d.1) →
    ∀ (reads : LeafReads) (attempts : List Attempt) (last : ReadError),
      Judged (p.verdict bp) reads attempts last →
      Told (p.verdict bp)
        (reads ++ p.copyReads io bp.psize ((dvas.map Prod.fst).filter (fun d => !d.isEmpty)))
        (attempts ++ (p.readCopies io gang bp last dvas).run.1)
        (p.readCopies io gang bp last dvas).run.2 := by
  intro dvas
  induction dvas with
  | nil =>
    intro _ reads attempts last hjudged
    refine ⟨fun raw h => (by cases h), fun e h => ?_⟩
    cases h
    show Judged _ (reads ++ []) (attempts ++ []) _
    rw [List.append_nil, List.append_nil]
    exact hjudged
  | cons d rest ih =>
    obtain ⟨dva, i⟩ := d
    intro hall reads attempts last hjudged
    have hrest := ih (fun d hd => hall d (List.mem_cons_of_mem _ hd))
    rw [readCopies, List.map_cons]
    by_cases hempty : dva.isEmpty = true
    · rw [if_pos hempty, List.filter_cons_of_neg (by simp [hempty])]
      exact hrest reads attempts last hjudged
    · rw [if_neg hempty, List.filter_cons_of_pos (by simp [hempty])]
      have hmirrored : p.Mirrored dva :=
        hall (dva, i) List.mem_cons_self (Bool.eq_false_iff.mpr hempty)
      obtain ⟨hplain, node, leaves, hlocate, hleaves⟩ := hmirrored
      have hsides : p.sidesOf dva = leaves := by
        rw [sidesOf, hlocate]
        simp only [hleaves, Option.getD_some]
      have hcopy : p.readCopy io gang bp dva i = p.readVerified io dva bp i node := by
        rw [readCopy, hlocate]
        simp only [hplain, Bool.false_eq_true, if_false]
      have hlast : ∀ e, p.lastError dva last e = last.moreTelling e := by
        intro e
        rw [lastError, if_neg (by simp [hplain, hlocate])]
      rw [copyReads, List.flatMap_cons, ← List.append_assoc, hsides, hcopy]
      have htold : Told (p.verdict bp) (leafReads io dva bp.psize leaves)
          (p.readVerified io dva bp i node).run.1
          ((p.readVerified io dva bp i node).run.2.map Prod.fst) :=
        p.readVerified_told dva i node leaves hleaves
      simp only [Id.run_bind]
      generalize (p.readVerified io dva bp i node).run = tried at htold ⊢
      obtain ⟨tries, result⟩ := tried
      cases result with
      | ok found =>
        refine ⟨fun raw h => ?_, fun e h => (by cases h)⟩
        cases h
        exact List.mem_append_left _ (List.mem_append_right _ (htold.taken _ rfl))
      | error e =>
        have hnext := hrest _ _ _ (hjudged.append (htold.failed e rfl))
        rw [List.append_assoc attempts, ← hlast] at hnext
        exact hnext

/-- A block that is read from its copies. -/
structure Copied (bp : BlkPtr) : Prop where
  hole : bp.isHole = false
  embedded : bp.embedded = false
  mirrored : ∀ dva ∈ bp.dvas, p.Mirrored dva

variable {p}

/-- The read of a block as the reads of its copies tell. -/
theorem Copied.told (h : p.Copied bp) (io : Io Id)
    (gang : Dva → BlkPtr → Id (Except ReadError (List UInt8))) :
    Told (p.verdict bp) (p.copyReads io bp.psize bp.dvas) (p.readRawVerified io gang bp).run.1
      (p.readRawVerified io gang bp).run.2 := by
  have hmirrored : ∀ d ∈ bp.dva.zipIdx, d.1.isEmpty = false → p.Mirrored d.1 := by
    intro d hd hempty
    apply h.mirrored
    rw [BlkPtr.dvas, List.mem_filter]
    exact ⟨List.fst_mem_of_mem_zipIdx hd, by rw [hempty]; rfl⟩
  have htold : Told (p.verdict bp)
      (p.copyReads io bp.psize ((bp.dva.zipIdx.map Prod.fst).filter (fun d => !d.isEmpty)))
      (p.readCopies io gang bp .noMember bp.dva.zipIdx).run.1
      (p.readCopies io gang bp .noMember bp.dva.zipIdx).run.2 :=
    p.readCopies_told bp.dva.zipIdx hmirrored [] [] .noMember Judged.nil
  rwa [List.zipIdx_map_fst] at htold

theorem Copied.payload (h : p.Copied bp) : bp.embeddedPayload = none := by
  unfold BlkPtr.embeddedPayload
  rw [h.embedded]
  rfl

/-- What the read of a block makes of its copies. -/
theorem Copied.readBlock_eq (h : p.Copied bp) (hstop : io.mediumStop.run = none)
    (allowUnverified : Bool) :
    (p.readBlock io bp allowUnverified).run =
      p.conclude bp (p.readRawVerified io (p.readGang io maxDepth) bp).run.1
        (p.readRawVerified io (p.readGang io maxDepth) bp).run.2 := by
  unfold readBlock
  rw [if_neg (by simp [h.hole]), h.payload]
  simp only [Id.run_bind, hstop]
  rfl

/-- A block that reads is from a copy that reads. -/
theorem Copied.readBlock_ok (h : p.Copied bp) (hstop : io.mediumStop.run = none)
    (allowUnverified : Bool) {block : Block}
    (hblock : (p.readBlock io bp allowUnverified).run = .ok block) :
    ∃ raw, .ok raw ∈ p.copyReads io bp.psize bp.dvas := by
  have htold := h.told io (p.readGang io maxDepth)
  rw [h.readBlock_eq hstop] at hblock
  generalize (p.readRawVerified io (p.readGang io maxDepth) bp).run = tried at htold hblock
  obtain ⟨attempts, result⟩ := tried
  cases result with
  | ok raw => exact ⟨raw, htold.taken raw rfl⟩
  | error e => cases hblock

/-- Where no copy reads and one fails, the block fails with an i/o error. -/
theorem Copied.readBlock_io (h : p.Copied bp) (hstop : io.mediumStop.run = none)
    (allowUnverified : Bool)
    (hall : ∀ r ∈ p.copyReads io bp.psize bp.dvas, ∃ e : ReadError, r = .error e ∧ e.Plain)
    (hio : ∃ text, .error (.io text) ∈ p.copyReads io bp.psize bp.dvas) :
    ∃ text, (p.readBlock io bp allowUnverified).run = .error (.io text) := by
  have htold := h.told io (p.readGang io maxDepth)
  rw [h.readBlock_eq hstop]
  generalize (p.readRawVerified io (p.readGang io maxDepth) bp).run = tried at htold ⊢
  obtain ⟨attempts, result⟩ := tried
  cases result with
  | ok raw =>
    obtain ⟨e, heq, -⟩ := hall _ (htold.taken raw rfl)
    cases heq
  | error e =>
    have hjudged := htold.failed e rfl
    have hnone : verdicts attempts = [] := hjudged.none (fun r hr =>
      (hall r hr).imp (fun e he => he.1))
    obtain ⟨text, rfl⟩ := hjudged.io hall hio
    refine ⟨text, ?_⟩
    show Except.error (failure attempts (.io text)) = _
    rw [failure]
    rw [verdicts] at hnone
    simp [hnone]

/-- Where a copy reads, or none is there, the block fails with no such error and nothing stops
the run. -/
theorem Copied.readBlock_settled (h : p.Copied bp) (hstop : io.mediumStop.run = none)
    (allowUnverified : Bool)
    (hcase : (∃ raw, .ok raw ∈ p.copyReads io bp.psize bp.dvas) ∨
      ∀ r ∈ p.copyReads io bp.psize bp.dvas, r = .error .noMember) :
    ∀ e, (p.readBlock io bp allowUnverified).run = .error e → e.Settled := by
  have htold := h.told io (p.readGang io maxDepth)
  rw [h.readBlock_eq hstop]
  generalize (p.readRawVerified io (p.readGang io maxDepth) bp).run = tried at htold ⊢
  obtain ⟨attempts, result⟩ := tried
  intro e he
  cases result with
  | ok raw => exact p.finish_settled he
  | error e' =>
    have hjudged := htold.failed e' rfl
    change Except.error (failure attempts e') = _ at he
    rw [failure] at he
    change Except.error (if .unsupported ∈ verdicts attempts then _
      else if .mismatch ∈ verdicts attempts then _ else _) = _ at he
    by_cases huns : .unsupported ∈ verdicts attempts
    · rw [if_pos huns] at he
      cases he
      exact ⟨fun _ h => (by cases h), fun _ h => (by cases h)⟩
    by_cases hmis : .mismatch ∈ verdicts attempts
    · rw [if_neg huns, if_pos hmis] at he
      cases he
      exact ⟨fun _ h => (by cases h), fun _ h => (by cases h)⟩
    rcases hcase with ⟨raw, hraw⟩ | hmissing
    · have hmem := hjudged.judged raw hraw
      rcases hjudged.rejected _ hmem with hverdict | hverdict
      · exact absurd (hverdict ▸ hmem) hmis
      · exact absurd (hverdict ▸ hmem) huns
    · rw [if_neg huns, if_neg hmis, hjudged.missing hmissing] at he
      cases he
      exact ⟨fun _ h => (by cases h), fun _ h => (by cases h)⟩

end Told

end Pool

end Zio
end ZvolRescue
