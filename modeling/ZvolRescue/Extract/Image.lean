import Mathlib.Algebra.BigOperators.Group.List.Basic
import Mathlib.Algebra.Group.Prod
import ZvolRescue.Extract.Volume
import ZvolRescue.Lib.Stateful

/-!
# The image an extraction leaves

Every extraction into a sparse file takes in a number of blocks and ends in one of three
ways (`outcome`).  What the report, the digests and the file then hold is a function of what
the blocks gave (`absorbAll`), one lemma for each of them.
-/

namespace ZvolRescue
namespace Extract

open Lib Ondisk Source Zio Dmu

/-! ## What a block is in the image -/

namespace BlockRead

/-- The `len` bytes of the image that stand for a block. -/
def bytes (bs len : Nat) : BlockRead → List UInt8
  | .data b => (setLen b bs).take len
  | .partly b _ _ => (setLen b bs).take len
  | _ => zeros len

def stops : BlockRead → Bool
  | .stopped _ _ => true
  | _ => false

/-- Not all of the block was read. -/
def damaged : BlockRead → Bool
  | .lost _ => true
  | .partly _ _ _ => true
  | _ => false

/-- The unreadable ranges of a block of `len` bytes at `offset`. -/
def badRanges (offset len blkid : Nat) : BlockRead → List BadRange
  | .partly _ ranges reason =>
    (clipRanges len ranges).map (fun p => { offset := offset + p.1, len := p.2, blkid, reason })
  | .lost reason => [{ offset, len, blkid, reason }]
  | .stopped reason _ => [{ offset, len, blkid, reason }]
  | _ => []

theorem bytes_length {bs len : Nat} (h : len ≤ bs) (r : BlockRead) : (r.bytes bs len).length = len := by
  cases r with
  | data b =>
    show ((setLen b bs).take len).length = len
    rw [List.length_take, setLen_length]
    omega
  | partly b ranges reason =>
    show ((setLen b bs).take len).length = len
    rw [List.length_take, setLen_length]
    omega
  | _ => exact List.length_replicate

end BlockRead

/-- The bytes of block `b` that lie inside the volume. -/
def blockLen (bs vol b : Nat) : Nat := min bs (vol - b * bs)

/-- The blocks of the image, by what was read of them. -/
def content (bs vol : Nat) (reads : Nat → BlockRead) (b : Nat) : List UInt8 :=
  (reads b).bytes bs (blockLen bs vol b)

theorem content_cut (bs vol : Nat) (reads : Nat → BlockRead) : Cut bs (content bs vol reads) vol := by
  intro b
  exact (reads b).bytes_length (Nat.min_le_left _ _)

/-- The bad ranges of block `b`. -/
def badOf (bs vol : Nat) (reads : Nat → BlockRead) (b : Nat) : List BadRange :=
  (reads b).badRanges (b * bs) (blockLen bs vol b) b

/-! ## Blocks taken in -/

namespace BlockRead

/-- The counters of a report after one more block. -/
def tally (len : Nat) (r : Report) : BlockRead → Report
  | .hole => { r with blocksHoles := r.blocksHoles + 1 }
  | .data _ => { r with blocksRead := r.blocksRead + 1, bytesWritten := r.bytesWritten + len }
  | .partly _ ranges _ =>
    { r with
      blocksSalvaged := r.blocksSalvaged + 1
      bytesWritten := r.bytesWritten + sub64 len (lostBytes (clipRanges len ranges)) }
  | .lost _ => { r with blocksZeroed := r.blocksZeroed + 1 }
  | .stopped reason medium =>
    { r with aborted := true, stoppedByMedium := if medium then some reason else none }

end BlockRead

namespace Run

/-- The run with block `blkid` taken in. -/
def absorb (blkid : Nat) (read : BlockRead) (run : Run SparseFile) : Run SparseFile :=
  let bs := run.report.blocksize
  let len := blockLen bs run.report.volsize blkid
  let offset := blkid * bs
  { report :=
      { read.tally len run.report with
        bad := run.report.bad ++ read.badRanges offset len blkid }
    digests := run.digests.update (read.bytes bs len)
    sink := run.sink.writeAt offset (read.bytes bs len)
    hashedTo := offset + len
    calls := run.calls ++ [(blkid + 1, run.report.blocksTotal)] }

/-- The run that a block stops. -/
def halt (blkid : Nat) (read : BlockRead) (run : Run SparseFile) : Run SparseFile :=
  let len := blockLen run.report.blocksize run.report.volsize blkid
  let offset := blkid * run.report.blocksize
  { run with
    report :=
      { read.tally len run.report with
        bad := run.report.bad ++ read.badRanges offset len blkid } }

theorem write_zeros (s : SparseFile) (offset n : Nat) : s.writeAt offset (zeros n) = s := by
  unfold SparseFile.writeAt zeros
  rw [if_pos (allZero_replicate n)]

/-- One step of the loop inside the volume. -/
theorem record_eq (run : Run SparseFile) {blkid : Nat} (read : BlockRead)
    (hin : blkid * run.report.blocksize < run.report.volsize) (hvol : run.report.volsize < word) :
    run.record SparseFile.sink blkid read =
      if read.stops then .broke (run.halt blkid read) else .next (run.absorb blkid read) := by
  have hoffset : mul64 blkid run.report.blocksize = blkid * run.report.blocksize :=
    mul64_of_lt (by omega)
  have hlen : min (sub64 run.report.volsize (blkid * run.report.blocksize)) run.report.blocksize =
      blockLen run.report.blocksize run.report.volsize blkid := by
    rw [sub64_of_le hvol (by omega), Nat.min_comm]
    rfl
  unfold record
  simp only [hoffset, hlen]
  cases read with
  | hole =>
    simp only [BlockRead.stops, absorb, BlockRead.bytes, BlockRead.tally, BlockRead.badRanges,
      write_zeros, List.append_nil]
    rfl
  | data bytes =>
    simp only [BlockRead.stops, absorb, BlockRead.bytes, BlockRead.tally, BlockRead.badRanges,
      List.append_nil]
    rfl
  | partly bytes ranges reason => rfl
  | lost reason =>
    simp only [BlockRead.stops, absorb, BlockRead.bytes, BlockRead.tally, BlockRead.badRanges,
      write_zeros]
    rfl
  | stopped reason medium => rfl

/-- The run with `n` blocks from `blkid` on taken in. -/
def absorbAll (reads : Nat → BlockRead) : (n blkid : Nat) → Run SparseFile → Run SparseFile
  | 0, _, run => run
  | n + 1, blkid, run => absorbAll reads n (blkid + 1) (run.absorb blkid (reads blkid))

theorem absorbAll_succ (reads : Nat → BlockRead) :
    ∀ n blkid run, absorbAll reads (n + 1) blkid run =
      (absorbAll reads n blkid run).absorb (blkid + n) (reads (blkid + n)) := by
  intro n
  induction n with
  | zero =>
    intro blkid run
    rfl
  | succ n ih =>
    intro blkid run
    have h := ih (blkid + 1) (run.absorb blkid (reads blkid))
    rw [show blkid + 1 + n = blkid + (n + 1) by omega] at h
    exact h

/-! ### What `n` blocks do -/

theorem absorb_volsize (blkid : Nat) (read : BlockRead) (run : Run SparseFile) :
    (run.absorb blkid read).report.volsize = run.report.volsize := by
  cases read <;> rfl

theorem absorb_blocksize (blkid : Nat) (read : BlockRead) (run : Run SparseFile) :
    (run.absorb blkid read).report.blocksize = run.report.blocksize := by
  cases read <;> rfl

theorem absorb_blocksTotal (blkid : Nat) (read : BlockRead) (run : Run SparseFile) :
    (run.absorb blkid read).report.blocksTotal = run.report.blocksTotal := by
  cases read <;> rfl

variable (reads : Nat → BlockRead) (blkid : Nat) (run : Run SparseFile)

theorem absorbAll_sizes (n : Nat) :
    (absorbAll reads n blkid run).report.volsize = run.report.volsize ∧
      (absorbAll reads n blkid run).report.blocksize = run.report.blocksize ∧
      (absorbAll reads n blkid run).report.blocksTotal = run.report.blocksTotal := by
  induction n with
  | zero => exact ⟨rfl, rfl, rfl⟩
  | succ n ih =>
    rw [absorbAll_succ, absorb_volsize, absorb_blocksize, absorb_blocksTotal]
    exact ih

theorem absorbAll_digests (n : Nat) :
    (absorbAll reads n blkid run).digests =
      run.digests.update
        (image (content run.report.blocksize run.report.volsize reads) blkid n) := by
  induction n with
  | zero => exact run.digests.update_nil.symm
  | succ n ih =>
    obtain ⟨hvol, hbs, -⟩ := absorbAll_sizes reads blkid run n
    rw [absorbAll_succ]
    show (absorbAll reads n blkid run).digests.update _ = _
    rw [ih, hvol, hbs, image_succ, Digests.update_update]
    rfl

theorem absorbAll_file (n : Nat) :
    (absorbAll reads n blkid run).sink.file =
      writeBlocks run.report.blocksize (content run.report.blocksize run.report.volsize reads)
        blkid run.sink.file n := by
  induction n with
  | zero => rfl
  | succ n ih =>
    obtain ⟨hvol, hbs, -⟩ := absorbAll_sizes reads blkid run n
    rw [absorbAll_succ, writeBlocks_succ]
    show ((absorbAll reads n blkid run).sink.writeAt _ _).file = _
    rw [SparseFile.writeAt_file, ih, hvol, hbs]
    rfl

theorem absorbAll_bad (n : Nat) :
    (absorbAll reads n blkid run).report.bad =
      run.report.bad ++
        (List.range' blkid n).flatMap (badOf run.report.blocksize run.report.volsize reads) := by
  induction n with
  | zero => exact (List.append_nil _).symm
  | succ n ih =>
    obtain ⟨hvol, hbs, -⟩ := absorbAll_sizes reads blkid run n
    rw [absorbAll_succ]
    show (absorbAll reads n blkid run).report.bad ++ _ = _
    rw [ih, hvol, hbs, List.range'_concat, List.flatMap_append, List.append_assoc, Nat.one_mul]
    simp [badOf]

theorem absorbAll_calls (n : Nat) :
    (absorbAll reads n blkid run).calls =
      run.calls ++ (List.range' blkid n).map (fun b => (b + 1, run.report.blocksTotal)) := by
  induction n with
  | zero => exact (List.append_nil _).symm
  | succ n ih =>
    obtain ⟨-, -, htotal⟩ := absorbAll_sizes reads blkid run n
    rw [absorbAll_succ]
    show (absorbAll reads n blkid run).calls ++ _ = _
    rw [ih, htotal, List.range'_concat, List.map_append, List.append_assoc, Nat.one_mul]
    rfl

/-- Where the image has been hashed to, if it was up to the first of the blocks before. -/
theorem absorbAll_hashedTo (n : Nat)
    (h : run.hashedTo = min (blkid * run.report.blocksize) run.report.volsize)
    (hin : ∀ i, i < n → (blkid + i) * run.report.blocksize < run.report.volsize) :
    (absorbAll reads n blkid run).hashedTo =
      min ((blkid + n) * run.report.blocksize) run.report.volsize := by
  cases n with
  | zero => exact h
  | succ n =>
    obtain ⟨hvol, hbs, -⟩ := absorbAll_sizes reads blkid run n
    rw [absorbAll_succ]
    show (blkid + n) * (absorbAll reads n blkid run).report.blocksize +
      blockLen (absorbAll reads n blkid run).report.blocksize
        (absorbAll reads n blkid run).report.volsize (blkid + n) = _
    have hlt := hin n (by omega)
    rw [hvol, hbs, blockLen, ← Nat.add_assoc blkid n 1, Nat.add_mul (blkid + n), Nat.one_mul]
    omega

/-! ### Counters -/

end Run

/-- Blocks read, holes, blocks zeroed, blocks salvaged, bytes written. -/
def Report.counters (r : Report) : Nat × Nat × Nat × Nat × Nat :=
  (r.blocksRead, r.blocksHoles, r.blocksZeroed, r.blocksSalvaged, r.bytesWritten)

/-- What a block adds to the counters. -/
def BlockRead.counts (len : Nat) : BlockRead → Nat × Nat × Nat × Nat × Nat
  | .hole => (0, 1, 0, 0, 0)
  | .data _ => (1, 0, 0, 0, len)
  | .partly _ ranges _ => (0, 0, 0, 1, sub64 len (lostBytes (clipRanges len ranges)))
  | .lost _ => (0, 0, 1, 0, 0)
  | .stopped _ _ => 0

theorem BlockRead.tally_counters (len : Nat) (r : Report) (read : BlockRead) (bad : List BadRange) :
    Report.counters { read.tally len r with bad := bad } = r.counters + read.counts len := by
  cases read <;> rfl

/-- What the blocks from `blkid` on add to the counters. -/
def countsOf (bs vol : Nat) (reads : Nat → BlockRead) (blkid n : Nat) : Nat × Nat × Nat × Nat × Nat :=
  ((List.range' blkid n).map (fun b => (reads b).counts (blockLen bs vol b))).sum

namespace Run

variable (reads : Nat → BlockRead) (blkid : Nat) (run : Run SparseFile)

theorem absorbAll_counters (n : Nat) :
    (absorbAll reads n blkid run).report.counters =
      run.report.counters + countsOf run.report.blocksize run.report.volsize reads blkid n := by
  unfold countsOf
  induction n with
  | zero => exact (add_zero _).symm
  | succ n ih =>
    obtain ⟨hvol, hbs, -⟩ := absorbAll_sizes reads blkid run n
    rw [absorbAll_succ]
    show Report.counters { BlockRead.tally _ _ _ with bad := _ } = _
    rw [BlockRead.tally_counters, ih, hvol, hbs, List.range'_concat, List.map_append,
      List.sum_append, ← add_assoc, Nat.one_mul]
    simp

/-- Blocks that do not stop the extraction leave the rest of the report alone. -/
theorem absorbAll_flags (n : Nat) (h : ∀ i, i < n → (reads (blkid + i)).stops = false) :
    (absorbAll reads n blkid run).report.aborted = run.report.aborted ∧
      (absorbAll reads n blkid run).report.stoppedByMedium = run.report.stoppedByMedium ∧
      (absorbAll reads n blkid run).report.interruptedAt = run.report.interruptedAt := by
  induction n with
  | zero => exact ⟨rfl, rfl, rfl⟩
  | succ n ih =>
    have ih := ih (fun i hi => h i (by omega))
    have hn := h n (by omega)
    rw [absorbAll_succ]
    cases hread : reads (blkid + n) with
    | stopped reason medium =>
      rw [hread] at hn
      cases hn
    | _ => exact ih

end Run

/-! ## How an extraction ends -/

inductive Ending where
  | complete
  | interrupted
  /-- At a block that stops it. -/
  | stopped
  deriving DecidableEq, Repr

/-- How many of `left` blocks from `blkid` on are taken in, and what ends that. -/
def outcome (reads : Nat → BlockRead) (stop : Nat → Bool) : (left blkid : Nat) → Nat × Ending
  | 0, _ => (0, .complete)
  | left + 1, blkid =>
    if stop blkid then (0, .interrupted)
    else if (reads blkid).stops then (0, .stopped)
    else ((outcome reads stop left (blkid + 1)).1 + 1, (outcome reads stop left (blkid + 1)).2)

/-- What `outcome` says of the blocks. -/
structure Ends (reads : Nat → BlockRead) (stop : Nat → Bool) (left blkid n : Nat)
    (ending : Ending) : Prop where
  le : n ≤ left
  goesOn : ∀ i, i < n → stop (blkid + i) = false ∧ (reads (blkid + i)).stops = false
  complete : ending = .complete → n = left
  interrupted : ending = .interrupted → n < left ∧ stop (blkid + n) = true
  stopped : ending = .stopped →
    n < left ∧ stop (blkid + n) = false ∧ (reads (blkid + n)).stops = true

theorem outcome_ends (reads : Nat → BlockRead) (stop : Nat → Bool) :
    ∀ left blkid, Ends reads stop left blkid (outcome reads stop left blkid).1
      (outcome reads stop left blkid).2 := by
  intro left
  induction left with
  | zero =>
    intro blkid
    exact
      { le := Nat.le_refl 0
        goesOn := fun i hi => absurd hi (Nat.not_lt_zero i)
        complete := fun _ => rfl
        interrupted := fun h => by cases h
        stopped := fun h => by cases h }
  | succ left ih =>
    intro blkid
    unfold outcome
    by_cases hstop : stop blkid = true
    · rw [if_pos hstop]
      exact
        { le := Nat.zero_le _
          goesOn := fun i hi => absurd hi (Nat.not_lt_zero i)
          complete := fun h => by cases h
          interrupted := fun _ => ⟨Nat.succ_pos left, hstop⟩
          stopped := fun h => by cases h }
    · rw [if_neg hstop]
      by_cases hread : (reads blkid).stops = true
      · rw [if_pos hread]
        exact
          { le := Nat.zero_le _
            goesOn := fun i hi => absurd hi (Nat.not_lt_zero i)
            complete := fun h => by cases h
            interrupted := fun h => by cases h
            stopped := fun _ => ⟨Nat.succ_pos left, by simpa using hstop, hread⟩ }
      · rw [if_neg hread]
        have h := ih (blkid + 1)
        generalize outcome reads stop left (blkid + 1) = o at h ⊢
        have hidx : ∀ i, blkid + 1 + i = blkid + (i + 1) := by
          intro i
          omega
        exact
          { le := Nat.succ_le_succ h.le
            goesOn := by
              intro i hi
              cases i with
              | zero => exact ⟨by simpa using hstop, by simpa using hread⟩
              | succ i =>
                rw [← hidx]
                exact h.goesOn i (by simp only at hi; omega)
            complete := fun he => congrArg (· + 1) (h.complete he)
            interrupted := by
              intro he
              have h' := h.interrupted he
              rw [hidx] at h'
              exact ⟨Nat.succ_lt_succ h'.1, h'.2⟩
            stopped := by
              intro he
              have h' := h.stopped he
              rw [hidx] at h'
              exact ⟨Nat.succ_lt_succ h'.1, h'.2⟩ }

/-- Where every block is taken in, nothing ended the loop before. -/
theorem Ends.complete_of_le {reads : Nat → BlockRead} {stop : Nat → Bool} {left blkid n : Nat}
    {ending : Ending} (h : Ends reads stop left blkid n ending) (hle : left ≤ n) :
    ending = .complete := by
  cases ending with
  | complete => rfl
  | interrupted =>
    have := (h.interrupted rfl).1
    omega
  | stopped =>
    have := (h.stopped rfl).1
    omega

/-- The run once its loop has ended at block `blkid`. -/
def Run.ended (reads : Nat → BlockRead) (ending : Ending) (blkid : Nat) (run : Run SparseFile) :
    Run SparseFile :=
  match ending with
  | .complete => run
  | .interrupted => { run with report := { run.report with interruptedAt := some blkid } }
  | .stopped => run.halt blkid (reads blkid)

theorem Run.ended_sink (reads : Nat → BlockRead) (ending : Ending) (blkid : Nat)
    (run : Run SparseFile) : (run.ended reads ending blkid).sink = run.sink := by
  cases ending <;> rfl

theorem Run.ended_calls (reads : Nat → BlockRead) (ending : Ending) (blkid : Nat)
    (run : Run SparseFile) : (run.ended reads ending blkid).calls = run.calls := by
  cases ending <;> rfl

theorem Run.ended_aborted {reads : Nat → BlockRead} {ending : Ending} {blkid : Nat}
    {run : Run SparseFile} (hrun : run.report.aborted = false)
    (h : ending = .stopped → (reads blkid).stops = true) :
    (run.ended reads ending blkid).report.aborted = decide (ending = .stopped) := by
  cases ending with
  | complete => exact hrun
  | interrupted => exact hrun
  | stopped =>
    cases hread : reads blkid with
    | stopped reason medium =>
      simp only [Run.ended, Run.halt, hread]
      rfl
    | _ =>
      rw [hread] at h
      cases h rfl

/-! ## The loop -/

section Loop

variable {σ : Type}

/-- The state after reading `n` blocks from `blkid` on. -/
def stateAt (read : Nat → StateM σ BlockRead) : (n blkid : Nat) → σ → σ
  | 0, _, s => s
  | n + 1, blkid, s => stateAt read n (blkid + 1) (read blkid s).2

/-- What block `b` gives when the blocks from `blkid` on are read in order. -/
def readsFrom (read : Nat → StateM σ BlockRead) (blkid : Nat) (s : σ) (b : Nat) : BlockRead :=
  (read b (stateAt read (b - blkid) blkid s)).1

theorem readsFrom_self (read : Nat → StateM σ BlockRead) (blkid : Nat) (s : σ) :
    readsFrom read blkid s blkid = (read blkid s).1 := by
  unfold readsFrom
  rw [Nat.sub_self]
  rfl

theorem readsFrom_succ (read : Nat → StateM σ BlockRead) {blkid b : Nat} (s : σ) (h : blkid < b) :
    readsFrom read blkid s b = readsFrom read (blkid + 1) (read blkid s).2 b := by
  unfold readsFrom
  obtain ⟨k, rfl⟩ : ∃ k, b = blkid + (k + 1) := ⟨b - blkid - 1, by omega⟩
  rw [Nat.add_sub_cancel_left, show blkid + (k + 1) - (blkid + 1) = k by omega]
  rfl

/-- The loop takes in blocks and ends as `outcome` says. -/
theorem visitBlocks_run (read : Nat → StateM σ BlockRead) (stop : Nat → Bool)
    (reads : Nat → BlockRead) :
    ∀ left blkid (run : Run SparseFile) s,
      (∀ b, blkid ≤ b → reads b = readsFrom read blkid s b) →
      run.report.volsize < word →
      (∀ i, i < left → (blkid + i) * run.report.blocksize < run.report.volsize) →
      (visitBlocks read SparseFile.sink stop left blkid run s).1 =
          (.ok (), (run.absorbAll reads (outcome reads stop left blkid).1 blkid).ended reads
            (outcome reads stop left blkid).2 (blkid + (outcome reads stop left blkid).1)) ∧
        ((outcome reads stop left blkid).2 = .complete →
          (visitBlocks read SparseFile.sink stop left blkid run s).2 =
            stateAt read left blkid s) := by
  intro left
  induction left with
  | zero =>
    intro blkid run s _ _ _
    exact ⟨rfl, fun _ => rfl⟩
  | succ left ih =>
    intro blkid run s hreads hvol hin
    unfold visitBlocks outcome
    by_cases hstop : stop blkid = true
    · rw [if_pos hstop, if_pos hstop]
      exact ⟨rfl, fun h => by cases h⟩
    · rw [if_neg hstop, if_neg hstop, bind_run]
      have hread : (read blkid s).1 = reads blkid := by
        rw [hreads blkid (Nat.le_refl _), readsFrom_self]
      have hhere : blkid * run.report.blocksize < run.report.volsize := hin 0 (Nat.succ_pos left)
      rw [hread, run.record_eq (reads blkid) hhere hvol]
      by_cases hstops : (reads blkid).stops = true
      · rw [if_pos hstops, if_pos hstops]
        exact ⟨rfl, fun h => by cases h⟩
      · rw [if_neg hstops, if_neg hstops]
        obtain ⟨hrun, hstate⟩ := ih (blkid + 1) (run.absorb blkid (reads blkid)) (read blkid s).2
          (by
            intro b hb
            rw [hreads b (by omega), readsFrom_succ read s hb])
          (by
            rw [Run.absorb_volsize]
            exact hvol)
          (by
            intro i hi
            rw [Run.absorb_volsize, Run.absorb_blocksize, Nat.add_assoc, Nat.add_comm 1 i]
            exact hin (i + 1) (by omega))
        refine ⟨?_, hstate⟩
        simp only
        rw [hrun, Nat.add_assoc, Nat.add_comm 1]
        rfl

end Loop

/-! ## What an extraction leaves -/

/-- The report and the run that an extraction of the blocks from `start` on leaves, by the
number of blocks it took in and how it ended. -/
structure Extracted (hashes : ImageHashes) (reads : Nat → BlockRead) (stop : Nat → Bool)
    (bs vol total start : Nat) (digests : Digests) (file : List UInt8) (n : Nat) (ending : Ending)
    (report : Report) (run : Run SparseFile) : Prop where
  ends : Ends reads stop (total - start) start n ending
  file : run.sink.file =
    if ending = .stopped then writeBlocks bs (content bs vol reads) start file n
    else setLen (writeBlocks bs (content bs vol reads) start file n) vol
  digests : run.digests = digests.update (image (content bs vol reads) start n ++
    if ending = .stopped then [] else zeros (vol - min ((start + n) * bs) vol))
  hashed : run.digests.finish hashes =
    { sha256 := report.sha256, sha1 := report.sha1, md5 := report.md5 }
  counters : report.counters = countsOf bs vol reads start n
  bad : report.bad = (List.range' start n).flatMap (badOf bs vol reads) ++
    if ending = .stopped then badOf bs vol reads (start + n) else []
  aborted : report.aborted = decide (ending = .stopped)
  interruptedAt : report.interruptedAt = if ending = .interrupted then some (start + n) else none
  volsize : report.volsize = vol
  blocksize : report.blocksize = bs
  blocksTotal : report.blocksTotal = total
  calls : run.calls = (List.range' start n).map (fun b => (b + 1, total))

namespace Extracted

variable {hashes : ImageHashes} {reads : Nat → BlockRead} {stop : Nat → Bool}
  {bs vol total start n : Nat} {digests : Digests} {file : List UInt8} {ending : Ending}
  {report : Report} {run : Run SparseFile} {extra : Extra}

/-- An extraction that no block stopped leaves the bytes it hashed if and only if the old file
holds zeros wherever nothing is written now. -/
theorem image_iff
    (h : Extracted hashes reads stop bs vol total start digests file n ending report run)
    (hend : ending ≠ .stopped) (hpos : 0 < bs) (hstart : start * bs ≤ vol)
    (hholds : start * bs ≤ file.length)
    (hdigests : digests = (Digests.new extra).update (file.take (start * bs))) :
    run.sink.file = run.digests.fed ↔
      ∀ i, start * bs ≤ i → i < vol → ¬ Written bs (content bs vol reads) start n i →
        file.getD i 0 = 0 := by
  rw [h.file, h.digests, if_neg hend, if_neg hend, hdigests, Digests.update_update]
  show _ = [] ++ _ ↔ _
  rw [List.nil_append, ← List.append_assoc]
  exact setLen_writeBlocks_eq_iff hpos (content_cut bs vol reads) hstart hholds n

/-- A new image whose extraction a block stopped holds the bytes that were hashed if and only
if the block before that one was written. -/
theorem stopped_image_iff
    (h : Extracted hashes reads stop bs vol total 0 (Digests.new extra) [] n .stopped report run)
    (hpos : 0 < bs) (hn : n * bs ≤ vol) :
    run.sink.file = run.digests.fed ↔
      n = 0 ∨ allZero (content bs vol reads (n - 1)) = false := by
  rw [h.file, h.digests, if_pos rfl, if_pos rfl, List.append_nil]
  show _ = [] ++ _ ↔ _
  rw [List.nil_append]
  exact writeBlocks_eq_image_iff hpos (content_cut bs vol reads) hn

/-- The report has the digests of the file where that holds the bytes that were hashed. -/
theorem digestsOf_eq
    (h : Extracted hashes reads stop bs vol total start digests file n ending report run)
    (heq : run.sink.file = run.digests.fed) :
    digestsOf hashes digests.extra run.sink.file =
      { sha256 := report.sha256, sha1 := report.sha1, md5 := report.md5 } := by
  have hextra : digests.extra = run.digests.extra := by
    rw [h.digests]
    rfl
  rw [← h.hashed, heq, hextra]
  rfl

end Extracted

section Extraction

variable {σ : Type}

/-- The loop of an extraction, ended and closed. -/
theorem extracted_of_ended (hashes : ImageHashes) {reads : Nat → BlockRead} {stop : Nat → Bool}
    {bs vol total start : Nat} (digests : Digests) (s : SparseFile) {n : Nat} {ending : Ending}
    (hvol : vol < word) (hstart : start * bs ≤ vol)
    (hin : ∀ i, i < total - start → (start + i) * bs < vol)
    (h : Ends reads stop (total - start) start n ending) :
    ∃ report run, Run.close hashes SparseFile.sink
        (((Run.start vol bs total start digests s).absorbAll reads n start).ended reads ending
          (start + n)) = (.ok report, run) ∧
      Extracted hashes reads stop bs vol total start digests s.file n ending report run := by
  have hhashed : (Run.start vol bs total start digests s).hashedTo = min (start * bs) vol := by
    show min (mul64 start bs) vol = _
    rw [mul64_of_lt (by omega)]
  obtain ⟨hvolsize, hblocksize, htotal⟩ :=
    Run.absorbAll_sizes reads start (Run.start vol bs total start digests s) n
  have hdigests := Run.absorbAll_digests reads start (Run.start vol bs total start digests s) n
  have hfile := Run.absorbAll_file reads start (Run.start vol bs total start digests s) n
  have hbad := Run.absorbAll_bad reads start (Run.start vol bs total start digests s) n
  have hcalls := Run.absorbAll_calls reads start (Run.start vol bs total start digests s) n
  have hto := Run.absorbAll_hashedTo reads start (Run.start vol bs total start digests s) n hhashed
    (fun i hi => hin i (Nat.lt_of_lt_of_le hi h.le))
  have hcounters := Run.absorbAll_counters reads start (Run.start vol bs total start digests s) n
  obtain ⟨haborted, hmedium, hinterrupted⟩ :=
    Run.absorbAll_flags reads start (Run.start vol bs total start digests s) n
      (fun i hi => (h.goesOn i hi).2)
  generalize (Run.start vol bs total start digests s).absorbAll reads n start = run at *
  change run.report.volsize = vol at hvolsize
  change run.report.blocksize = bs at hblocksize
  change run.report.blocksTotal = total at htotal
  change run.digests = digests.update (image (content bs vol reads) start n) at hdigests
  change run.sink.file = writeBlocks bs (content bs vol reads) start s.file n at hfile
  change run.report.bad = [] ++ (List.range' start n).flatMap (badOf bs vol reads) at hbad
  change run.calls = [] ++ (List.range' start n).map (fun b => (b + 1, total)) at hcalls
  change run.hashedTo = min ((start + n) * bs) vol at hto
  change run.report.counters = 0 + countsOf bs vol reads start n at hcounters
  change run.report.aborted = false at haborted
  change run.report.interruptedAt = none at hinterrupted
  rw [List.nil_append] at hbad hcalls
  rw [zero_add] at hcounters
  have hrest : sub64 run.report.volsize run.hashedTo = vol - min ((start + n) * bs) vol := by
    rw [hvolsize, hto, sub64_of_le hvol (Nat.min_le_right _ _)]
  cases ending with
  | complete =>
    unfold Run.ended Run.close
    simp only [haborted, Bool.false_eq_true, if_false, SparseFile.sink, hrest]
    refine ⟨_, _, rfl, ?_⟩
    exact
      { ends := h
        file := by
          show setLen run.sink.file run.report.volsize = _
          rw [hfile, hvolsize]
          rfl
        digests := by
          show run.digests.update _ = _
          rw [hdigests, Digests.update_update]
          rfl
        hashed := rfl
        counters := hcounters
        bad := hbad.trans (List.append_nil _).symm
        aborted := rfl
        interruptedAt := hinterrupted
        volsize := hvolsize
        blocksize := hblocksize
        blocksTotal := htotal
        calls := hcalls }
  | interrupted =>
    unfold Run.ended Run.close
    simp only [haborted, Bool.false_eq_true, if_false, SparseFile.sink]
    refine ⟨_, _, rfl, ?_⟩
    exact
      { ends := h
        file := by
          show setLen run.sink.file run.report.volsize = _
          rw [hfile, hvolsize]
          rfl
        digests := by
          show run.digests.update (zeros (sub64 run.report.volsize run.hashedTo)) = _
          rw [hrest, hdigests, Digests.update_update]
          rfl
        hashed := rfl
        counters := hcounters
        bad := hbad.trans (List.append_nil _).symm
        aborted := rfl
        interruptedAt := rfl
        volsize := hvolsize
        blocksize := hblocksize
        blocksTotal := htotal
        calls := hcalls }
  | stopped =>
    obtain ⟨hlt, -, hstops⟩ := h.stopped rfl
    unfold Run.ended Run.halt Run.close
    cases hread : reads (start + n) with
    | stopped reason medium =>
      simp only [BlockRead.tally, if_true]
      refine ⟨_, _, rfl, ?_⟩
      exact
        { ends := h
          file := hfile
          digests := by
            show run.digests = digests.update (_ ++ [])
            rw [List.append_nil]
            exact hdigests
          hashed := rfl
          counters := hcounters
          bad := by
            show run.report.bad ++ _ = _
            rw [hbad, hvolsize, hblocksize, if_pos rfl, badOf, hread]
          aborted := rfl
          interruptedAt := hinterrupted
          volsize := hvolsize
          blocksize := hblocksize
          blocksTotal := htotal
          calls := hcalls }
    | _ =>
      rw [hread] at hstops
      cases hstops

/-- Every extraction into a sparse file leaves what its blocks gave. -/
theorem extractFrom_extracted (hashes : ImageHashes) (obj : ObjectReader (StateM σ)) {vol : Nat}
    (hvol : vol < word) (hbs : obj.dnode.datablksz ≠ 0) (onError : OnError) {start : Nat}
    (hstart : start * obj.dnode.datablksz ≤ vol) (digests : Digests) (stop : Nat → Bool)
    (file : SparseFile) (s : σ) {reads : Nat → BlockRead}
    (hreads : ∀ b, start ≤ b → reads b = readsFrom (readVolumeBlock obj onError) start s b) :
    ∃ report run,
      (extractFrom hashes obj vol SparseFile.sink onError start digests stop file s).1 =
        (.ok report, run) ∧
      Extracted hashes reads stop obj.dnode.datablksz vol (blocksTotal obj.dnode vol) start digests
        file.file (outcome reads stop (blocksTotal obj.dnode vol - start) start).1
        (outcome reads stop (blocksTotal obj.dnode vol - start) start).2 report run := by
  have hin : ∀ i, i < blocksTotal obj.dnode vol - start →
      (start + i) * obj.dnode.datablksz < vol := by
    intro i hi
    apply mul_lt_of_lt_divCeil (Nat.pos_of_ne_zero hbs)
    have hle : blocksTotal obj.dnode vol ≤ divCeil vol obj.dnode.datablksz := Nat.min_le_right _ _
    omega
  have hloop := (visitBlocks_run (readVolumeBlock obj onError) stop reads
    (blocksTotal obj.dnode vol - start) start
    (Run.start vol obj.dnode.datablksz (blocksTotal obj.dnode vol) start digests file) s hreads
    hvol hin).1
  obtain ⟨report, run, hclose, hextracted⟩ := extracted_of_ended hashes digests file hvol hstart hin
    (outcome_ends reads stop (blocksTotal obj.dnode vol - start) start)
  refine ⟨report, run, ?_, hextracted⟩
  unfold extractFrom
  simp only [if_neg hbs, bind_run]
  rw [hloop]
  exact hclose

end Extraction

end Extract
end ZvolRescue
