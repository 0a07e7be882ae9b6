import ZvolRescue.Extract.Resumed

/-!
# Taking up what a fresh run left

A run leaves a state when it is interrupted or stopped, and every few seconds on the way.
The blocks the state claims can be read back only where the file reaches the end of the last
of them (`resume_state_honoured_iff`).
-/

namespace ZvolRescue
namespace Extract

open Lib Ondisk Zio Dmu

/-- How a run comes to its end. -/
inductive Departure where
  | ended
  | killed (kill : KillPoint)

section Runs

variable {σ : Type}

namespace Target

variable (t : Target (StateM σ)) (opts : DumpOptions) (stop : Nat → Bool)

/-- What a run leaves at its output. -/
def leave (hashes : ImageHashes) (due : Nat → Bool) (out : Output) (s : σ) : Departure → Output
  | .ended => (Extract.dumpOne hashes t opts stop due out s).1.2
  | .killed kill => (dumpKilled t opts stop due kill out s).1

/-- How many blocks a fresh run takes in. -/
def visited (s : σ) : Departure → Nat
  | .killed (.atBlock n _) => (Extract.outcome (t.reads opts 0 s) stop (min n t.blocks) 0).1
  | _ => (t.outcome opts stop 0 s).1

/-- A fresh run is killed while it writes the block after those. -/
def Tears (s : σ) : Departure → Prop
  | .killed (.atBlock n torn) =>
    t.visited opts stop s (.killed (.atBlock n torn)) = n ∧ n < t.blocks ∧ stop n = false ∧ 0 < torn
  | _ => False

/-- A fresh run sets the length of the file. -/
def SetsLength (s : σ) : Departure → Prop
  | .killed (.atBlock _ _) => False
  | _ => (t.outcome opts stop 0 s).2 ≠ .stopped

/-- A killed run has written a state. -/
def Checkpointed (due : Nat → Bool) (s : σ) : Departure → Prop
  | .ended => True
  | .killed kill =>
    ∃ b, 0 < b ∧ b ≤ t.visited opts stop s (.killed kill) ∧ b < t.blocks ∧ due b = true

end Target

/-! ## The state -/

/-- The state after the checkpoints of a run is the last one that was due. -/
theorem checkpoints_state (expected : State) (due : Nat → Bool) (calls : List (Nat × Nat))
    (out : Output) :
    ((checkpoints expected due out calls).state = out.state ∧
        ∀ c ∈ calls, ¬ (due c.1 = true ∧ c.1 < c.2)) ∨
      ∃ c ∈ calls, c.1 < c.2 ∧ (checkpoints expected due out calls).state =
        some { expected.key with blocksDone := c.1 } := by
  induction calls generalizing out with
  | nil => exact Or.inl ⟨rfl, fun c hc => absurd hc (List.not_mem_nil)⟩
  | cons call calls ih =>
    by_cases hdue : due call.1 = true ∧ call.1 < call.2
    · have hcons : checkpoints expected due out (call :: calls) =
          checkpoints expected due (out.writeState expected call.1) calls := by
        simp only [checkpoints, List.foldl_cons, if_pos hdue]
      rw [hcons]
      rcases ih (out.writeState expected call.1) with ⟨hst, -⟩ | ⟨c, hc, hlt, hst⟩
      · exact Or.inr ⟨call, List.mem_cons_self, hdue.2, hst⟩
      · exact Or.inr ⟨c, List.mem_cons_of_mem _ hc, hlt, hst⟩
    · have hcons : checkpoints expected due out (call :: calls) =
          checkpoints expected due out calls := by
        simp only [checkpoints, List.foldl_cons, if_neg hdue]
      rw [hcons]
      rcases ih out with ⟨hst, hnone⟩ | ⟨c, hc, hlt, hst⟩
      · refine Or.inl ⟨hst, ?_⟩
        intro c hc
        rcases List.mem_cons.mp hc with rfl | hc
        · exact hdue
        · exact hnone c hc
      · exact Or.inr ⟨c, List.mem_cons_of_mem _ hc, hlt, hst⟩

/-- The checkpoints of a run that took in `n` blocks. -/
theorem checkpoints_range (expected : State) {due : Nat → Bool} {n total : Nat} (out : Output)
    (h : ∃ b, 0 < b ∧ b ≤ n ∧ b < total ∧ due b = true) :
    ∃ k, k ≤ n ∧ k < total ∧
      (checkpoints expected due out ((List.range' 0 n).map (fun b => (b + 1, total)))).state =
        some { expected.key with blocksDone := k } := by
  obtain ⟨b, hpos, hle, hlt, hdue⟩ := h
  rcases checkpoints_state expected due ((List.range' 0 n).map (fun b => (b + 1, total))) out with
    ⟨-, hnone⟩ | ⟨c, hc, hlt, hst⟩
  · have hmem : (b, total) ∈ (List.range' 0 n).map (fun b => (b + 1, total)) :=
      List.mem_map.mpr ⟨b - 1, List.mem_range'_1.mpr ⟨Nat.zero_le _, by omega⟩, by
        rw [Nat.sub_add_cancel hpos]⟩
    exact absurd ⟨hdue, hlt⟩ (hnone _ hmem)
  · obtain ⟨i, hi, rfl⟩ := List.mem_map.mp hc
    have := (List.mem_range'_1.mp hi).2
    exact ⟨i + 1, by omega, hlt, hst⟩

/-! ## What a fresh run leaves -/

variable {t : Target (StateM σ)} {opts : DumpOptions}

/-- The file a fresh run leaves reads like its blocks, and how far it reaches. -/
structure Left (t : Target (StateM σ)) (opts : DumpOptions) (stop : Nat → Bool) (s : σ)
    (how : Departure) (out : Output) (file : List UInt8) : Prop where
  image : out.image = some file
  reads : ∀ i, i < t.visited opts stop s how * t.blocksize → i < t.volsize →
    file.getD i 0 =
      (writeBlocks t.blocksize (t.blockOf opts 0 s) 0 [] (t.visited opts stop s how)).getD i 0
  reaches : ∀ k, 0 < k → k ≤ t.visited opts stop s how → k * t.blocksize ≤ t.volsize →
    (k * t.blocksize ≤ file.length ↔ t.SetsLength opts stop s how ∨
      ∃ b, k - 1 ≤ b ∧ (b < t.visited opts stop s how ∨
        b = t.visited opts stop s how ∧ t.Tears opts stop s how) ∧
        allZero (t.blockOf opts 0 s b) = false)

section Files

variable {stop : Nat → Bool} {s : σ} {how : Departure} {out : Output}

theorem Target.blockOf_cut (t : Target (StateM σ)) (opts : DumpOptions) (s : σ) :
    Cut t.blocksize (t.blockOf opts 0 s) t.volsize :=
  content_cut t.blocksize t.volsize (t.reads opts 0 s)

/-- A file whose length is set reaches every block. -/
theorem left_of_setLen
    (himage : out.image = some (setLen (writeBlocks t.blocksize (t.blockOf opts 0 s) 0 []
      (t.visited opts stop s how)) t.volsize))
    (hset : t.SetsLength opts stop s how) :
    Left t opts stop s how out (setLen (writeBlocks t.blocksize (t.blockOf opts 0 s) 0 []
      (t.visited opts stop s how)) t.volsize) := by
  refine ⟨himage, ?_, ?_⟩
  · intro i _ hi
    exact setLen_getD _ hi
  · intro k _ _ hk
    rw [setLen_length]
    exact iff_of_true hk (Or.inl hset)

/-- A file that the last block leaves alone reaches as far as the blocks written before. -/
theorem left_of_writeBlocks (ht : t.Sound)
    (himage : out.image = some (writeBlocks t.blocksize (t.blockOf opts 0 s) 0 []
      (t.visited opts stop s how)))
    (hset : ¬ t.SetsLength opts stop s how)
    (htears : t.Tears opts stop s how →
      allZero (t.blockOf opts 0 s (t.visited opts stop s how)) = true) :
    Left t opts stop s how out (writeBlocks t.blocksize (t.blockOf opts 0 s) 0 []
      (t.visited opts stop s how)) := by
  refine ⟨himage, fun _ _ _ => rfl, ?_⟩
  intro k hpos _ hk
  rw [le_new_length_iff (Nat.pos_of_ne_zero ht.blocksize) (t.blockOf_cut opts s) hpos hk]
  constructor
  · rintro ⟨b, hlow, hhigh, hz⟩
    exact Or.inr ⟨b, hlow, Or.inl hhigh, hz⟩
  · rintro (h | ⟨b, hlow, hhigh | ⟨rfl, htear⟩, hz⟩)
    · exact absurd h hset
    · exact ⟨b, hlow, hhigh, hz⟩
    · rw [htears htear] at hz
      cases hz

/-- A file with a torn block reaches into it. -/
theorem left_of_torn {n torn : Nat} (hn : t.visited opts stop s how = n)
    (himage : out.image = some (writeAt (writeBlocks t.blocksize (t.blockOf opts 0 s) 0 [] n)
      (n * t.blocksize) ((t.blockOf opts 0 s n).take torn)))
    (htears : t.Tears opts stop s how) (hz : allZero (t.blockOf opts 0 s n) = false) :
    Left t opts stop s how out (writeAt (writeBlocks t.blocksize (t.blockOf opts 0 s) 0 [] n)
      (n * t.blocksize) ((t.blockOf opts 0 s n).take torn)) := by
  subst hn
  refine ⟨himage, ?_, ?_⟩
  · intro i hi _
    rw [writeAt_getD, if_neg (by omega)]
  · intro k hpos hle hk
    refine iff_of_true ?_ (Or.inr ⟨_, by omega, Or.inr ⟨rfl, htears⟩, hz⟩)
    have hmul : k * t.blocksize ≤ t.visited opts stop s how * t.blocksize :=
      Nat.mul_le_mul_right _ hle
    rw [writeAt_length]
    omega

/-- The loop of a fresh run over its first `left` blocks. -/
theorem Target.Sound.loop (ht : t.Sound) (opts : DumpOptions) (stop : Nat → Bool) (s : σ) {left : Nat}
    (hleft : left ≤ t.blocks) :
    ∃ run : Run SparseFile,
      (visitBlocks (readVolumeBlock t.obj opts.onError) SparseFile.sink stop left 0
        (Run.start t.volsize t.blocksize t.blocks 0 (Digests.new opts.hash) SparseFile.create)
        s).1 = (.ok (), run) ∧
      run.sink.file = writeBlocks t.blocksize (t.blockOf opts 0 s) 0 []
        (Extract.outcome (t.reads opts 0 s) stop left 0).1 ∧
      run.calls = (List.range' 0 (Extract.outcome (t.reads opts 0 s) stop left 0).1).map
        (fun b => (b + 1, t.blocks)) ∧
      run.report.aborted =
        decide ((Extract.outcome (t.reads opts 0 s) stop left 0).2 = .stopped) ∧
      ((Extract.outcome (t.reads opts 0 s) stop left 0).2 = .complete →
        (visitBlocks (readVolumeBlock t.obj opts.onError) SparseFile.sink stop left 0
          (Run.start t.volsize t.blocksize t.blocks 0 (Digests.new opts.hash) SparseFile.create)
          s).2 = stateAt (readVolumeBlock t.obj opts.onError) left 0 s) := by
  have hin : ∀ i, i < left → (0 + i) * t.blocksize < t.volsize := by
    intro i hi
    apply mul_lt_of_lt_divCeil (Nat.pos_of_ne_zero ht.blocksize)
    have hle : t.blocks ≤ divCeil t.volsize t.blocksize := Nat.min_le_right _ _
    omega
  obtain ⟨hrun, hstate⟩ := visitBlocks_run (readVolumeBlock t.obj opts.onError) stop
    (t.reads opts 0 s) left 0
    (Run.start t.volsize t.blocksize t.blocks 0 (Digests.new opts.hash) SparseFile.create) s
    (fun _ _ => rfl) ht.volsize hin
  have hends := outcome_ends (t.reads opts 0 s) stop left 0
  refine ⟨_, hrun, ?_, ?_, ?_, hstate⟩
  · rw [Run.ended_sink, Run.absorbAll_file]
    rfl
  · rw [Run.ended_calls, Run.absorbAll_calls]
    rfl
  · apply Run.ended_aborted
    · exact (Run.absorbAll_flags _ _ _ _ (fun i hi => (hends.goesOn i hi).2)).1
    · intro h
      exact (hends.stopped h).2.2

/-- The bytes that are written for a block of the image. -/
theorem payload_eq {read : BlockRead} {bs len : Nat}
    (h : allZero (read.bytes bs len) = false) : read.payload bs len = read.bytes bs len := by
  cases read with
  | data b => rfl
  | partly b ranges reason => rfl
  | _ =>
    simp only [BlockRead.bytes, zeros, allZero_replicate] at h
    cases h

theorem allZero_payload {read : BlockRead} {bs len : Nat}
    (h : allZero (read.bytes bs len) = true) : allZero (read.payload bs len) = true := by
  cases read with
  | data b => exact h
  | partly b ranges reason => exact h
  | _ => rfl

/-- What a fresh run leaves that is killed. -/
theorem Target.Sound.killed (ht : t.Sound) (hfresh : opts.resume = false)
    (stop due : Nat → Bool) (out : Output) (s : σ) (kill : KillPoint) :
    ∃ file, (dumpKilled t opts stop due kill out s).1 =
        checkpoints t.expected due { out with image := some file }
          ((List.range' 0 (t.visited opts stop s (.killed kill))).map
            (fun b => (b + 1, t.blocks))) ∧
      Left t opts stop s (.killed kill) { out with image := some file } file := by
  have hopened : openOutput out t.expected opts.hash opts.resume =
      (0, Digests.new opts.hash, SparseFile.create) := by
    rw [hfresh, openOutput_fresh]
  cases kill with
  | atBlock n torn =>
    obtain ⟨run, hrun, hfile, hcalls, -, hstate⟩ :=
      ht.loop opts stop s (Nat.min_le_right n t.blocks)
    have hends := outcome_ends (t.reads opts 0 s) stop (min n t.blocks) 0
    have hlength : run.calls.length = t.visited opts stop s (.killed (.atBlock n torn)) := by
      rw [hcalls, List.length_map, List.length_range']
      rfl
    simp only [Target.blocks, Target.blocksize] at hrun hstate
    simp only [dumpKilled, hopened, bind_run, Nat.sub_zero, hrun, Nat.zero_add]
    by_cases hgoes : run.calls.length = n ∧ n < blocksTotal t.obj.dnode t.volsize ∧ stop n = false
    · have hn : t.visited opts stop s (.killed (.atBlock n torn)) = n := hlength.symm.trans hgoes.1
      have hmin : min n (blocksTotal t.obj.dnode t.volsize) = n := Nat.min_eq_left hgoes.2.1.le
      have hcomplete := hends.complete_of_le ((Nat.min_le_left n t.blocks).trans hn.ge)
      refine ⟨tear run.sink.file (n * t.blocksize) torn
        ((t.reads opts 0 s n).payload t.blocksize (blockLen t.blocksize t.volsize n)), ?_, ?_⟩
      · rw [if_pos hgoes, hcalls, bind_run, hstate hcomplete, hmin]
        rfl
      · by_cases hz : allZero (t.blockOf opts 0 s n) = true
        · rw [tear, if_pos (Or.inl (allZero_payload hz)), hfile]
          refine left_of_writeBlocks ht rfl (fun h => h) (fun _ => ?_)
          rw [hn]
          exact hz
        · have hwritten : allZero (t.blockOf opts 0 s n) = false := by simpa using hz
          have hpayload : (t.reads opts 0 s n).payload t.blocksize
              (blockLen t.blocksize t.volsize n) = t.blockOf opts 0 s n := payload_eq hwritten
          rw [hpayload]
          by_cases htorn : torn = 0
          · rw [tear, if_pos (Or.inr htorn), hfile]
            refine left_of_writeBlocks ht rfl (fun h => h) (fun h => ?_)
            have := h.2.2.2
            omega
          · have htears : t.Tears opts stop s (.killed (.atBlock n torn)) :=
              ⟨hn, hgoes.2.1, hgoes.2.2, Nat.pos_of_ne_zero htorn⟩
            have hcount : (Extract.outcome (t.reads opts 0 s) stop (min n t.blocks) 0).1 = n := hn
            rw [tear, if_neg (fun h => h.elim hz htorn), hfile, hcount]
            exact left_of_torn hn rfl htears hwritten
    · refine ⟨run.sink.file, ?_, ?_⟩
      · rw [if_neg hgoes, hcalls]
        rfl
      · rw [hfile]
        refine left_of_writeBlocks ht rfl (fun h => h) ?_
        intro h
        exact absurd ⟨hlength.trans h.1, h.2.1, h.2.2.1⟩ hgoes
  | finished =>
    obtain ⟨run, hrun, hfile, hcalls, haborted, -⟩ := ht.loop opts stop s (Nat.le_refl t.blocks)
    refine ⟨if run.report.aborted then run.sink.file else (run.sink.finish t.volsize).file, ?_, ?_⟩
    · simp only [Target.blocks, Target.blocksize] at hrun
      simp only [dumpKilled, hopened, bind_run, Nat.sub_zero, hrun]
      rw [hcalls]
      rfl
    · by_cases hend : (t.outcome opts stop 0 s).2 = .stopped
      · rw [if_pos (haborted.trans (decide_eq_true hend)), hfile]
        exact left_of_writeBlocks ht rfl (fun h => h hend) (fun h => h.elim)
      · have hfinished : run.report.aborted = false := haborted.trans (decide_eq_false hend)
        rw [hfinished, if_neg Bool.false_ne_true, SparseFile.finish, hfile]
        exact left_of_setLen rfl hend

/-- The file a fresh run leaves, however it comes to its end. -/
theorem Target.Sound.left (ht : t.Sound) (hfresh : opts.resume = false) (hashes : ImageHashes)
    (stop due : Nat → Bool) (out : Output) (s : σ) (how : Departure) :
    ∃ file, Left t opts stop s how (t.leave opts stop hashes due out s how) file := by
  cases how with
  | ended =>
    have hopened : t.opened opts out = (0, Digests.new opts.hash, SparseFile.create) := by
      rw [Target.opened, hfresh, openOutput_fresh]
    obtain ⟨d, run, hex, -, hdump⟩ := ht.dumpOne (t.starts_fresh out hfresh) hashes stop due s
    rw [hopened] at hex hdump
    have himage : (t.leave opts stop hashes due out s .ended).image = some run.sink.file := by
      rw [Target.leave, hdump]
    have hfile := hex.file
    by_cases hend : (t.outcome opts stop 0 s).2 = .stopped
    · rw [if_pos hend] at hfile
      rw [hfile] at himage
      exact ⟨_, left_of_writeBlocks ht himage (fun h => h hend) (fun h => h.elim)⟩
    · rw [if_neg hend] at hfile
      rw [hfile] at himage
      exact ⟨_, left_of_setLen himage hend⟩
  | killed kill =>
    obtain ⟨file, hleave, hleft⟩ := ht.killed hfresh stop due out s kill
    refine ⟨file, ?_, hleft.reads, hleft.reaches⟩
    rw [Target.leave, hleave, checkpoints_image]

/-- The state a fresh run leaves is of its image, and of blocks it took in. -/
theorem Target.Sound.left_state (ht : t.Sound) (hfresh : opts.resume = false)
    (hashes : ImageHashes) {stop due : Nat → Bool} (out : Output) {s : σ} {how : Departure}
    (hcheck : t.Checkpointed opts stop due s how) {st : State}
    (hstate : (t.leave opts stop hashes due out s how).state = some st) :
    st.key = t.expected.key ∧ st.blocksDone ≤ t.visited opts stop s how ∧
      st.blocksDone < t.blocks := by
  cases how with
  | ended =>
    have hopened : t.opened opts out = (0, Digests.new opts.hash, SparseFile.create) := by
      rw [Target.opened, hfresh, openOutput_fresh]
    obtain ⟨d, run, hex, -, hdump⟩ := ht.dumpOne (t.starts_fresh out hfresh) hashes stop due s
    rw [Target.leave, hdump, hopened] at hstate
    rw [hopened] at hex
    show _ ∧ _ ≤ (t.outcome opts stop 0 s).1 ∧ _
    simp only at hstate
    generalize t.outcome opts stop 0 s = o at hex hstate
    obtain ⟨n, ending⟩ := o
    cases ending with
    | complete => simp at hstate
    | interrupted =>
      rw [if_neg (by simp), doneBlocks_interrupted hex] at hstate
      cases hstate
      have := (hex.ends.interrupted rfl).1
      exact ⟨rfl, by simp only; omega, by simp only; omega⟩
    | stopped =>
      rw [if_neg (by simp)] at hstate
      cases hstate
      have hle : doneBlocks d.report 0 ≤ 0 + n := (doneBlocks_stopped hex).2
      have := (hex.ends.stopped rfl).1
      exact ⟨rfl, by simp only; omega, by simp only; omega⟩
  | killed kill =>
    obtain ⟨file, hleave, -⟩ := ht.killed hfresh stop due out s kill
    obtain ⟨k, hle, hlt, hst⟩ := checkpoints_range t.expected
      { out with image := some file } hcheck
    rw [Target.leave, hleave, hst] at hstate
    cases hstate
    exact ⟨rfl, hle, hlt⟩

end Files

/-- A run that resumes starts at block `k`, with the digests of `bytes`. -/
def TakesUp (out : Output) (expected : State) (extra : Extra) (k : Nat) (bytes : List UInt8) :
    Prop :=
  (openOutput out expected extra true).1 = k ∧
    (openOutput out expected extra true).2.1 = (Digests.new extra).update bytes

/-- The state of a fresh run is taken up if and only if it claims nothing, the run set the
length of the file, or the last block it claims or a later one was written. -/
theorem resume_state_honoured_iff (ht : t.Sound) (hfresh : opts.resume = false)
    (hashes : ImageHashes) (stop due : Nat → Bool) (out : Output) (s : σ) (how : Departure)
    (hcheck : t.Checkpointed opts stop due s how) {st : State}
    (hstate : (t.leave opts stop hashes due out s how).state = some st) (extra : Extra) :
    TakesUp (t.leave opts stop hashes due out s how) t.expected extra st.blocksDone
        (image (t.blockOf opts 0 s) 0 st.blocksDone) ↔
    st.blocksDone = 0 ∨ t.SetsLength opts stop s how ∨
      ∃ b, st.blocksDone - 1 ≤ b ∧ (b < t.visited opts stop s how ∨
        b = t.visited opts stop s how ∧ t.Tears opts stop s how) ∧
        allZero (t.blockOf opts 0 s b) = false := by
  have hpos := Nat.pos_of_ne_zero ht.blocksize
  obtain ⟨file, hleft⟩ := ht.left hfresh hashes stop due out s how
  obtain ⟨hkey, hvisited, hblocks⟩ := ht.left_state hfresh hashes out hcheck hstate
  have hvol : st.blocksDone * t.blocksize ≤ t.volsize :=
    Nat.le_of_lt (mul_lt_of_lt_divCeil hpos (Nat.lt_of_lt_of_le hblocks (Nat.min_le_right _ _)))
  have hfit : st.blocksDone * t.expected.blocksize < word := Nat.lt_of_le_of_lt hvol ht.volsize
  rw [TakesUp, openOutput_state extra hstate hkey hleft.image hfit]
  by_cases hzero : st.blocksDone = 0
  · refine iff_of_true ?_ (Or.inl hzero)
    rw [if_neg (by omega), hzero, image, Digests.update_nil]
    exact ⟨rfl, rfl⟩
  have hreach := hleft.reaches st.blocksDone (Nat.pos_of_ne_zero hzero) hvisited hvol
  rw [or_iff_right hzero, ← hreach]
  constructor
  · intro h
    by_contra hshort
    rw [if_neg (fun h => hshort h.2)] at h
    exact hzero h.1.symm
  · intro hlen
    rw [if_pos ⟨Nat.pos_of_ne_zero hzero, hlen⟩]
    refine ⟨rfl, congrArg _ (take_eq_image hpos (t.blockOf_cut opts s) hvisited hvol hlen ?_)⟩
    intro i hi
    have hmul : st.blocksDone * t.blocksize ≤ t.visited opts stop s how * t.blocksize :=
      Nat.mul_le_mul_right _ hvisited
    exact hleft.reads i (by omega) (by omega)

end Runs

/-! ## A hole before the block that stops a run -/

/-- Block 1 is interrupted, or cannot be read, after the first. -/
def stateAtOne (t : Target (StateM Unit)) : State := { t.expected with blocksDone := 1 }

theorem resume_state_honoured_iff_sevens :
    TakesUp ((tornTarget (some (List.replicate 512 7))).leave strictOptions never someHashes never
        ⟨none, none⟩ () .ended) (tornTarget (some (List.replicate 512 7))).expected ⟨true, false⟩ 1
      (image ((tornTarget (some (List.replicate 512 7))).blockOf strictOptions 0 ()) 0 1) := by
  have hstate : ((tornTarget (some (List.replicate 512 7))).leave strictOptions never someHashes
      never ⟨none, none⟩ () .ended).state =
        some (stateAtOne (tornTarget (some (List.replicate 512 7)))) := by
    decide
  refine (resume_state_honoured_iff (tornTarget_sound _) rfl someHashes never never ⟨none, none⟩ ()
    .ended True.intro hstate ⟨true, false⟩).mpr (Or.inr (Or.inr ⟨0, by decide, Or.inl ?_, ?_⟩))
  · decide
  · decide

/-- The hole is done and the file stays empty, so that the next run starts over. -/
theorem resume_state_starts_over :
    ¬ ∀ (σ : Type) (hashes : ImageHashes) (t : Target (StateM σ)) (opts : DumpOptions)
        (stop due : Nat → Bool) (out : Output) (s : σ) (how : Departure) (st : State)
        (extra : Extra), t.Sound → opts.resume = false → t.Checkpointed opts stop due s how →
      (t.leave opts stop hashes due out s how).state = some st →
      TakesUp (t.leave opts stop hashes due out s how) t.expected extra st.blocksDone
        (image (t.blockOf opts 0 s) 0 st.blocksDone) := by
  intro h
  have hstate : ((tornTarget none).leave strictOptions never someHashes never ⟨none, none⟩ ()
      .ended).state = some (stateAtOne (tornTarget none)) := by
    decide
  have htake := (h Unit someHashes (tornTarget none) strictOptions never never ⟨none, none⟩ ()
    .ended _ ⟨false, false⟩ (tornTarget_sound none) rfl True.intro hstate).1
  have hstart : (openOutput ((tornTarget none).leave strictOptions never someHashes never
      ⟨none, none⟩ () .ended) (tornTarget none).expected ⟨false, false⟩ true).1 = 0 := by
    decide
  rw [hstart] at htake
  cases htake

end Extract
end ZvolRescue
