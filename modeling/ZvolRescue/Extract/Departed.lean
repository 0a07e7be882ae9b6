import ZvolRescue.Extract.Honoured

/-!
# The state that any run leaves

A run starts where the state it takes up says, and leaves a state of the blocks before the
last one it took in, or, killed before its first checkpoint, the state that was there
(`Target.Sound.leave_state`).
-/

namespace ZvolRescue
namespace Extract

open Lib Ondisk Zio Dmu

section Runs

variable {σ : Type}

/-- How many blocks a run takes in that starts at `start`. -/
def Target.taken (t : Target (StateM σ)) (opts : DumpOptions) (stop : Nat → Bool) (start : Nat)
    (s : σ) : Departure → Nat
  | .killed (.atBlock n _) =>
    (Extract.outcome (t.reads opts start s) stop (min n (t.blocks - start)) start).1
  | _ => (t.outcome opts stop start s).1

variable {t : Target (StateM σ)} {opts : DumpOptions} {out : Output}

/-- The calls of `progress` in a loop over `left` blocks from `start` on. -/
theorem Target.Sound.loop_calls (ht : t.Sound) (opts : DumpOptions) (stop : Nat → Bool) (s : σ)
    (digests : Digests) (sink : SparseFile) {start left : Nat} (hleft : left ≤ t.blocks - start) :
    ∃ run : Run SparseFile,
      (visitBlocks (readVolumeBlock t.obj opts.onError) SparseFile.sink stop left start
        (Run.start t.volsize t.blocksize t.blocks start digests sink) s).1 = (.ok (), run) ∧
      run.calls = (List.range' start (Extract.outcome (t.reads opts start s) stop left start).1).map
        (fun b => (b + 1, t.blocks)) := by
  have hin : ∀ i, i < left → (start + i) * t.blocksize < t.volsize := by
    intro i hi
    apply mul_lt_of_lt_divCeil (Nat.pos_of_ne_zero ht.blocksize)
    have hle : t.blocks ≤ divCeil t.volsize t.blocksize := Nat.min_le_right _ _
    omega
  obtain ⟨hrun, -⟩ := visitBlocks_run (readVolumeBlock t.obj opts.onError) stop
    (t.reads opts start s) left start (Run.start t.volsize t.blocksize t.blocks start digests sink)
    s (fun _ _ => rfl) ht.volsize hin
  refine ⟨_, hrun, ?_⟩
  rw [Run.ended_calls, Run.absorbAll_calls]
  rfl

/-- What a killed run leaves: some file, and the checkpoints of the blocks it took in. -/
theorem Target.Sound.killed_checkpoints (ht : t.Sound) (opts : DumpOptions)
    (stop due : Nat → Bool) (out : Output) (s : σ) (kill : KillPoint) :
    ∃ file, (dumpKilled t opts stop due kill out s).1 =
      checkpoints t.expected due { out with image := some file }
        ((List.range' (t.opened opts out).1
          (t.taken opts stop (t.opened opts out).1 s (.killed kill))).map
            (fun b => (b + 1, t.blocks))) := by
  generalize hopened : t.opened opts out = opened
  obtain ⟨start, digests, sink⟩ := opened
  simp only [Target.opened] at hopened
  cases kill with
  | atBlock n torn =>
    obtain ⟨run, hrun, hcalls⟩ := ht.loop_calls opts stop s digests sink
      (Nat.min_le_right n (t.blocks - start))
    simp only [Target.blocks, Target.blocksize] at hrun
    simp only [dumpKilled, hopened, bind_run, hrun]
    split
    · rw [bind_run, hcalls]
      exact ⟨_, rfl⟩
    · rw [hcalls]
      exact ⟨_, rfl⟩
  | finished =>
    obtain ⟨run, hrun, hcalls⟩ := ht.loop_calls opts stop s digests sink
      (Nat.le_refl (t.blocks - start))
    simp only [Target.blocks, Target.blocksize] at hrun
    simp only [dumpKilled, hopened, bind_run, hrun]
    rw [hcalls]
    exact ⟨_, rfl⟩

/-- The state a run leaves is of its own image and of blocks up to those it took in, unless
it was killed before it wrote one. -/
theorem Target.Sound.leave_state (ht : t.Sound) (hstarts : t.Starts opts out)
    (hashes : ImageHashes) (stop due : Nat → Bool) (s : σ) (how : Departure) {st : State}
    (hstate : (t.leave opts stop hashes due out s how).state = some st) :
    (st.key = t.expected.key ∧ st.blocksDone < t.blocks ∧
      st.blocksDone ≤ (t.opened opts out).1 + t.taken opts stop (t.opened opts out).1 s how) ∨
    (out.state = some st ∧ ∃ kill, how = .killed kill ∧
      ∀ b, (t.opened opts out).1 < b →
        b ≤ (t.opened opts out).1 + t.taken opts stop (t.opened opts out).1 s how →
        b < t.blocks → due b = false) := by
  cases how with
  | ended =>
    left
    obtain ⟨d, run, hex, -, hdump⟩ := ht.dumpOne hstarts hashes stop due s
    rw [Target.leave, hdump] at hstate
    show _ ∧ _ ∧ _ ≤ _ + (t.outcome opts stop (t.opened opts out).1 s).1
    simp only at hstate
    generalize t.outcome opts stop (t.opened opts out).1 s = o at hex hstate ⊢
    generalize (t.opened opts out).1 = start at hex hstate ⊢
    obtain ⟨n, ending⟩ := o
    cases ending with
    | complete => simp at hstate
    | interrupted =>
      rw [if_neg (by simp), doneBlocks_interrupted hex] at hstate
      cases hstate
      have := (hex.ends.interrupted rfl).1
      exact ⟨rfl, by simp only; omega, Nat.le_refl _⟩
    | stopped =>
      rw [if_neg (by simp)] at hstate
      cases hstate
      have hle : doneBlocks d.report start ≤ start + n := (doneBlocks_stopped hex).2
      have := (hex.ends.stopped rfl).1
      exact ⟨rfl, by simp only; omega, hle⟩
  | killed kill =>
    obtain ⟨file, hleave⟩ := ht.killed_checkpoints opts stop due out s kill
    rw [Target.leave, hleave] at hstate
    rcases checkpoints_state t.expected due _ { out with image := some file } with
      ⟨hst, hnone⟩ | ⟨c, hc, hlt, hst⟩
    · right
      rw [hst] at hstate
      refine ⟨hstate, kill, rfl, ?_⟩
      intro b hlow hhigh hblocks
      by_contra hdue
      have hmem := hnone (b - 1 + 1, t.blocks) (List.mem_map.mpr
        ⟨b - 1, List.mem_range'_1.mpr ⟨by omega, by omega⟩, rfl⟩)
      rw [Nat.sub_add_cancel (by omega)] at hmem
      exact hmem ⟨by simpa using hdue, hblocks⟩
    · left
      obtain ⟨i, hi, rfl⟩ := List.mem_map.mp hc
      have := (List.mem_range'_1.mp hi).2
      rw [hst] at hstate
      cases hstate
      exact ⟨rfl, hlt, by simp only; omega⟩

end Runs

end Extract
end ZvolRescue
