import ZvolRescue.Extract.Sink
import ZvolRescue.Lib.Word

/-!
# Taking up an extraction

A state file next to the image says how many blocks of it are complete.  `openOutput` reads
back the prefix that a state claims, and starts over where the state or the prefix is not
there.
-/

namespace ZvolRescue
namespace Extract

open Lib

/-- Resume state written next to the output image. -/
structure State where
  version : Nat
  dataset : String
  datasetGuid : String
  txg : Nat
  volsize : Nat
  blocksize : Nat
  /-- The blocks before this one are complete in the output. -/
  blocksDone : Nat
  deriving DecidableEq, Repr

/-- What has to agree for a state to belong to an image: everything but the count. -/
def State.key (s : State) : State := { s with blocksDone := 0 }

/-- The image at a path and the state next to it. -/
structure Output where
  image : Option (List UInt8)
  state : Option State
  deriving DecidableEq, Repr

namespace Output

def writeState (out : Output) (expected : State) (blocksDone : Nat) : Output :=
  { out with state := some { expected.key with blocksDone } }

def clearState (out : Output) : Output := { out with state := none }

end Output

/-- Feed `left` bytes of a file to the digests, a MiB at a time; `none` where the file ends
before that. -/
def readBack : (rounds : Nat) → (rest : List UInt8) → (left : Nat) → Digests → Option Digests
  | 0, _, _, d => some d
  | rounds + 1, rest, left, d =>
    if left = 0 then some d
    else
      let n := min left (2 ^ 20)
      if rest.length < n then none
      else readBack rounds (rest.drop n) (left - n) (d.update (rest.take n))

/-- The block to start at, the digests fed with what the image already holds, and the sink. -/
def openOutput (out : Output) (expected : State) (extra : Extra) (resume : Bool) :
    Nat × Digests × SparseFile :=
  let anew := (0, Digests.new extra, SparseFile.create)
  if resume then
    match out.state with
    | none => anew
    | some s =>
      if s.key = expected.key then
        match out.image with
        | none => anew
        | some file =>
          let claimed := mul64 s.blocksDone expected.blocksize
          match readBack claimed file claimed (Digests.new extra) with
          | none => anew
          | some digests =>
            if s.blocksDone > 0 then (s.blocksDone, digests, SparseFile.openExisting file)
            else (0, digests, SparseFile.create)
      else anew
  else anew

theorem readBack_eq : ∀ rounds (rest : List UInt8) left d, left ≤ rounds →
    readBack rounds rest left d =
      if left ≤ rest.length then some (d.update (rest.take left)) else none := by
  intro rounds
  induction rounds with
  | zero =>
    intro rest left d hle
    have hleft : left = 0 := by omega
    rw [hleft, if_pos (Nat.zero_le _), List.take_zero, Digests.update_nil]
    rfl
  | succ rounds ih =>
    intro rest left d hle
    unfold readBack
    by_cases hleft : left = 0
    · rw [if_pos hleft, hleft, if_pos (Nat.zero_le _), List.take_zero, Digests.update_nil]
    · rw [if_neg hleft]
      have hn : min left (2 ^ 20) ≤ left := Nat.min_le_left _ _
      have hpos : 0 < min left (2 ^ 20) := Nat.lt_min.mpr ⟨by omega, by decide⟩
      generalize min left (2 ^ 20) = n at hn hpos
      by_cases hshort : rest.length < n
      · rw [if_pos hshort, if_neg (by omega)]
      · rw [if_neg hshort, ih _ _ _ (by omega), Digests.update_update, List.length_drop]
        by_cases hlen : left ≤ rest.length
        · rw [if_pos (by omega), if_pos hlen, ← List.take_add, Nat.add_sub_cancel' hn]
        · rw [if_neg (by omega), if_neg hlen]

theorem openOutput_fresh (out : Output) (expected : State) (extra : Extra) :
    openOutput out expected extra false = (0, Digests.new extra, SparseFile.create) := rfl

/-- A state of this image is taken up exactly where the file is as long as it claims. -/
theorem openOutput_state {out : Output} {expected st : State} (extra : Extra) {file : List UInt8}
    (hstate : out.state = some st) (hkey : st.key = expected.key) (himage : out.image = some file)
    (hfit : st.blocksDone * expected.blocksize < word) :
    openOutput out expected extra true =
      if 0 < st.blocksDone ∧ st.blocksDone * expected.blocksize ≤ file.length then
        (st.blocksDone,
          (Digests.new extra).update (file.take (st.blocksDone * expected.blocksize)),
          SparseFile.openExisting file)
      else (0, Digests.new extra, SparseFile.create) := by
  unfold openOutput
  simp only [if_true, hstate, hkey, himage, mul64_of_lt hfit, readBack_eq _ _ _ _ (Nat.le_refl _)]
  by_cases hlen : st.blocksDone * expected.blocksize ≤ file.length
  · simp only [if_pos hlen]
    by_cases hpos : 0 < st.blocksDone
    · rw [if_pos hpos, if_pos ⟨hpos, hlen⟩]
    · have hzero : st.blocksDone = 0 := by omega
      rw [if_neg hpos, if_neg (fun h => hpos h.1), hzero, Nat.zero_mul, List.take_zero,
        Digests.update_nil]
  · simp only [if_neg hlen]
    rw [if_neg (fun h => hlen h.2)]

/-- What `openOutput` yields: a prefix of the image that has been hashed, or a new file. -/
structure Opened (out : Output) (expected : State) (extra : Extra)
    (opened : Nat × Digests × SparseFile) : Prop where
  holds : opened.1 * expected.blocksize ≤ opened.2.2.file.length
  digests : opened.2.1 =
    (Digests.new extra).update (opened.2.2.file.take (opened.1 * expected.blocksize))
  new : opened.1 = 0 → opened.2.2.file = []
  origin : opened.1 = 0 ∨ ∃ st, out.state = some st ∧ st.key = expected.key ∧
    opened.1 = st.blocksDone ∧ out.image = some opened.2.2.file

theorem opened_anew (out : Output) (expected : State) (extra : Extra) :
    Opened out expected extra (0, Digests.new extra, SparseFile.create) where
  holds := by simp
  digests := by simp [Digests.update_nil]
  new := fun _ => rfl
  origin := Or.inl rfl

theorem openOutput_opened (out : Output) (expected : State) (extra : Extra) (resume : Bool)
    (hfit : ∀ st, out.state = some st → st.key = expected.key →
      st.blocksDone * expected.blocksize < word) :
    Opened out expected extra (openOutput out expected extra resume) := by
  cases resume with
  | false => exact opened_anew _ _ _
  | true =>
    cases hstate : out.state with
    | none =>
      simp only [openOutput, hstate, if_true]
      exact opened_anew _ _ _
    | some st =>
      by_cases hkey : st.key = expected.key
      · cases himage : out.image with
        | none =>
          simp only [openOutput, hstate, hkey, himage, if_true]
          exact opened_anew _ _ _
        | some file =>
          rw [openOutput_state extra hstate hkey himage (hfit st hstate hkey)]
          by_cases h : 0 < st.blocksDone ∧ st.blocksDone * expected.blocksize ≤ file.length
          · rw [if_pos h]
            exact
              { holds := h.2
                digests := rfl
                new := fun hz => absurd hz (Nat.pos_iff_ne_zero.mp h.1)
                origin := Or.inr ⟨st, hstate, hkey, rfl, himage⟩ }
          · rw [if_neg h]
            exact opened_anew _ _ _
      · simp only [openOutput, hstate, if_neg hkey, if_true]
        exact opened_anew _ _ _

end Extract
end ZvolRescue
