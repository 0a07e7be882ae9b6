import Mathlib.Data.List.Basic

/-!
# Absorbing a message block by block

A hash takes whole blocks off the front of what has come in and keeps the rest.  One that keeps less
than a block and one that keeps back a full one differ only in how much they keep; for both the
pieces that a message comes in do not matter (`absorb_append`).
-/

namespace ZvolRescue
namespace Lib

variable {α σ : Type*}

/-- Take blocks of this size while more than so much is there. -/
def absorb (f : σ → List α → σ) (size keep : Nat) (s : σ) (data : List α) : σ × List α :=
  if keep < data.length ∧ 0 < size then
    absorb f size keep (f s (data.take size)) (data.drop size)
  else (s, data)
termination_by data.length
decreasing_by
  rw [List.length_drop]
  omega

/-- The first blocks of a message, so many of them. -/
def blocks (size n : Nat) (data : List α) : List (List α) :=
  (List.range n).map (fun i => (data.drop (size * i)).take size)

theorem blocks_succ (size n : Nat) (data : List α) :
    blocks size (n + 1) data = data.take size :: blocks size n (data.drop size) := by
  unfold blocks
  rw [List.range_succ_eq_map, List.map_cons, List.map_map, Nat.mul_zero, List.drop_zero]
  refine congrArg (data.take size :: ·) (List.map_congr_left (fun i _ => ?_))
  rw [Function.comp_apply, List.drop_drop, Nat.mul_succ, Nat.add_comm]

/-- Only as much of the message as the blocks take counts. -/
theorem blocks_append {size n : Nat} {a : List α} (h : size * n ≤ a.length) (b : List α) :
    blocks size n (a ++ b) = blocks size n a := by
  unfold blocks
  refine List.map_congr_left (fun i hi => ?_)
  have hin : size * i + size ≤ a.length :=
    Nat.le_trans (Nat.mul_le_mul_left size (List.mem_range.mp hi)) h
  rw [List.drop_append_of_le_length (by omega), List.take_append_of_le_length]
  rw [List.length_drop]
  omega

variable {f : σ → List α → σ} {size keep : Nat}

theorem absorb_of_le {data : List α} (h : data.length ≤ keep) (s : σ) :
    absorb f size keep s data = (s, data) := by
  rw [absorb, if_neg (by omega)]

theorem absorb_of_lt (hsize : 0 < size) {data : List α} (h : keep < data.length) (s : σ) :
    absorb f size keep s data = absorb f size keep (f s (data.take size)) (data.drop size) := by
  rw [absorb, if_pos ⟨h, hsize⟩]

theorem absorb_length_le (hsize : 0 < size) (s : σ) (data : List α) :
    (absorb f size keep s data).2.length ≤ keep := by
  induction s, data using absorb.induct f size keep with
  | case1 s data h ih => rwa [absorb_of_lt hsize h.1]
  | case2 s data h =>
    have hle : data.length ≤ keep := by omega
    rwa [absorb_of_le hle]

/-- What is kept back stands before what comes next. -/
theorem absorb_append (hsize : 0 < size) (hkeep : size ≤ keep + 1) (s : σ) (a b : List α) :
    absorb f size keep s (a ++ b) =
      absorb f size keep (absorb f size keep s a).1 ((absorb f size keep s a).2 ++ b) := by
  induction s, a using absorb.induct f size keep with
  | case1 s a h ih =>
    have hlen : size ≤ a.length := by omega
    rw [absorb_of_lt hsize h.1, ← ih, absorb_of_lt hsize (by rw [List.length_append]; omega),
      List.take_append_of_le_length hlen, List.drop_append_of_le_length hlen]
  | case2 s a h =>
    have hle : a.length ≤ keep := by omega
    rw [absorb_of_le hle]

/-- The blocks that are taken, one after another, and what is left. -/
theorem absorb_eq (hsize : 0 < size) (hkeep : size ≤ keep + 1) (s : σ) (data : List α) :
    absorb f size keep s data =
      (let n := (data.length + size - 1 - keep) / size
       ((blocks size n data).foldl f s, data.drop (size * n))) := by
  induction s, data using absorb.induct f size keep with
  | case1 s data h ih =>
    have hcount : (data.length + size - 1 - keep) / size =
        ((data.drop size).length + size - 1 - keep) / size + 1 := by
      rw [← Nat.add_div_right _ hsize, List.length_drop]
      congr 1
      omega
    rw [absorb_of_lt hsize h.1, ih, hcount]
    simp only [blocks_succ, List.foldl_cons, List.drop_drop, Nat.mul_succ]
    rw [Nat.add_comm size]
  | case2 s data h =>
    have hzero : (data.length + size - 1 - keep) / size = 0 := Nat.div_eq_of_lt (by omega)
    have hle : data.length ≤ keep := by omega
    rw [absorb_of_le hle, hzero]
    rfl

end Lib
end ZvolRescue
