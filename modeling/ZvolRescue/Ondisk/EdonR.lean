import Mathlib.Order.Bounds.Defs
import ZvolRescue.Lib.Absorb
import ZvolRescue.Lib.Regions
import ZvolRescue.Ondisk.Seal

/-!
# Edon-R 512

The compression function folds over the message with its padding, in blocks of 128 bytes, whatever
pieces the message comes in (`EdonR512.finish_eq`).
-/

namespace ZvolRescue
namespace Ondisk

open Lib

/-- The little-endian words of a block. -/
def wordsOf (n : Nat) (block : List UInt8) : Vector UInt64 n :=
  Vector.ofFn (fun i => Endian.little.value ((block.drop (8 * i)).take 8))

/-- The double pipe. -/
abbrev Pipe := Vector UInt64 16

namespace EdonR512

/-- The initial double pipe. -/
def iv : Pipe :=
  #v[0x8081828384858687, 0x88898a8b8c8d8e8f, 0x9091929394959697, 0x98999a9b9c9d9e9f,
    0xa0a1a2a3a4a5a6a7, 0xa8a9aaabacadaeaf, 0xb0b1b2b3b4b5b6b7, 0xb8b9babbbcbdbebf,
    0xc0c1c2c3c4c5c6c7, 0xc8c9cacbcccdcecf, 0xd0d1d2d3d4d5d6d7, 0xd8d9dadbdcdddedf,
    0xe0e1e2e3e4e5e6e7, 0xe8e9eaebecedeeef, 0xf0f1f2f3f4f5f6f7, 0xf8f9fafbfcfdfeff]

end EdonR512

/-- A hash under way; what is in the buffer behind the bytes that count is of no use. -/
structure EdonR512 where
  pipe : Pipe
  buf : List UInt8
  buffered : Nat
  totalBytes : UInt64

namespace EdonR512

-- The compression of the words of a block into the pipe is given.
variable (q512 : Pipe → Vector UInt64 16 → Pipe)

def new : EdonR512 :=
  { pipe := iv, buf := List.replicate 128 0, buffered := 0, totalBytes := 0 }

def compress (pipe : Pipe) (block : List UInt8) : Pipe := q512 pipe (wordsOf 16 block)

/-- Fill the buffer, and compress it once it is full. -/
def topUp (s : EdonR512) (data : List UInt8) : Option (EdonR512 × List UInt8) :=
  if s.buffered > 0 then
    let n := min (128 - s.buffered) data.length
    (overwrite s.buf s.buffered (data.take n)).map (fun buf =>
      if s.buffered + n = 128 then
        ({ s with pipe := compress q512 s.pipe buf, buf := buf, buffered := 0 }, data.drop n)
      else ({ s with buf := buf, buffered := s.buffered + n }, data.drop n))
  else some (s, data)

/-- Every complete block is compressed at once; `none` where a slice is out of range. -/
def update (s : EdonR512) (data : List UInt8) : Option EdonR512 := do
  let s := { s with totalBytes := s.totalBytes + UInt64.ofNat data.length }
  let (s, data) ← topUp q512 s data
  let (pipe, data) := absorb (compress q512) 128 127 s.pipe data
  let buf ← overwrite s.buf s.buffered data
  some { s with pipe := pipe, buf := buf, buffered := s.buffered + data.length }

/-- The second half of the pipe. -/
def output (pipe : Pipe) : List UInt8 := (pipe.toList.drop 8).flatMap Endian.little.bytes

/-- Pad with `0x80`, zeros and the number of bits, in one block or in two. -/
def finish (s : EdonR512) : Option (List UInt8) := do
  let bits := s.totalBytes * 8
  let tail ← overwrite (List.replicate 256 0) 0 (s.buf.take s.buffered)
  let tail ← overwrite tail s.buffered [0x80]
  let len := if s.buffered < 120 then 128 else 256
  let tail ← overwrite tail (len - 8) (Endian.little.bytes bits)
  some (output ((blocks 128 (len / 128) tail).foldl (compress q512) s.pipe))

/-- The digest of a message in one piece. -/
def hash (data : List UInt8) : Option (List UInt8) := (update q512 new data).bind (finish q512)

/-- The salt becomes a block of its own in front of the data. -/
def zfsChecksum (salt data : List UInt8) : Option (List UInt8) := do
  let h1 ← hash q512 salt
  let block ← overwrite (List.replicate 128 0) 0 h1
  let h2 ← hash q512 h1
  let block ← overwrite block 64 h2
  let s ← update q512 new block
  let s ← update q512 s data
  let digest ← finish q512 s
  some (digest.take 32)

/-! ## A message in pieces -/

/-- What has come in, by where it stands. -/
structure Absorbed (s : EdonR512) (message : List UInt8) : Prop where
  size : s.buf.length = 128
  room : s.buffered < 128
  state : absorb (compress q512) 128 127 iv message = (s.pipe, s.buf.take s.buffered)
  total : s.totalBytes = UInt64.ofNat message.length

theorem new_absorbed : Absorbed q512 new [] where
  size := List.length_replicate
  room := by decide
  state := by
    rw [absorb_of_le (by simp)]
    rfl
  total := rfl

/-- Filling the buffer absorbs what goes into it; then it is empty or nothing is left. -/
theorem topUp_eq (s : EdonR512) (hsize : s.buf.length = 128) (hroom : s.buffered < 128)
    (data : List UInt8) :
    ∃ s' rest, topUp q512 s data = some (s', rest) ∧ s'.buf.length = 128 ∧ s'.buffered < 128 ∧
      s'.totalBytes = s.totalBytes ∧ (s'.buffered = 0 ∨ rest = []) ∧
      absorb (compress q512) 128 127 s.pipe (s.buf.take s.buffered ++ data) =
        absorb (compress q512) 128 127 s'.pipe (s'.buf.take s'.buffered ++ rest) := by
  have htake : (s.buf.take s.buffered).length = s.buffered := by
    rw [List.length_take]
    omega
  by_cases hpos : s.buffered > 0
  · obtain ⟨n, hn⟩ : ∃ n, min (128 - s.buffered) data.length = n := ⟨_, rfl⟩
    have hlen : (data.take n).length = n := by
      rw [List.length_take]
      omega
    have hwrite : overwrite s.buf s.buffered (data.take n) =
        some (s.buf.take s.buffered ++ data.take n ++ s.buf.drop (s.buffered + n)) := by
      rw [overwrite, if_pos (by omega), hlen]
    have hnew : (s.buf.take s.buffered ++ data.take n ++ s.buf.drop (s.buffered + n)).length =
        128 := by
      simp only [List.length_append, htake, hlen, List.length_drop]
      omega
    by_cases hfull : s.buffered + n = 128
    · have hgone : s.buf.drop (s.buffered + n) = [] := List.drop_eq_nil_of_le (by omega)
      rw [hgone, List.append_nil] at hwrite hnew
      have htop : topUp q512 s data =
          some ({ s with
                  pipe := compress q512 s.pipe (s.buf.take s.buffered ++ data.take n)
                  buf := s.buf.take s.buffered ++ data.take n, buffered := 0 }, data.drop n) := by
        simp only [topUp, if_pos hpos, hn, hwrite, Option.map_some, if_pos hfull]
      refine ⟨_, _, htop, hnew, Nat.succ_pos 127, rfl, .inl rfl, ?_⟩
      have hblock : s.buf.take s.buffered ++ data =
          (s.buf.take s.buffered ++ data.take n) ++ data.drop n := by
        rw [List.append_assoc, List.take_append_drop]
      rw [hblock, absorb_of_lt (by decide) (by rw [List.length_append]; omega),
        List.take_left' hnew, List.drop_left' hnew]
      rfl
    · have hall : n = data.length := by omega
      have hroom' : s.buffered + n < 128 := by omega
      have htop : topUp q512 s data =
          some ({ s with
                  buf := s.buf.take s.buffered ++ data.take n ++ s.buf.drop (s.buffered + n)
                  buffered := s.buffered + n }, data.drop n) := by
        simp only [topUp, if_pos hpos, hn, hwrite, Option.map_some, if_neg hfull]
      refine ⟨_, _, htop, hnew, hroom', rfl, .inr ?_, ?_⟩
      · rw [hall, List.drop_length]
      · have hpending : (s.buf.take s.buffered ++ data.take n).length = s.buffered + n := by
          rw [List.length_append, htake, hlen]
        rw [List.take_left' hpending, hall, List.take_length, List.drop_length, List.append_nil]
  · exact ⟨s, data, by rw [topUp, if_neg hpos], hsize, hroom, rfl, .inl (by omega), rfl⟩

variable {q512}

/-- A piece is absorbed after what came before it. -/
theorem Absorbed.update {s : EdonR512} {message : List UInt8} (h : Absorbed q512 s message)
    (data : List UInt8) :
    ∃ s', EdonR512.update q512 s data = some s' ∧ Absorbed q512 s' (message ++ data) := by
  obtain ⟨s', rest, htop, hsize, hroom, htotal, hempty, habsorb⟩ :=
    topUp_eq q512 { s with totalBytes := s.totalBytes + UInt64.ofNat data.length } h.size h.room
      data
  obtain ⟨pipe, left, hrest⟩ :
      ∃ pipe left, absorb (compress q512) 128 127 s'.pipe rest = (pipe, left) := ⟨_, _, rfl⟩
  have hpending : (s'.buf.take s'.buffered).length = s'.buffered := by
    rw [List.length_take]
    omega
  have hmessage : absorb (compress q512) 128 127 iv (message ++ data) =
      absorb (compress q512) 128 127 s'.pipe (s'.buf.take s'.buffered ++ rest) := by
    rw [absorb_append (by decide) (by decide), h.state]
    exact habsorb
  have hnew : s'.buffered + left.length ≤ 127 ∧
      absorb (compress q512) 128 127 s'.pipe (s'.buf.take s'.buffered ++ rest) =
        (pipe, s'.buf.take s'.buffered ++ left) := by
    rcases hempty with hzero | hnil
    · have hle : (absorb (compress q512) 128 127 s'.pipe rest).2.length ≤ 127 :=
        absorb_length_le (by decide) _ _
      rw [hrest] at hle
      rw [hzero, List.take_zero, List.nil_append, List.nil_append, hrest, Nat.zero_add]
      exact ⟨hle, rfl⟩
    · rw [hnil, absorb_of_le (Nat.zero_le _)] at hrest
      cases hrest
      rw [hnil, List.append_nil, absorb_of_le (by omega)]
      exact ⟨Nat.le_of_lt_succ hroom, rfl⟩
  obtain ⟨hleft, hstate⟩ := hnew
  obtain ⟨buf, hwrite, hbuf, htake⟩ := take_overwrite s'.buf left
    (show s'.buffered + left.length ≤ s'.buf.length by omega)
  refine ⟨{ s' with pipe := pipe, buf := buf, buffered := s'.buffered + left.length }, ?_,
    { size := hbuf.trans hsize, room := Nat.lt_succ_of_le hleft, state := ?_, total := ?_ }⟩
  · simp only [EdonR512.update, htop, Option.bind_eq_bind, Option.bind_some, hrest, hwrite]
  · rw [hmessage, hstate, ← htake]
  · rw [List.length_append, UInt64.ofNat_add, ← h.total]
    exact htotal

theorem absorbed_foldlM {s : EdonR512} {message : List UInt8} (h : Absorbed q512 s message)
    (pieces : List (List UInt8)) :
    ∃ s', pieces.foldlM (EdonR512.update q512) s = some s' ∧
      Absorbed q512 s' (message ++ pieces.flatten) := by
  induction pieces generalizing s message with
  | nil => exact ⟨s, rfl, by simpa using h⟩
  | cons piece pieces ih =>
    obtain ⟨s1, hupdate, h1⟩ := h.update piece
    obtain ⟨s2, hrest, h2⟩ := ih h1
    refine ⟨s2, ?_, by simpa using h2⟩
    rw [List.foldlM_cons, hupdate]
    exact hrest

/-! ## The digest -/

/-- A message, `0x80`, zeros and the number of bits in 64. -/
def padded (zeros : Nat) (message : List UInt8) : List UInt8 :=
  message ++ 0x80 ::
    (List.replicate zeros 0 ++ Endian.little.bytes (UInt64.ofNat (8 * message.length)))

/-- The compression folded over the blocks of a message. -/
def fold (q512 : Pipe → Vector UInt64 16 → Pipe) (message : List UInt8) : Pipe :=
  (blocks 128 (message.length / 128) message).foldl (compress q512) iv

/-- A digest is of a message with the least padding that fills a block. -/
def IsDigest (q512 : Pipe → Vector UInt64 16 → Pipe) (message digest : List UInt8) : Prop :=
  ∃ zeros, IsLeast {n | 128 ∣ message.length + 1 + n + 8} zeros ∧
    digest = output (fold q512 (padded zeros message))

/-- Absorbing folds over the whole blocks. -/
theorem absorb_fst (pipe : Pipe) (data : List UInt8) :
    (absorb (compress q512) 128 127 pipe data).1 =
      (blocks 128 (data.length / 128) data).foldl (compress q512) pipe := by
  have hcount : data.length + 128 - 1 - 127 = data.length := by omega
  simp only [absorb_eq (f := compress q512) (by decide : 0 < 128) (by decide : 128 ≤ 127 + 1),
    hcount]

/-- The blocks at the end are what was kept back, and its padding. -/
theorem finish_tail {pending bits : List UInt8} {len : Nat} (hbits : bits.length = 8)
    (hlen : pending.length < 120 ∧ len = 128 ∨
      120 ≤ pending.length ∧ pending.length < 128 ∧ len = 256) :
    ∃ rest, (overwrite (List.replicate 256 0) 0 pending).bind (fun tail =>
        (overwrite tail pending.length [0x80]).bind (fun tail =>
          overwrite tail (len - 8) bits)) =
      some (pending ++ 0x80 :: (List.replicate (len - 9 - pending.length) 0 ++ bits) ++ rest) := by
  have hfirst : overwrite (List.replicate 256 0) 0 pending =
      some (pending ++ List.replicate (256 - pending.length) 0) := by
    rw [overwrite, if_pos (by rw [List.length_replicate]; omega), List.take_zero,
      List.nil_append, Nat.zero_add, List.drop_replicate]
  have hsecond : overwrite (pending ++ List.replicate (256 - pending.length) 0) pending.length
      [0x80] = some (pending ++ 0x80 :: List.replicate (255 - pending.length) 0) := by
    have hdrop : (pending ++ List.replicate (256 - pending.length) (0 : UInt8)).drop
        (pending.length + 1) = List.replicate (255 - pending.length) 0 := by
      rw [List.drop_append, List.drop_eq_nil_of_le (by omega), List.nil_append,
        List.drop_replicate]
      congr 1
      omega
    rw [overwrite, if_pos (by simp; omega), List.take_left, List.length_singleton, hdrop,
      List.append_assoc, List.singleton_append]
  have htake : (pending ++ (0x80 : UInt8) :: List.replicate (255 - pending.length) 0).take
      (len - 8) = pending ++ 0x80 :: List.replicate (len - 9 - pending.length) 0 := by
    have hone : len - 8 - pending.length = len - 9 - pending.length + 1 := by omega
    rw [List.take_append, List.take_of_length_le (by omega), hone, List.take_succ_cons,
      List.take_replicate]
    congr 3
    omega
  have hthird : overwrite (pending ++ 0x80 :: List.replicate (255 - pending.length) 0) (len - 8)
      bits = some (pending ++ 0x80 :: List.replicate (len - 9 - pending.length) 0 ++ bits ++
        (pending ++ (0x80 : UInt8) :: List.replicate (255 - pending.length) 0).drop
          (len - 8 + bits.length)) := by
    rw [overwrite, if_pos (by simp; omega), htake]
  refine ⟨(pending ++ (0x80 : UInt8) :: List.replicate (255 - pending.length) 0).drop
    (len - 8 + bits.length), ?_⟩
  rw [hfirst, Option.bind_some, hsecond, Option.bind_some, hthird, List.append_assoc pending,
    List.cons_append]

/-- Finishing gives the digest of what has come in. -/
theorem Absorbed.finish {s : EdonR512} {message : List UInt8} (h : Absorbed q512 s message) :
    ∃ digest, EdonR512.finish q512 s = some digest ∧ IsDigest q512 message digest := by
  obtain ⟨pending, hpending⟩ : ∃ pending, s.buf.take s.buffered = pending := ⟨_, rfl⟩
  have hsize := h.size
  have hroom := h.room
  have hbuffered : s.buffered = pending.length := by
    rw [← hpending, List.length_take]
    omega
  have hstate := h.state
  rw [hpending] at hstate
  have hmod : pending.length = message.length % 128 := by
    have hrest : pending = message.drop (128 * ((message.length + 128 - 1 - 127) / 128)) :=
      congrArg Prod.snd (hstate.symm.trans (absorb_eq (by decide) (by decide) iv message))
    rw [hrest, List.length_drop]
    omega
  obtain ⟨len, hlen⟩ : ∃ len, (if s.buffered < 120 then 128 else 256) = len := ⟨_, rfl⟩
  have hcases : pending.length < 120 ∧ len = 128 ∨
      120 ≤ pending.length ∧ pending.length < 128 ∧ len = 256 := by
    rw [hbuffered] at hlen
    split at hlen <;> omega
  have hbits : Endian.little.bytes (s.totalBytes * 8) =
      Endian.little.bytes (UInt64.ofNat (8 * message.length)) := by
    rw [h.total, Nat.mul_comm, UInt64.ofNat_mul]
    rfl
  obtain ⟨rest, htail⟩ := finish_tail (Endian.bytes_length .little (s.totalBytes * 8)) hcases
  obtain ⟨last, hlast⟩ : ∃ last, pending ++ 0x80 ::
      (List.replicate (len - 9 - pending.length) 0 ++ Endian.little.bytes (s.totalBytes * 8)) =
        last := ⟨_, rfl⟩
  have hlength : last.length = len := by
    rw [← hlast]
    simp only [List.length_append, List.length_cons, List.length_replicate, Endian.bytes_length]
    omega
  have hfold : fold q512 (padded (len - 9 - pending.length) message) =
      (blocks 128 (len / 128) last).foldl (compress q512) s.pipe := by
    rw [fold, ← absorb_fst, padded, absorb_append (by decide) (by decide), hstate, ← hbits, hlast,
      absorb_fst, hlength]
  rw [hlast] at htail
  refine ⟨_, ?_, len - 9 - pending.length, ⟨?_, fun n hn => ?_⟩, rfl⟩
  · rw [hfold, ← blocks_append (b := rest) (by omega : 128 * (len / 128) ≤ last.length)]
    obtain ⟨t, ht, htail⟩ := Option.bind_eq_some_iff.mp htail
    obtain ⟨t', ht', htail⟩ := Option.bind_eq_some_iff.mp htail
    rw [hbuffered] at hpending hlen
    simp only [EdonR512.finish, hbuffered, hpending, hlen, ht, ht', htail, Option.bind_eq_bind,
      Option.bind_some]
  · show 128 ∣ message.length + 1 + (len - 9 - pending.length) + 8
    omega
  · have hn : 128 ∣ message.length + 1 + n + 8 := hn
    omega

theorem finish_eq (pieces : List (List UInt8)) :
    ∃ digest, (pieces.foldlM (EdonR512.update q512) new).bind (EdonR512.finish q512) =
      some digest ∧ IsDigest q512 pieces.flatten digest := by
  obtain ⟨s, hfold, habsorbed⟩ := absorbed_foldlM (new_absorbed q512) pieces
  obtain ⟨digest, hfinish, hdigest⟩ := habsorbed.finish
  exact ⟨digest, by rw [hfold, Option.bind_some, hfinish], hdigest⟩

variable (q512) in
theorem hash_eq (data : List UInt8) :
    ∃ digest, hash q512 data = some digest ∧ IsDigest q512 data digest := by
  obtain ⟨s, hupdate, habsorbed⟩ := (new_absorbed q512).update data
  obtain ⟨digest, hfinish, hdigest⟩ := habsorbed.finish
  exact ⟨digest, by rw [hash, hupdate, Option.bind_some, hfinish], hdigest⟩

theorem digest_length {message digest : List UInt8} (h : IsDigest q512 message digest) :
    digest.length = 64 := by
  obtain ⟨zeros, -, rfl⟩ := h
  simp [output, List.length_flatMap, Endian.bytes_length]

/-- Two digests fill a block. -/
theorem block_eq {h1 h2 : List UInt8} (hlen1 : h1.length = 64) (hlen2 : h2.length = 64) :
    ∃ block, overwrite (List.replicate 128 0) 0 h1 = some block ∧
      overwrite block 64 h2 = some (h1 ++ h2) := by
  refine ⟨h1 ++ List.replicate 64 0, ?_, ?_⟩
  · rw [overwrite, if_pos (by rw [List.length_replicate]; omega), List.take_zero,
      List.nil_append, Nat.zero_add, List.drop_replicate, hlen1]
  · rw [overwrite, if_pos (by simp; omega), List.take_left' hlen1,
      List.drop_eq_nil_of_le (by simp; omega), List.append_nil]

/-- The salt is hashed twice, and what comes of that stands before the data. -/
theorem zfsChecksum_eq (salt data : List UInt8) :
    ∃ h1 h2 digest, zfsChecksum q512 salt data = some (digest.take 32) ∧
      IsDigest q512 salt h1 ∧ IsDigest q512 h1 h2 ∧ IsDigest q512 (h1 ++ h2 ++ data) digest := by
  obtain ⟨h1, hhash1, hdigest1⟩ := hash_eq q512 salt
  obtain ⟨h2, hhash2, hdigest2⟩ := hash_eq q512 h1
  obtain ⟨block, hfirst, hsecond⟩ := block_eq (digest_length hdigest1) (digest_length hdigest2)
  obtain ⟨s, hupdate, habsorbed⟩ := (new_absorbed q512).update (h1 ++ h2)
  obtain ⟨s', hupdate', habsorbed'⟩ := habsorbed.update data
  obtain ⟨digest, hfinish, hdigest⟩ := habsorbed'.finish
  refine ⟨h1, h2, digest, ?_, hdigest1, hdigest2, hdigest⟩
  simp only [zfsChecksum, hhash1, hfirst, hhash2, hsecond, hupdate, hupdate', hfinish,
    Option.bind_eq_bind, Option.bind_some]

end EdonR512

end Ondisk
end ZvolRescue
