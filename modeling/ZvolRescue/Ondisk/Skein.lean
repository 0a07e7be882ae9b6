import ZvolRescue.Ondisk.EdonR

/-!
# Skein-512

The full last block is held back, so that it can be marked as the final one: absorbing a message in
any pieces makes the chain of unique block iterations over it (`Skein512.finish_eq`).
-/

namespace ZvolRescue
namespace Ondisk

open Lib

/-- The chaining value and the tweak. -/
structure Chain where
  x : Vector UInt64 8
  t0 : UInt64
  t1 : UInt64

namespace Skein512

def schemaVer : UInt64 := ((1 : UInt64) <<< 32) ||| 0x33414853

def flagFirst : UInt64 := (1 : UInt64) <<< 62

def flagFinal : UInt64 := (1 : UInt64) <<< 63

def typeKey : UInt64 := 0

def typeCfg : UInt64 := 4

def typeMsg : UInt64 := 48

def typeOut : UInt64 := 63

end Skein512

/-- A hash under way; the buffer is of use up to `bcnt`. -/
structure Skein512 where
  chain : Chain
  buf : List UInt8
  bcnt : Nat
  hashBits : UInt64

namespace Skein512

/-- A compression: chaining value, tweak and words of a block. -/
abbrev Compression := Vector UInt64 8 → UInt64 → UInt64 → Vector UInt64 8 → Vector UInt64 8

-- The cipher with its feed-forward is given.
variable (core : Compression)

/-- One block: its bytes count first, and no block after it is the first. -/
def threefishUbi (c : Chain) (block : List UInt8) (byteCount : Nat) : Chain :=
  let t0 := c.t0 + UInt64.ofNat byteCount
  { x := core c.x t0 c.t1 (wordsOf 8 block), t0 := t0, t1 := c.t1 &&& ~~~flagFirst }

/-- A block of 64 bytes that is not the last. -/
def wholeBlock (c : Chain) (block : List UInt8) : Chain := threefishUbi core c block 64

def startType (kind : UInt64) (final : Bool) (s : Skein512) : Skein512 :=
  { s with
    chain :=
      { s.chain with
        t0 := 0
        t1 := (kind <<< 56) ||| flagFirst ||| (if final then flagFinal else 0) }
    bcnt := 0 }

/-- Complete the block in the buffer, if there is one. -/
def flush (s : Skein512) (msg : List UInt8) : Option (Skein512 × List UInt8) :=
  if s.bcnt > 0 then
    (overwrite s.buf s.bcnt (msg.take (64 - s.bcnt))).map (fun buf =>
      ({ s with chain := wholeBlock core s.chain buf, buf := buf, bcnt := 0 },
        msg.drop (64 - s.bcnt)))
  else some (s, msg)

/-- Take the whole blocks that are not the last. -/
def fill (s : Skein512) (msg : List UInt8) : Option (Skein512 × List UInt8) :=
  if msg.length + s.bcnt > 64 then do
    let (s, msg) ← flush core s msg
    let (chain, msg) := absorb (wholeBlock core) 64 64 s.chain msg
    some ({ s with chain := chain }, msg)
  else some (s, msg)

/-- The last block, full or not, is held back; `none` where a slice is out of range. -/
def update (s : Skein512) (msg : List UInt8) : Option Skein512 := do
  let (s, msg) ← fill core s msg
  let buf ← overwrite s.buf s.bcnt msg
  some { s with buf := buf, bcnt := s.bcnt + msg.length }

/-- The block that was held back is the final one. -/
def finalPad (s : Skein512) : Skein512 :=
  let buf := s.buf.take s.bcnt ++ List.replicate (64 - s.bcnt) 0
  { s with
    chain := threefishUbi core { s.chain with t1 := s.chain.t1 ||| flagFinal } buf s.bcnt
    buf := buf }

def config (hashBits : UInt64) : List UInt8 :=
  Endian.little.bytes schemaVer ++ Endian.little.bytes hashBits ++ List.replicate 48 0

def initial : Skein512 :=
  { chain := { x := Vector.replicate 8 0, t0 := 0, t1 := 0 }, buf := List.replicate 64 0, bcnt := 0
    hashBits := 512 }

/-- A message of its own is made of the key, unless that is empty. -/
def keyed (key : List UInt8) : Option Skein512 :=
  if key.isEmpty then some initial
  else (update core (startType typeKey false initial) key).map (finalPad core)

/-- The configuration is one block, and the message comes next. -/
def configure (hashBits : UInt64) (s : Skein512) : Skein512 :=
  let s := startType typeCfg true { s with hashBits := hashBits }
  startType typeMsg false { s with chain := threefishUbi core s.chain (config hashBits) 32 }

/-- A hash of so many bits. -/
def new (hashBits : UInt64) (key : List UInt8) : Option Skein512 :=
  (keyed core key).map (configure core hashBits)

def wordsBytes (x : Vector UInt64 8) : List UInt8 := x.toList.flatMap Endian.little.bytes

theorem wordsBytes_length (x : Vector UInt64 8) : (wordsBytes x).length = 64 := by
  simp [wordsBytes, List.length_flatMap, Endian.bytes_length]

def counter (i : UInt64) : List UInt8 := Endian.little.bytes i ++ List.replicate 56 0

/-- Blocks of output until there are so many bytes. -/
def outputFrom (bytes : Nat) (s : Skein512) (chain : Vector UInt64 8) (i : UInt64)
    (out : List UInt8) : List UInt8 :=
  if out.length < bytes then
    let s := startType typeOut true { s with chain := { s.chain with x := chain } }
    let s := { s with chain := threefishUbi core s.chain (counter i) 8 }
    outputFrom bytes s chain (i + 1) (out ++ wordsBytes s.chain.x)
  else out.take bytes
termination_by bytes - out.length
decreasing_by
  rw [List.length_append, wordsBytes_length]
  omega

def finish (s : Skein512) : List UInt8 :=
  let s := finalPad core s
  outputFrom core ((s.hashBits.toNat + 7) / 8) s s.chain.x 0 []

/-- Keyed, with a digest of 32 bytes. -/
def mac (key data : List UInt8) : Option (List UInt8) := do
  let s ← new core 256 key
  let s ← update core s data
  some (finish core s)

/-! ## The chain -/

/-- A block, with zeros behind it. -/
def zeroPadded (block : List UInt8) : List UInt8 :=
  block ++ List.replicate (64 - block.length) 0

/-- The type, and whether a block is the first of a message and the last. -/
def tweak (kind : UInt64) (first last : Bool) : UInt64 :=
  (kind <<< 56) ||| (if first then flagFirst else 0) ||| (if last then flagFinal else 0)

/-- One of so many blocks, by its number: the bytes so far, the flags, and zeros behind the last. -/
def ubiStep (kind : UInt64) (message : List UInt8) (n : Nat) (x : Vector UInt64 8) (i : Nat) :
    Vector UInt64 8 :=
  core x (UInt64.ofNat (min (64 * (i + 1)) message.length)) (tweak kind (i = 0) (i + 1 = n))
    (wordsOf 8 (zeroPadded ((message.drop (64 * i)).take 64)))

/-- Unique block iteration over the blocks of a message, of which there is at least one. -/
def ubi (kind : UInt64) (x : Vector UInt64 8) (message : List UInt8) : Vector UInt64 8 :=
  let n := max 1 ((message.length + 63) / 64)
  (List.range n).foldl (ubiStep core kind message n) x

/-- The configuration string. -/
def configString (hashBits : UInt64) : List UInt8 :=
  Endian.little.bytes schemaVer ++ Endian.little.bytes hashBits ++ List.replicate 16 0

/-- The first blocks of output, under counters of their own. -/
def outputBlocks (chain : Vector UInt64 8) (n : Nat) : List UInt8 :=
  (List.range n).flatMap (fun i =>
    wordsBytes (ubi core typeOut chain (Endian.little.bytes (UInt64.ofNat i))))

/-- The chain over key, configuration and message, and the output of counted blocks. -/
def digest (hashBits : UInt64) (key message : List UInt8) : List UInt8 :=
  let zero : Vector UInt64 8 := Vector.replicate 8 0
  let keyed := if key.isEmpty then zero else ubi core typeKey zero key
  let configured := ubi core typeCfg keyed (configString hashBits)
  let chain := ubi core typeMsg configured message
  let bytes := (hashBits.toNat + 7) / 8
  (outputBlocks core chain ((bytes + 63) / 64)).take bytes

/-! ## A message in pieces -/

/-- What has come in of a message of this type, by where it stands. -/
structure Absorbed (kind : UInt64) (x : Vector UInt64 8) (s : Skein512) (message : List UInt8) :
    Prop where
  size : s.buf.length = 64
  room : s.bcnt ≤ 64
  state : absorb (wholeBlock core) 64 64 { x := x, t0 := 0, t1 := tweak kind true false } message =
    (s.chain, s.buf.take s.bcnt)

theorem absorbed_startType (kind : UInt64) (s : Skein512) (hsize : s.buf.length = 64) :
    Absorbed core kind s.chain.x (startType kind false s) [] where
  size := hsize
  room := Nat.zero_le 64
  state := by
    rw [absorb_of_le (Nat.zero_le 64)]
    rfl

theorem flush_eq {s : Skein512} (hsize : s.buf.length = 64) (hroom : s.bcnt ≤ 64)
    {msg : List UInt8} (hmore : msg.length + s.bcnt > 64) :
    ∃ s' rest, flush core s msg = some (s', rest) ∧ s'.buf.length = 64 ∧ s'.bcnt = 0 ∧
      s'.hashBits = s.hashBits ∧
      absorb (wholeBlock core) 64 64 s.chain (s.buf.take s.bcnt ++ msg) =
        absorb (wholeBlock core) 64 64 s'.chain rest := by
  have hpending : (s.buf.take s.bcnt).length = s.bcnt := by
    rw [List.length_take]
    omega
  by_cases hpos : s.bcnt > 0
  · have hlen : (msg.take (64 - s.bcnt)).length = 64 - s.bcnt := by
      rw [List.length_take]
      omega
    have hblock : (s.buf.take s.bcnt ++ msg.take (64 - s.bcnt)).length = 64 := by
      rw [List.length_append, hpending, hlen]
      omega
    have hwrite : overwrite s.buf s.bcnt (msg.take (64 - s.bcnt)) =
        some (s.buf.take s.bcnt ++ msg.take (64 - s.bcnt)) := by
      rw [overwrite, if_pos (by omega), List.drop_eq_nil_of_le (by omega), List.append_nil]
    have hflush : flush core s msg =
        some ({ s with
                chain := wholeBlock core s.chain (s.buf.take s.bcnt ++ msg.take (64 - s.bcnt))
                buf := s.buf.take s.bcnt ++ msg.take (64 - s.bcnt), bcnt := 0 },
          msg.drop (64 - s.bcnt)) := by
      rw [flush, if_pos hpos, hwrite, Option.map_some]
    refine ⟨_, _, hflush, hblock, rfl, rfl, ?_⟩
    have hsplit : s.buf.take s.bcnt ++ msg =
        (s.buf.take s.bcnt ++ msg.take (64 - s.bcnt)) ++ msg.drop (64 - s.bcnt) := by
      rw [List.append_assoc, List.take_append_drop]
    rw [absorb_of_lt (by decide) (by rw [List.length_append]; omega), hsplit,
      List.take_left' hblock, List.drop_left' hblock]
  · have hzero : s.bcnt = 0 := by omega
    exact ⟨s, msg, by rw [flush, if_neg hpos], hsize, hzero, rfl,
      by rw [hzero, List.take_zero, List.nil_append]⟩

/-- Filling absorbs what does not have to be held back. -/
theorem fill_eq {s : Skein512} (hsize : s.buf.length = 64) (hroom : s.bcnt ≤ 64)
    (msg : List UInt8) :
    ∃ s' rest, fill core s msg = some (s', rest) ∧ s'.buf.length = 64 ∧
      s'.bcnt + rest.length ≤ 64 ∧ s'.hashBits = s.hashBits ∧
      absorb (wholeBlock core) 64 64 s.chain (s.buf.take s.bcnt ++ msg) =
        (s'.chain, s'.buf.take s'.bcnt ++ rest) := by
  have hpending : (s.buf.take s.bcnt).length = s.bcnt := by
    rw [List.length_take]
    omega
  by_cases hmore : msg.length + s.bcnt > 64
  · obtain ⟨s', rest, hflush, hsize', hzero, hbits, habsorb⟩ := flush_eq core hsize hroom hmore
    obtain ⟨chain, left, hrest⟩ :
        ∃ chain left, absorb (wholeBlock core) 64 64 s'.chain rest = (chain, left) := ⟨_, _, rfl⟩
    have hle : (absorb (wholeBlock core) 64 64 s'.chain rest).2.length ≤ 64 :=
      absorb_length_le (by decide) _ _
    rw [hrest] at hle habsorb
    refine ⟨{ s' with chain := chain }, left, ?_, hsize', ?_, hbits, ?_⟩
    · simp only [fill, if_pos hmore, hflush, Option.bind_eq_bind, Option.bind_some, hrest]
    · rw [hzero, Nat.zero_add]
      exact hle
    · rw [habsorb, hzero, List.take_zero, List.nil_append]
  · exact ⟨s, msg, by rw [fill, if_neg hmore], hsize, by omega, rfl,
      absorb_of_le (by rw [List.length_append]; omega) _⟩

variable {core}

/-- A piece is absorbed after what came before it. -/
theorem Absorbed.update {kind : UInt64} {x : Vector UInt64 8} {s : Skein512}
    {message : List UInt8} (h : Absorbed core kind x s message) (msg : List UInt8) :
    ∃ s', Skein512.update core s msg = some s' ∧ Absorbed core kind x s' (message ++ msg) ∧
      s'.hashBits = s.hashBits := by
  obtain ⟨s', rest, hfill, hsize, hroom, hbits, habsorb⟩ := fill_eq core h.size h.room msg
  obtain ⟨buf, hwrite, hbuf, htake⟩ := take_overwrite s'.buf rest
    (show s'.bcnt + rest.length ≤ s'.buf.length by omega)
  refine ⟨{ s' with buf := buf, bcnt := s'.bcnt + rest.length }, ?_,
    { size := hbuf.trans hsize, room := hroom, state := ?_ }, hbits⟩
  · simp only [Skein512.update, hfill, Option.bind_eq_bind, Option.bind_some, hwrite]
  · rw [absorb_append (by decide) (by decide), h.state, habsorb, ← htake]

theorem absorbed_foldlM {kind : UInt64} {x : Vector UInt64 8} {s : Skein512}
    {message : List UInt8} (h : Absorbed core kind x s message) (pieces : List (List UInt8)) :
    ∃ s', pieces.foldlM (Skein512.update core) s = some s' ∧
      Absorbed core kind x s' (message ++ pieces.flatten) ∧ s'.hashBits = s.hashBits := by
  induction pieces generalizing s message with
  | nil => exact ⟨s, rfl, by simpa using h, rfl⟩
  | cons piece pieces ih =>
    obtain ⟨s1, hupdate, h1, hbits1⟩ := h.update piece
    obtain ⟨s2, hrest, h2, hbits2⟩ := ih h1
    refine ⟨s2, ?_, by simpa using h2, hbits2.trans hbits1⟩
    rw [List.foldlM_cons, hupdate]
    exact hrest

/-! ## The final block -/

/-- A type whose first flag can be cleared. -/
def Clears (kind : UInt64) : Prop :=
  ∀ first, tweak kind first false &&& ~~~flagFirst = tweak kind false false

theorem clears_key : Clears typeKey := by
  unfold Clears
  decide

theorem clears_msg : Clears typeMsg := by
  unfold Clears
  decide

theorem tweak_final (kind : UInt64) (first : Bool) :
    tweak kind first false ||| flagFinal = tweak kind first true := by
  simp [tweak, UInt64.or_assoc]

/-- The chain after whole blocks that are not the last. -/
theorem foldl_wholeBlock {kind : UInt64} (hkind : Clears kind) (x : Vector UInt64 8)
    {message : List UInt8} {n total : Nat} (hlen : 64 * n ≤ message.length) (htotal : n < total) :
    (blocks 64 n message).foldl (wholeBlock core) { x := x, t0 := 0, t1 := tweak kind true false } =
      { x := (List.range n).foldl (ubiStep core kind message total) x
        t0 := UInt64.ofNat (64 * n), t1 := tweak kind (n = 0) false } := by
  induction n with
  | zero => rfl
  | succ n ih =>
    have hblock : ((message.drop (64 * n)).take 64).length = 64 := by
      rw [List.length_take, List.length_drop]
      omega
    have hpadded : zeroPadded ((message.drop (64 * n)).take 64) =
        (message.drop (64 * n)).take 64 := by
      rw [zeroPadded, hblock, Nat.sub_self, List.replicate_zero, List.append_nil]
    have hmin : min (64 * (n + 1)) message.length = 64 * (n + 1) := by omega
    have hlast : (n + 1 = total) = False := by
      rw [eq_iff_iff, iff_false]
      omega
    have ih := ih (by omega) (by omega)
    rw [blocks] at ih ⊢
    rw [List.range_succ, List.map_append, List.foldl_append, ih, List.foldl_append]
    simp only [List.map_cons, List.map_nil, List.foldl_cons, List.foldl_nil, wholeBlock,
      threefishUbi, ubiStep, hpadded, hmin, hlast, hkind _, decide_false]
    rw [← UInt64.ofNat_add]
    rfl

theorem ubi_eq (kind : UInt64) (x : Vector UInt64 8) (message : List UInt8) :
    ubi core kind x message =
      ubiStep core kind message ((message.length - 1) / 64 + 1)
        ((List.range ((message.length - 1) / 64)).foldl
          (ubiStep core kind message ((message.length - 1) / 64 + 1)) x)
        ((message.length - 1) / 64) := by
  have hcount : max 1 ((message.length + 63) / 64) = (message.length - 1) / 64 + 1 := by omega
  rw [ubi, hcount, List.range_succ, List.foldl_append]
  rfl

/-- The block that was held back completes the iteration. -/
theorem Absorbed.finalPad {kind : UInt64} (hkind : Clears kind) {x : Vector UInt64 8}
    {s : Skein512} {message : List UInt8} (h : Absorbed core kind x s message) :
    (Skein512.finalPad core s).chain.x = ubi core kind x message := by
  obtain ⟨n, hn⟩ : ∃ n, (message.length - 1) / 64 = n := ⟨_, rfl⟩
  have hcount : (message.length + 64 - 1 - 64) / 64 = n := by omega
  have hstate := h.state.symm.trans (absorb_eq (by decide) (by decide) _ message)
  simp only [hcount] at hstate
  rw [foldl_wholeBlock hkind x (by omega) (Nat.lt_add_one n), Prod.mk.injEq] at hstate
  obtain ⟨hchain, hpending⟩ := hstate
  have hsize := h.size
  have hroom := h.room
  have hbcnt : s.bcnt = message.length - 64 * n := by
    rw [← List.length_drop, ← hpending, List.length_take]
    omega
  have hsum : UInt64.ofNat (64 * n) + UInt64.ofNat s.bcnt = UInt64.ofNat message.length := by
    rw [← UInt64.ofNat_add]
    congr 1
    omega
  have hblock : (message.drop (64 * n)).take 64 = message.drop (64 * n) :=
    List.take_of_length_le (by rw [List.length_drop]; omega)
  have hmin : min (64 * (n + 1)) message.length = message.length := by omega
  rw [hbcnt] at hpending hsum
  rw [ubi_eq, hn]
  simp only [Skein512.finalPad, threefishUbi, hchain, hpending, tweak_final, hsum, ubiStep, hmin,
    hblock, zeroPadded, decide_true, List.length_drop, hbcnt]

theorem ubi_single (kind : UInt64) (x : Vector UInt64 8) {message : List UInt8}
    (h : message.length ≤ 64) :
    ubi core kind x message =
      core x (UInt64.ofNat message.length) (tweak kind true true)
        (wordsOf 8 (zeroPadded message)) := by
  have hzero : (message.length - 1) / 64 = 0 := by omega
  have hmin : min (64 * (0 + 1)) message.length = message.length := by omega
  rw [ubi_eq, hzero, List.range_zero, List.foldl_nil, ubiStep, hmin, Nat.mul_zero, List.drop_zero,
    List.take_of_length_le h]
  rfl

/-! ## The digest -/

variable (core) in
/-- A type of one block. -/
theorem startType_final (kind : UInt64) (s : Skein512) {message : List UInt8}
    (h : message.length ≤ 64) :
    (threefishUbi core (startType kind true s).chain (zeroPadded message) message.length).x =
      ubi core kind s.chain.x message := by
  rw [ubi_single kind _ h]
  simp only [threefishUbi, startType, UInt64.zero_add]
  rfl

theorem config_eq (hashBits : UInt64) :
    config hashBits = zeroPadded (configString hashBits) ∧ (configString hashBits).length = 32 := by
  have hlen : (configString hashBits).length = 32 := by
    simp [configString, Endian.bytes_length]
  refine ⟨?_, hlen⟩
  rw [zeroPadded, hlen, configString, List.append_assoc _ (List.replicate 16 0),
    List.replicate_append_replicate]
  rfl

theorem counter_eq (i : UInt64) :
    counter i = zeroPadded (Endian.little.bytes i) := by
  rw [zeroPadded, Endian.bytes_length]
  rfl

/-- The chaining value that a message starts from: what comes of the key, if there is one, and of
the configuration. -/
def startOf (core : Compression) (hashBits : UInt64) (key : List UInt8) : Vector UInt64 8 :=
  ubi core typeCfg
    (if key.isEmpty then Vector.replicate 8 0 else ubi core typeKey (Vector.replicate 8 0) key)
    (configString hashBits)

/-- The key comes first. -/
theorem keyed_eq (core : Compression) (key : List UInt8) :
    ∃ s, keyed core key = some s ∧ s.buf.length = 64 ∧
      s.chain.x = if key.isEmpty then Vector.replicate 8 0
        else ubi core typeKey (Vector.replicate 8 0) key := by
  have hsize : initial.buf.length = 64 := List.length_replicate
  by_cases hkey : key.isEmpty
  · exact ⟨initial, by rw [keyed, if_pos hkey], hsize, by rw [if_pos hkey]; rfl⟩
  · obtain ⟨s, hupdate, habsorbed, -⟩ := (absorbed_startType core typeKey initial hsize).update key
    refine ⟨finalPad core s, by rw [keyed, if_neg hkey, hupdate, Option.map_some], ?_, ?_⟩
    · have hroom := habsorbed.room
      have hlen := habsorbed.size
      simp only [finalPad, List.length_append, List.length_take, List.length_replicate]
      omega
    · rw [if_neg hkey]
      exact habsorbed.finalPad clears_key

/-- A new hash is at the start of its message. -/
theorem new_eq (core : Compression) (hashBits : UInt64) (key : List UInt8) :
    ∃ s, new core hashBits key = some s ∧
      Absorbed core typeMsg (startOf core hashBits key) s [] ∧ s.hashBits = hashBits := by
  obtain ⟨s, hkeyed, hsize, hx⟩ := keyed_eq core key
  obtain ⟨hconfig, hlen⟩ := config_eq hashBits
  have hstart := startType_final core typeCfg { s with hashBits := hashBits }
    (show (configString hashBits).length ≤ 64 by omega)
  rw [← hconfig, hlen] at hstart
  refine ⟨configure core hashBits s, by rw [new, hkeyed, Option.map_some], ?_, rfl⟩
  rw [startOf, ← hx, ← hstart]
  exact absorbed_startType core typeMsg
    { startType typeCfg true { s with hashBits := hashBits } with
      chain := threefishUbi core (startType typeCfg true { s with hashBits := hashBits }).chain
        (config hashBits) 32 } hsize

theorem outputBlocks_succ (chain : Vector UInt64 8) (n : Nat) :
    outputBlocks core chain (n + 1) = outputBlocks core chain n ++
      wordsBytes (ubi core typeOut chain (Endian.little.bytes (UInt64.ofNat n))) := by
  rw [outputBlocks, List.range_succ, List.flatMap_append, List.flatMap_singleton]
  rfl

variable (core) in
theorem outputBlocks_length (chain : Vector UInt64 8) (n : Nat) :
    (outputBlocks core chain n).length = 64 * n := by
  induction n with
  | zero => rfl
  | succ n ih =>
    rw [outputBlocks_succ, List.length_append, ih, wordsBytes_length, Nat.mul_succ]

/-- The loop puts out a block after another until there are enough. -/
theorem outputFrom_eq (bytes : Nat) (chain : Vector UInt64 8) {left k : Nat}
    (hk : k + left = (bytes + 63) / 64) (s : Skein512) :
    outputFrom core bytes s chain (UInt64.ofNat k) (outputBlocks core chain k) =
      (outputBlocks core chain ((bytes + 63) / 64)).take bytes := by
  have hlen := outputBlocks_length core chain k
  induction left generalizing k s with
  | zero =>
    rw [outputFrom, if_neg (by omega), ← hk]
    rfl
  | succ left ih =>
    have hblock := startType_final core typeOut
      { s with chain := { s.chain with x := chain } }
      (show (Endian.little.bytes (UInt64.ofNat k)).length ≤ 64 by rw [Endian.bytes_length]; omega)
    rw [← counter_eq, Endian.bytes_length] at hblock
    have hnext : UInt64.ofNat k + 1 = UInt64.ofNat (k + 1) := (UInt64.ofNat_add k 1).symm
    rw [outputFrom, if_pos (by omega)]
    simp only [hblock, hnext, ← outputBlocks_succ]
    exact ih (by omega) _ (outputBlocks_length core chain (k + 1))

/-- The digest of what has come in. -/
theorem Absorbed.finish {s : Skein512} {hashBits : UInt64} {key message : List UInt8}
    (h : Absorbed core typeMsg (startOf core hashBits key) s message)
    (hbits : s.hashBits = hashBits) :
    Skein512.finish core s = digest core hashBits key message := by
  have hfinal := h.finalPad clears_msg
  have hbits' : (Skein512.finalPad core s).hashBits = hashBits := hbits
  simp only [Skein512.finish, hfinal, hbits']
  exact outputFrom_eq _ _ (Nat.zero_add _) _

theorem finish_eq (hashBits : UInt64) (key : List UInt8) (pieces : List (List UInt8)) :
    (do
      let s ← new core hashBits key
      let s ← pieces.foldlM (Skein512.update core) s
      some (Skein512.finish core s)) = some (digest core hashBits key pieces.flatten) := by
  obtain ⟨s, hnew, habsorbed, hbits⟩ := new_eq core hashBits key
  obtain ⟨s', hfold, habsorbed', hbits'⟩ := absorbed_foldlM habsorbed pieces
  have hfinish := habsorbed'.finish (hbits'.trans hbits)
  simp only [hnew, hfold, Option.bind_eq_bind, Option.bind_some, hfinish, List.nil_append]

theorem mac_eq (key data : List UInt8) :
    mac core key data = some (digest core 256 key data) := by
  obtain ⟨s, hnew, habsorbed, hbits⟩ := new_eq core 256 key
  obtain ⟨s', hupdate, habsorbed', hbits'⟩ := habsorbed.update data
  have hfinish := habsorbed'.finish (hbits'.trans hbits)
  simp only [mac, hnew, hupdate, Option.bind_eq_bind, Option.bind_some, hfinish, List.nil_append]

end Skein512

/-! ## Both -/

/-- The hashes absorb a message in whatever pieces: one folds its compression over the message with
the least padding, the other makes the chain over key, configuration, message and output; and their
checksums are of the message behind the salt. -/
theorem hashes_absorb :
    (∀ q512 (pieces : List (List UInt8)), ∃ digest,
      (pieces.foldlM (EdonR512.update q512) EdonR512.new).bind (EdonR512.finish q512) =
        some digest ∧ EdonR512.IsDigest q512 pieces.flatten digest) ∧
    (∀ q512 salt data, ∃ h1 h2 digest,
      EdonR512.zfsChecksum q512 salt data = some (digest.take 32) ∧
        EdonR512.IsDigest q512 salt h1 ∧ EdonR512.IsDigest q512 h1 h2 ∧
        EdonR512.IsDigest q512 (h1 ++ h2 ++ data) digest) ∧
    (∀ core hashBits key (pieces : List (List UInt8)),
      (do
        let s ← Skein512.new core hashBits key
        let s ← pieces.foldlM (Skein512.update core) s
        some (Skein512.finish core s)) =
          some (Skein512.digest core hashBits key pieces.flatten)) ∧
    ∀ core key data, Skein512.mac core key data = some (Skein512.digest core 256 key data) :=
  ⟨fun _ pieces => EdonR512.finish_eq pieces,
    fun _ salt data => EdonR512.zfsChecksum_eq salt data,
    fun _ hashBits key pieces => Skein512.finish_eq hashBits key pieces,
    fun _ key data => Skein512.mac_eq key data⟩

end Ondisk
end ZvolRescue
