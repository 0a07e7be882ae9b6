import ZvolRescue.Lib.Window
import ZvolRescue.Ondisk.Compress

/-!
# What compressed streams mean

`lzjb` and `zle` streams are sequences of tokens, and a block is the beginning of what they
stand for.  The decoders give exactly that block (`lzjb_iff`, `zle_iff`).  Written with the
positions of the source, they never index outside the input or before the start of the output
(`lzjbAt_eq`, `zleAt_eq`).
-/

namespace ZvolRescue
namespace Ondisk

open Lib

theorem bind_eq_ok {ε α β : Type*} {x : Except ε α} {f : α → Except ε β} {b : β} :
    x.bind f = .ok b ↔ ∃ a, x = .ok a ∧ f a = .ok b := by
  cases x <;> simp [Except.bind]

/-! ## Back references -/

theorem copyMatch_copied {offset : Nat} (hpos : 0 < offset) (n : Nat) {dst : List UInt8}
    (hlen : offset ≤ dst.length) : Copied offset n dst (copyMatch offset n dst) := by
  induction n generalizing dst with
  | zero => exact Copied.none ⟨hpos, hlen⟩
  | succ n ih =>
    have hin : dst.length - offset < dst.length := by omega
    have hread : dst[dst.length - offset]? = some (dst.getD (dst.length - offset) 0) := by
      rw [List.getD_eq_getElem?_getD, List.getElem?_eq_getElem hin, Option.getD_some]
    refine Copied.cons hpos hlen hread (ih ?_)
    rw [List.length_append]
    omega

theorem copyMatch_length {offset : Nat} (hpos : 0 < offset) (n : Nat) {dst : List UInt8}
    (hlen : offset ≤ dst.length) : (copyMatch offset n dst).length = dst.length + n :=
  (copyMatch_copied hpos n hlen).length

/-- A match that is cut short is the beginning of the whole. -/
theorem copyMatch_take {offset : Nat} (hpos : 0 < offset) {k n : Nat} (hk : k ≤ n)
    {dst : List UInt8} (hlen : offset ≤ dst.length) :
    (copyMatch offset n dst).take (dst.length + k) = copyMatch offset k dst :=
  ((copyMatch_copied hpos n hlen).take hk).unique (copyMatch_copied hpos k hlen)

/-! ## Streams of `lzjb` -/

namespace Lzjb

/-- The tokens at the beginning of a stream.  A bit of the copymap stands before each, from the
lowest, and the next copymap comes after eight. -/
inductive Stream : Nat → UInt8 → List UInt8 → List (Token UInt8) → Prop
  | done {bit : Nat} {map : UInt8} {src : List UInt8} : Stream bit map src []
  | copymap {old map : UInt8} {src : List UInt8} {tokens : List (Token UInt8)}
      (rest : Stream 0 map src tokens) : Stream 8 old (map :: src) tokens
  | literal {bit : Nat} {map b : UInt8} {src : List UInt8} {tokens : List (Token UInt8)}
      (hbit : bit < 8) (hmap : map.toNat.testBit bit = false)
      (rest : Stream (bit + 1) map src tokens) : Stream bit map (b :: src) (.literal b :: tokens)
  /-- Six bits of length and ten of offset. -/
  | copy {bit : Nat} {map b0 b1 : UInt8} {src : List UInt8} {tokens : List (Token UInt8)}
      (hbit : bit < 8) (hmap : map.toNat.testBit bit = true)
      (rest : Stream (bit + 1) map src tokens) :
      Stream bit map (b0 :: b1 :: src)
        (.copy ((b0.toNat * 256 + b1.toNat) % 1024) (b0.toNat / 4 + 3) :: tokens)

/-- The block of `lsize` bytes that the stream stands for. -/
def Means (src : List UInt8) (lsize : Nat) (out : List UInt8) : Prop :=
  ∃ tokens full, Stream 8 0 src tokens ∧ Builds [] tokens full ∧ lsize ≤ full.length ∧
    out = full.take lsize

/-- Where a stream goes on: the copymap, its bit and the bytes. -/
structure At where
  map : UInt8
  bit : Nat
  src : List UInt8

def token (s : At) : Except DecompressError (Token UInt8 × At) :=
  if s.map.toNat.testBit s.bit then
    match s.src with
    | b0 :: b1 :: rest =>
      .ok (.copy ((b0.toNat * 256 + b1.toNat) % 1024) (b0.toNat / 4 + 3),
        { s with bit := s.bit + 1, src := rest })
    | _ => .error (.corrupt "lzjb: truncated match")
  else
    match s.src with
    | b :: rest => .ok (.literal b, { s with bit := s.bit + 1, src := rest })
    | [] => .error (.corrupt "lzjb: truncated literal")

/-- The next token. -/
def next (s : At) : Except DecompressError (Token UInt8 × At) :=
  if s.bit = 8 then
    match s.src with
    | [] => .error (.corrupt "lzjb: truncated copymap")
    | b :: rest => token { map := b, bit := 0, src := rest }
  else token s

/-- A token taken into the output, as far as there is room. -/
def emit (lsize : Nat) (dst : List UInt8) : Token UInt8 → Except DecompressError (List UInt8)
  | .literal b => .ok (dst ++ [b])
  | .copy offset len =>
    if offset = 0 ∨ offset > dst.length then .error (.corrupt "lzjb: match before start")
    else .ok (copyMatch offset (min len (lsize - dst.length)) dst)

theorem loop_token {lsize rounds : Nat} {dst : List UInt8} (src : List UInt8) (map : UInt8)
    (bit : Nat) :
    (if map.toNat.testBit bit then
      match src with
      | b0 :: b1 :: rest =>
        let offset := (b0.toNat * 256 + b1.toNat) % 1024
        if offset = 0 ∨ offset > dst.length then .error (.corrupt "lzjb: match before start")
        else
          let mlen := min (b0.toNat / 4 + 3) (lsize - dst.length)
          lzjbLoop lsize rounds rest map (bit + 1) (copyMatch offset mlen dst)
      | _ => .error (.corrupt "lzjb: truncated match")
    else
      match src with
      | b :: rest => lzjbLoop lsize rounds rest map (bit + 1) (dst ++ [b])
      | [] => .error (.corrupt "lzjb: truncated literal")) =
      (token { map, bit, src }).bind (fun t => (emit lsize dst t.1).bind (fun out =>
        lzjbLoop lsize rounds t.2.src t.2.map t.2.bit out)) := by
  unfold token
  by_cases hmap : map.toNat.testBit bit = true
  · rw [if_pos hmap, if_pos hmap]
    cases src with
    | nil => rfl
    | cons b0 src =>
      cases src with
      | nil => rfl
      | cons b1 rest =>
        simp only [Except.bind, emit]
        split <;> rfl
  · rw [if_neg hmap, if_neg hmap]
    cases src <;> rfl

/-- A round of the loop takes the next token. -/
theorem loop_succ {lsize rounds : Nat} {s : At} {dst : List UInt8} (hroom : dst.length < lsize) :
    lzjbLoop lsize (rounds + 1) s.src s.map s.bit dst =
      (next s).bind (fun t => (emit lsize dst t.1).bind (fun out =>
        lzjbLoop lsize rounds t.2.src t.2.map t.2.bit out)) := by
  obtain ⟨map, bit, src⟩ := s
  conv_lhs => unfold lzjbLoop
  rw [if_neg (Nat.not_le.mpr hroom)]
  unfold next
  by_cases hbit : bit = 8
  · rw [if_pos hbit]
    cases src with
    | nil => simp only [hbit, if_true]; rfl
    | cons b rest =>
      simp only [hbit, if_true]
      exact loop_token rest b 0
  · simp only [hbit, if_false]
    exact loop_token src map bit

theorem stream_of_token {s s' : At} (hbit : s.bit < 8) {t : Token UInt8}
    {tokens : List (Token UInt8)} (hrest : Stream s'.bit s'.map s'.src tokens)
    (h : token s = .ok (t, s')) : Stream s.bit s.map s.src (t :: tokens) := by
  obtain ⟨map, bit, src⟩ := s
  unfold token at h
  by_cases hmap : map.toNat.testBit bit = true
  · rw [if_pos hmap] at h
    match src, h with
    | b0 :: b1 :: rest, h =>
      cases h
      exact .copy hbit hmap hrest
  · rw [if_neg hmap] at h
    match src, h with
    | b :: rest, h =>
      cases h
      exact .literal hbit (Bool.eq_false_iff.mpr hmap) hrest

theorem token_bit {s s' : At} {t : Token UInt8} (h : token s = .ok (t, s')) :
    s'.bit = s.bit + 1 := by
  obtain ⟨map, bit, src⟩ := s
  unfold token at h
  by_cases hmap : map.toNat.testBit bit = true
  · rw [if_pos hmap] at h
    match src, h with
    | b0 :: b1 :: rest, h => cases h; rfl
  · rw [if_neg hmap] at h
    match src, h with
    | b :: rest, h => cases h; rfl

/-- The token that the reader takes stands in the stream. -/
theorem stream_of_next {s s' : At} (hbit : s.bit ≤ 8) {t : Token UInt8}
    (h : next s = .ok (t, s')) :
    s'.bit ≤ 8 ∧ ∀ tokens, Stream s'.bit s'.map s'.src tokens →
      Stream s.bit s.map s.src (t :: tokens) := by
  obtain ⟨map, bit, src⟩ := s
  unfold next at h
  by_cases hfull : bit = 8
  · subst hfull
    rw [if_pos rfl] at h
    match src, h with
    | b :: rest, h =>
      have hnext := token_bit h
      refine ⟨?_, fun tokens hrest => .copymap (stream_of_token (Nat.zero_lt_succ 7) hrest h)⟩
      rw [hnext]
      exact Nat.one_le_two_pow (n := 3)
  · rw [if_neg hfull] at h
    have hlt : bit < 8 := Nat.lt_of_le_of_ne hbit hfull
    have hnext := token_bit h
    refine ⟨?_, fun tokens hrest => stream_of_token hlt hrest h⟩
    rw [hnext]
    exact hlt

theorem token_of_stream {s : At} (hbit : s.bit < 8) {t : Token UInt8}
    {tokens : List (Token UInt8)} (h : Stream s.bit s.map s.src (t :: tokens)) :
    ∃ s', token s = .ok (t, s') ∧ Stream s'.bit s'.map s'.src tokens := by
  obtain ⟨map, bit, src⟩ := s
  unfold token
  cases h with
  | copymap rest => exact absurd hbit (Nat.lt_irrefl 8)
  | literal hlt hmap rest =>
    rw [if_neg (Bool.eq_false_iff.mp hmap)]
    exact ⟨_, rfl, rest⟩
  | copy hlt hmap rest =>
    rw [if_pos hmap]
    exact ⟨_, rfl, rest⟩

/-- The first token of a stream is the one that the reader takes. -/
theorem next_of_stream {s : At} {t : Token UInt8} {tokens : List (Token UInt8)}
    (h : Stream s.bit s.map s.src (t :: tokens)) :
    ∃ s', next s = .ok (t, s') ∧ Stream s'.bit s'.map s'.src tokens := by
  obtain ⟨map, bit, src⟩ := s
  unfold next
  cases h with
  | copymap rest =>
    rw [if_pos rfl]
    exact token_of_stream (Nat.zero_lt_succ 7) rest
  | literal hlt hmap rest =>
    rw [if_neg (Nat.ne_of_lt hlt)]
    exact token_of_stream hlt (.literal hlt hmap rest)
  | copy hlt hmap rest =>
    rw [if_neg (Nat.ne_of_lt hlt)]
    exact token_of_stream hlt (.copy hlt hmap rest)

/-! ### The loop -/

/-- The output with a whole token. -/
def whole (dst : List UInt8) : Token UInt8 → List UInt8
  | .literal b => dst ++ [b]
  | .copy offset len => copyMatch offset len dst

/-- A token that does not reach before the start. -/
def Inside (dst : List UInt8) : Token UInt8 → Prop
  | .literal _ => True
  | .copy offset _ => 0 < offset ∧ offset ≤ dst.length

/-- Tokens of a stream are not empty. -/
def Grows : Token UInt8 → Prop
  | .literal _ => True
  | .copy _ len => 0 < len

theorem builds_cons_iff {dst full : List UInt8} {t : Token UInt8} {tokens : List (Token UInt8)} :
    Builds dst (t :: tokens) full ↔ Inside dst t ∧ Builds (whole dst t) tokens full := by
  constructor
  · intro h
    cases h with
    | literal rest => exact ⟨trivial, rest⟩
    | copy copied rest =>
      obtain ⟨hpos, hlen⟩ := copied.inside
      rw [copied.unique (copyMatch_copied hpos _ hlen)] at rest
      exact ⟨⟨hpos, hlen⟩, rest⟩
  · rintro ⟨hinside, rest⟩
    cases t with
    | literal b => exact .literal rest
    | copy offset len => exact .copy (copyMatch_copied hinside.1 len hinside.2) rest

theorem whole_length {dst : List UInt8} {t : Token UInt8} (hinside : Inside dst t)
    (hgrows : Grows t) : dst.length < (whole dst t).length := by
  cases t with
  | literal b => simp [whole]
  | copy offset len =>
    have hpos : 0 < len := hgrows
    rw [whole, copyMatch_length hinside.1 len hinside.2]
    omega

/-- A token is cut at the end of the block, and refused where it reaches before the start. -/
theorem emit_ok_iff {lsize : Nat} {dst out : List UInt8} {t : Token UInt8}
    (hroom : dst.length < lsize) :
    emit lsize dst t = .ok out ↔ Inside dst t ∧ out = (whole dst t).take lsize := by
  cases t with
  | literal b =>
    have hfits : (dst ++ [b]).take lsize = dst ++ [b] := by
      apply List.take_of_length_le
      rw [List.length_append, List.length_singleton]
      exact hroom
    show Except.ok (dst ++ [b]) = Except.ok out ↔ True ∧ out = (dst ++ [b]).take lsize
    rw [hfits, true_and, Except.ok.injEq]
    exact eq_comm
  | copy offset len =>
    show (if offset = 0 ∨ offset > dst.length then _ else _) = _ ↔ (0 < offset ∧ _) ∧ _
    by_cases hbefore : offset = 0 ∨ offset > dst.length
    · rw [if_pos hbefore]
      constructor
      · intro h
        cases h
      · rintro ⟨⟨hpos, hlen⟩, -⟩
        omega
    · have hpos : 0 < offset := by omega
      have hlen : offset ≤ dst.length := by omega
      have hlength := copyMatch_length hpos len hlen
      have hcut : (copyMatch offset len dst).take lsize =
          copyMatch offset (min len (lsize - dst.length)) dst := by
        rw [← copyMatch_take hpos (Nat.min_le_left _ _) hlen]
        by_cases hfits : len ≤ lsize - dst.length
        · rw [Nat.min_eq_left hfits, List.take_of_length_le (by omega),
            List.take_of_length_le (by omega)]
        · rw [Nat.min_eq_right (by omega)]
          congr 1
          omega
      rw [if_neg hbefore, whole, hcut, Except.ok.injEq]
      refine ⟨fun h => ⟨⟨hpos, hlen⟩, h.symm⟩, fun h => h.2.symm⟩

theorem grows_of_token {s s' : At} {t : Token UInt8} (h : token s = .ok (t, s')) : Grows t := by
  unfold token at h
  split at h
  · split at h
    · cases h
      exact Nat.succ_pos _
    · cases h
  · split at h
    · cases h
      trivial
    · cases h

theorem grows_of_next {s s' : At} {t : Token UInt8} (h : next s = .ok (t, s')) : Grows t := by
  unfold next at h
  split at h
  · split at h
    · cases h
    · exact grows_of_token h
  · exact grows_of_token h

/-- The loop stops at the end of the block. -/
theorem loop_done {lsize rounds : Nat} {s : At} {dst : List UInt8} (hroom : lsize ≤ dst.length) :
    lzjbLoop lsize rounds s.src s.map s.bit dst = .ok dst := by
  cases rounds with
  | zero => rfl
  | succ rounds =>
    unfold lzjbLoop
    rw [if_pos hroom]

/-- What the loop makes of a stream is what its tokens build, cut at the end of the block. -/
theorem loop_sound {lsize rounds : Nat} {s : At} {dst out : List UInt8} (hbit : s.bit ≤ 8)
    (hle : dst.length ≤ lsize) (hrounds : lsize ≤ dst.length + rounds)
    (h : lzjbLoop lsize rounds s.src s.map s.bit dst = .ok out) :
    ∃ tokens full, Stream s.bit s.map s.src tokens ∧ Builds dst tokens full ∧
      lsize ≤ full.length ∧ out = full.take lsize := by
  induction rounds generalizing s dst with
  | zero =>
    rw [loop_done hrounds] at h
    have hout := Except.ok.inj h
    subst hout
    exact ⟨[], dst, .done, .nil, hrounds, (List.take_of_length_le hle).symm⟩
  | succ rounds ih =>
    by_cases hdone : lsize ≤ dst.length
    · rw [loop_done hdone] at h
      have hout := Except.ok.inj h
      subst hout
      exact ⟨[], dst, .done, .nil, hdone, (List.take_of_length_le hle).symm⟩
    · have hroom : dst.length < lsize := Nat.lt_of_not_le hdone
      rw [loop_succ hroom] at h
      obtain ⟨⟨t, s'⟩, hnext, h⟩ := bind_eq_ok.mp h
      obtain ⟨out', hemit, h⟩ := bind_eq_ok.mp h
      obtain ⟨hinside, rfl⟩ : Inside dst t ∧ out' = (whole dst t).take lsize :=
        (emit_ok_iff hroom).mp hemit
      have h : lzjbLoop lsize rounds s'.src s'.map s'.bit ((whole dst t).take lsize) = .ok out := h
      obtain ⟨hbit', hstream⟩ := stream_of_next hbit hnext
      have hlonger := whole_length hinside (grows_of_next hnext)
      by_cases hfits : (whole dst t).length ≤ lsize
      · rw [List.take_of_length_le hfits] at h
        obtain ⟨tokens, full, hrest, hbuilds, hfull, hout⟩ := ih hbit' hfits (by omega) h
        exact ⟨t :: tokens, full, hstream tokens hrest, builds_cons_iff.mpr ⟨hinside, hbuilds⟩,
          hfull, hout⟩
      · have hcut : lsize ≤ ((whole dst t).take lsize).length := by
          rw [List.length_take]
          omega
        rw [loop_done hcut] at h
        cases h
        exact ⟨[t], whole dst t, hstream [] .done, builds_cons_iff.mpr ⟨hinside, .nil⟩,
          by omega, rfl⟩

/-- A stream of tokens that build enough is decoded. -/
theorem loop_complete {lsize rounds : Nat} {s : At} {dst full : List UInt8}
    {tokens : List (Token UInt8)} (hstream : Stream s.bit s.map s.src tokens)
    (hbuilds : Builds dst tokens full) (hfull : lsize ≤ full.length) (hle : dst.length ≤ lsize)
    (hrounds : lsize ≤ dst.length + rounds) :
    lzjbLoop lsize rounds s.src s.map s.bit dst = .ok (full.take lsize) := by
  induction tokens generalizing s dst rounds with
  | nil =>
    cases hbuilds
    rw [loop_done hfull, List.take_of_length_le hle]
  | cons t tokens ih =>
    by_cases hdone : lsize ≤ dst.length
    · obtain ⟨rest, rfl⟩ := hbuilds.kept
      rw [loop_done hdone, List.take_left' (Nat.le_antisymm hle hdone)]
    · have hroom : dst.length < lsize := Nat.lt_of_not_le hdone
      obtain ⟨hinside, hrest⟩ := builds_cons_iff.mp hbuilds
      obtain ⟨s', hnext, hstream'⟩ := next_of_stream hstream
      have hlonger := whole_length hinside (grows_of_next hnext)
      obtain ⟨rounds, rfl⟩ : ∃ r, rounds = r + 1 := ⟨rounds - 1, by omega⟩
      rw [loop_succ hroom, hnext]
      show (emit lsize dst t).bind (fun out => lzjbLoop lsize rounds s'.src s'.map s'.bit out) = _
      rw [(emit_ok_iff hroom).mpr ⟨hinside, rfl⟩]
      show lzjbLoop lsize rounds s'.src s'.map s'.bit ((whole dst t).take lsize) = _
      by_cases hfits : (whole dst t).length ≤ lsize
      · rw [List.take_of_length_le hfits]
        exact ih hstream' hrest hfits (by omega)
      · have hcut : lsize ≤ ((whole dst t).take lsize).length := by
          rw [List.length_take]
          omega
        obtain ⟨rest, rfl⟩ := hrest.kept
        rw [loop_done hcut, List.take_append_of_le_length (by omega)]

end Lzjb

/-- `lzjb` gives the block that its stream stands for, and fails where there is none. -/
theorem lzjb_iff {src out : List UInt8} {lsize : Nat} :
    lzjb src lsize = .ok out ↔ Lzjb.Means src lsize out := by
  constructor
  · intro h
    exact Lzjb.loop_sound (s := { map := 0, bit := 8, src }) (Nat.le_refl 8) (Nat.zero_le _)
      (Nat.le_add_left _ _) h
  · rintro ⟨tokens, full, hstream, hbuilds, hfull, rfl⟩
    exact Lzjb.loop_complete (s := { map := 0, bit := 8, src }) hstream hbuilds hfull
      (Nat.zero_le _) (Nat.le_add_left _ _)

/-! ## Streams of `zle` -/

namespace Zle

/-- Bytes as they are, or a run of zeros. -/
inductive Run where
  | literal (bytes : List UInt8)
  | zeros (n : Nat)

def Run.bytes : Run → List UInt8
  | literal bytes => bytes
  | zeros n => List.replicate n 0

/-- The runs at the beginning of a stream: a length below 64 is that of literal bytes, less
one. -/
inductive Stream : List UInt8 → List Run → Prop
  | done {src : List UInt8} : Stream src []
  | literal {b : UInt8} {bytes src : List UInt8} {runs : List Run} (hb : b.toNat < 64)
      (hlen : bytes.length = b.toNat + 1) (rest : Stream src runs) :
      Stream (b :: (bytes ++ src)) (.literal bytes :: runs)
  | zeros {b : UInt8} {src : List UInt8} {runs : List Run} (hb : 64 ≤ b.toNat)
      (rest : Stream src runs) : Stream (b :: src) (.zeros (b.toNat - 63) :: runs)

/-- The block of `lsize` bytes that the stream stands for. -/
def Means (src : List UInt8) (lsize : Nat) (out : List UInt8) : Prop :=
  ∃ runs, Stream src runs ∧ lsize ≤ (runs.flatMap Run.bytes).length ∧
    out = (runs.flatMap Run.bytes).take lsize

theorem take_append_take {α : Type*} (n : Nat) (l m : List α) :
    (l.take n ++ m).take n = (l ++ m).take n := by
  rw [List.take_append, List.take_append, List.take_take, Nat.min_self, List.length_take]
  congr 2
  omega

/-- A run that is cut at the end of the block. -/
theorem append_cut {α : Type*} {lsize : Nat} {dst : List α} (hle : dst.length ≤ lsize)
    (run : List α) (n : Nat) (hn : run.length = n) :
    dst ++ run.take (min n (lsize - dst.length)) = (dst ++ run).take lsize := by
  rw [List.take_append, List.take_of_length_le hle]
  congr 1
  by_cases hfits : n ≤ lsize - dst.length
  · rw [Nat.min_eq_left hfits, List.take_of_length_le (Nat.le_of_eq hn),
      List.take_of_length_le (by omega)]
  · rw [Nat.min_eq_right (by omega)]

theorem loop_done {lsize rounds : Nat} {src dst : List UInt8} (hroom : lsize ≤ dst.length) :
    zleLoop lsize rounds src dst = .ok dst := by
  cases rounds with
  | zero => rfl
  | succ rounds =>
    cases src with
    | nil => rfl
    | cons b src =>
      unfold zleLoop
      rw [if_pos hroom]

/-- A round of the loop on a literal run. -/
theorem loop_literal {lsize rounds : Nat} {b : UInt8} {src dst : List UInt8}
    (hroom : dst.length < lsize) (hb : b.toNat < 64) :
    zleLoop lsize (rounds + 1) (b :: src) dst =
      if 1 + b.toNat > src.length then .error (.corrupt "zle: truncated literal run")
      else zleLoop lsize rounds (src.drop (1 + b.toNat))
        ((dst ++ src.take (1 + b.toNat)).take lsize) := by
  conv_lhs => unfold zleLoop
  rw [if_neg (Nat.not_le.mpr hroom)]
  show (if 1 + b.toNat ≤ 64 then _ else _) = _
  rw [if_pos (by omega)]
  by_cases hshort : 1 + b.toNat > src.length
  · rw [if_pos hshort, if_pos hshort]
  · have hlen : (src.take (1 + b.toNat)).length = 1 + b.toNat := by
      rw [List.length_take]
      omega
    have hcut := append_cut (Nat.le_of_lt hroom) (src.take (1 + b.toNat)) _ hlen
    rw [List.take_take, Nat.min_eq_left (Nat.min_le_left _ _)] at hcut
    rw [if_neg hshort, if_neg hshort, hcut]

/-- A round of the loop on a run of zeros. -/
theorem loop_zeros {lsize rounds : Nat} {b : UInt8} {src dst : List UInt8}
    (hroom : dst.length < lsize) (hb : 64 ≤ b.toNat) :
    zleLoop lsize (rounds + 1) (b :: src) dst =
      zleLoop lsize rounds src
        ((dst ++ List.replicate (b.toNat - 63) 0).take lsize) := by
  conv_lhs => unfold zleLoop
  rw [if_neg (Nat.not_le.mpr hroom)]
  show (if 1 + b.toNat ≤ 64 then _ else _) = _
  have hn : 1 + b.toNat - 64 = b.toNat - 63 := by omega
  have hcut := append_cut (Nat.le_of_lt hroom) (List.replicate (b.toNat - 63) (0 : UInt8)) _
    List.length_replicate
  rw [List.take_replicate, Nat.min_eq_left (Nat.min_le_left _ _)] at hcut
  rw [if_neg (by omega), hn, hcut]

theorem length_cut {lsize : Nat} (l : List UInt8) : (l.take lsize).length ≤ lsize := by
  rw [List.length_take]
  exact Nat.min_le_left _ _

theorem loop_sound {lsize rounds : Nat} {src dst out : List UInt8} (hle : dst.length ≤ lsize)
    (hrounds : src.length ≤ rounds) (h : zleLoop lsize rounds src dst = .ok out) :
    ∃ runs, Stream src runs ∧ out = (dst ++ runs.flatMap Run.bytes).take lsize := by
  induction rounds generalizing src dst with
  | zero =>
    cases h
    refine ⟨[], .done, ?_⟩
    rw [List.flatMap_nil, List.append_nil, List.take_of_length_le hle]
  | succ rounds ih =>
    by_cases hdone : lsize ≤ dst.length
    · rw [loop_done hdone] at h
      cases h
      refine ⟨[], .done, ?_⟩
      rw [List.flatMap_nil, List.append_nil, List.take_of_length_le hle]
    · have hroom : dst.length < lsize := Nat.lt_of_not_le hdone
      cases src with
      | nil =>
        cases h
        refine ⟨[], .done, ?_⟩
        rw [List.flatMap_nil, List.append_nil, List.take_of_length_le hle]
      | cons b src =>
        rw [List.length_cons] at hrounds
        by_cases hb : b.toNat < 64
        · rw [loop_literal hroom hb] at h
          by_cases hshort : 1 + b.toNat > src.length
          · rw [if_pos hshort] at h
            cases h
          · rw [if_neg hshort] at h
            have hdrop : (src.drop (1 + b.toNat)).length ≤ rounds := by
              rw [List.length_drop]
              omega
            obtain ⟨runs, hruns, hout⟩ := ih (length_cut _) hdrop h
            have hlen : (src.take (1 + b.toNat)).length = b.toNat + 1 := by
              rw [List.length_take]
              omega
            have hstream := Stream.literal hb hlen hruns
            rw [List.take_append_drop] at hstream
            refine ⟨_, hstream, ?_⟩
            rw [hout, take_append_take, List.append_assoc]
            rfl
        · rw [loop_zeros hroom (by omega)] at h
          obtain ⟨runs, hruns, hout⟩ := ih (length_cut _) (by omega) h
          refine ⟨_, .zeros (by omega) hruns, ?_⟩
          rw [hout, take_append_take, List.append_assoc]
          rfl

theorem loop_complete {lsize rounds : Nat} {src dst : List UInt8} {runs : List Run}
    (hstream : Stream src runs) (hle : dst.length ≤ lsize) (hrounds : src.length ≤ rounds)
    (hfull : lsize ≤ (dst ++ runs.flatMap Run.bytes).length) :
    zleLoop lsize rounds src dst = .ok ((dst ++ runs.flatMap Run.bytes).take lsize) := by
  induction hstream generalizing dst rounds with
  | done =>
    rw [List.flatMap_nil, List.append_nil] at hfull ⊢
    rw [loop_done hfull, List.take_of_length_le hle]
  | @literal b bytes src runs hb hlen _ ih =>
    by_cases hdone : lsize ≤ dst.length
    · rw [loop_done hdone, List.take_left' (Nat.le_antisymm hle hdone)]
    · obtain ⟨rounds, rfl⟩ : ∃ r, rounds = r + 1 := ⟨rounds - 1, by simp at hrounds; omega⟩
      have hbytes : 1 + b.toNat = bytes.length := by omega
      rw [List.length_cons, List.length_append] at hrounds
      rw [loop_literal (Nat.lt_of_not_le hdone) hb, hbytes, if_neg (by simp), List.take_left,
        List.drop_left, ih (length_cut _) (by omega), take_append_take, List.append_assoc]
      · rfl
      · rw [List.flatMap_cons, ← List.append_assoc, List.length_append] at hfull
        have hbytes' : (Run.literal bytes).bytes = bytes := rfl
        rw [hbytes'] at hfull
        rw [List.length_append, List.length_take]
        omega
  | @zeros b src runs hb _ ih =>
    by_cases hdone : lsize ≤ dst.length
    · rw [loop_done hdone, List.take_left' (Nat.le_antisymm hle hdone)]
    · obtain ⟨rounds, rfl⟩ : ∃ r, rounds = r + 1 := ⟨rounds - 1, by simp at hrounds; omega⟩
      rw [List.length_cons] at hrounds
      rw [loop_zeros (Nat.lt_of_not_le hdone) hb, ih (length_cut _) (by omega), take_append_take,
        List.append_assoc]
      · rfl
      · rw [List.flatMap_cons, ← List.append_assoc, List.length_append] at hfull
        have hbytes : (Run.zeros (b.toNat - 63)).bytes = List.replicate (b.toNat - 63) 0 := rfl
        rw [hbytes] at hfull
        rw [List.length_append, List.length_take]
        omega

end Zle

/-- `zle` gives the block that its stream stands for, and fails where there is none. -/
theorem zle_iff {src out : List UInt8} {lsize : Nat} :
    zle src lsize = .ok out ↔ Zle.Means src lsize out := by
  rw [zle, bind_eq_ok]
  constructor
  · rintro ⟨dst, hloop, hsize⟩
    obtain ⟨runs, hruns, hdst⟩ := Zle.loop_sound (Nat.zero_le _) (Nat.le_refl _) hloop
    rw [List.nil_append] at hdst
    rw [checkSize] at hsize
    split at hsize
    · rename_i hlen
      cases hsize
      rw [hdst, List.length_take] at hlen
      exact ⟨runs, hruns, by omega, hdst⟩
    · cases hsize
  · rintro ⟨runs, hruns, hfull, rfl⟩
    have hempty : ([] : List UInt8).length ≤ lsize := Nat.zero_le lsize
    have hloop := Zle.loop_complete hruns hempty (Nat.le_refl src.length) hfull
    refine ⟨_, hloop, ?_⟩
    rw [List.nil_append, checkSize, if_pos]
    rw [List.length_take]
    omega

/-! ## Positions -/

/-- The copy loop of a match; `none` where it would index past the output. -/
def copyAt (start : Nat) : (k n : Nat) → List UInt8 → Option (List UInt8)
  | _, 0, dst => some dst
  | k, n + 1, dst => (dst[start + k]?).bind (fun b => copyAt start (k + 1) n (dst ++ [b]))

/-- The loop of `lzjb` with the position in the source; `none` where it would index out of range
or not come to an end within the rounds. -/
def lzjbAtLoop (src : List UInt8) (lsize : Nat) :
    Nat → (s : Nat) → (copymap : UInt8) → (bit : Nat) → List UInt8 →
      Option (Except DecompressError (List UInt8))
  | 0, _, _, _, _ => none
  | rounds + 1, s, copymap, bit, dst =>
    if dst.length ≥ lsize then some (.ok dst)
    else
      let map : Option (UInt8 × Nat × Nat) :=
        if bit = 8 then (src[s]?).map (fun b => (b, 0, s + 1)) else some (copymap, bit, s)
      match map with
      | none => some (.error (.corrupt "lzjb: truncated copymap"))
      | some (copymap, bit, s) =>
        if copymap.toNat.testBit bit then
          match src[s]?, src[s + 1]? with
          | some b0, some b1 =>
            let offset := (b0.toNat * 256 + b1.toNat) % 1024
            if offset = 0 ∨ offset > dst.length then
              some (.error (.corrupt "lzjb: match before start"))
            else
              let start := dst.length - offset
              let mlen := min (b0.toNat / 4 + 3) (lsize - dst.length)
              (copyAt start 0 mlen dst).bind (lzjbAtLoop src lsize rounds (s + 2) copymap (bit + 1))
          | _, _ => some (.error (.corrupt "lzjb: truncated match"))
        else
          match src[s]? with
          | some b => lzjbAtLoop src lsize rounds (s + 1) copymap (bit + 1) (dst ++ [b])
          | none => some (.error (.corrupt "lzjb: truncated literal"))

def lzjbAt (src : List UInt8) (lsize : Nat) : Option (Except DecompressError (List UInt8)) :=
  lzjbAtLoop src lsize (lsize + 1) 0 0 8 []

/-- The bytes of a range, which has to lie in the source. -/
def sliceAt (src : List UInt8) (start len : Nat) : Option (List UInt8) :=
  if start + len ≤ src.length then some ((src.drop start).take len) else none

/-- The loop of `zle` with the position in the source; `none` as for `lzjbAtLoop`. -/
def zleAtLoop (src : List UInt8) (lsize : Nat) :
    Nat → (s : Nat) → List UInt8 → Option (Except DecompressError (List UInt8))
  | 0, _, _ => none
  | rounds + 1, s, dst =>
    if s < src.length ∧ dst.length < lsize then
      (src[s]?).bind (fun b =>
        let len := 1 + b.toNat
        let s := s + 1
        if len ≤ 64 then
          if s + len > src.length then some (.error (.corrupt "zle: truncated literal run"))
          else
            (sliceAt src s (min len (lsize - dst.length))).bind
              (fun run => zleAtLoop src lsize rounds (s + len) (dst ++ run))
        else
          let zeros := min (len - 64) (lsize - dst.length)
          zleAtLoop src lsize rounds s (dst ++ List.replicate zeros 0))
    else some (checkSize dst lsize)

def zleAt (src : List UInt8) (lsize : Nat) : Option (Except DecompressError (List UInt8)) :=
  zleAtLoop src lsize (src.length + 1) 0 []

/-- The copy loop reads what is there. -/
theorem copyAt_eq {offset : Nat} (hpos : 0 < offset) (n : Nat) {start k : Nat} {dst : List UInt8}
    (hlen : offset ≤ dst.length) (hstart : start + k = dst.length - offset) :
    copyAt start k n dst = some (copyMatch offset n dst) := by
  induction n generalizing k dst with
  | zero => rfl
  | succ n ih =>
    have hin : start + k < dst.length := by omega
    rw [copyAt, copyMatch, ← hstart, List.getD_eq_getElem?_getD, List.getElem?_eq_getElem hin]
    apply ih
    · rw [List.length_append]
      omega
    · rw [List.length_append, List.length_singleton]
      omega

theorem getElem?_of_drop_nil {l : List UInt8} {s : Nat} (h : l.drop s = []) : l[s]? = none := by
  rw [List.getElem?_eq_none]
  exact List.drop_eq_nil_iff.mp h

/-- A token of `lzjb`, read at its position. -/
theorem lzjbAtLoop_token {src dst : List UInt8} {lsize rounds : Nat} (s : Nat) (map : UInt8)
    (bit : Nat) (hroom : dst.length < lsize) (hrounds : lsize ≤ dst.length + (rounds + 1))
    (ih : ∀ {s map bit dst}, lsize ≤ dst.length + rounds →
      lzjbAtLoop src lsize (rounds + 1) s map bit dst =
        some (lzjbLoop lsize rounds (src.drop s) map bit dst)) :
    (if map.toNat.testBit bit then
      match src[s]?, src[s + 1]? with
      | some b0, some b1 =>
        let offset := (b0.toNat * 256 + b1.toNat) % 1024
        if offset = 0 ∨ offset > dst.length then some (.error (.corrupt "lzjb: match before start"))
        else
          let start := dst.length - offset
          let mlen := min (b0.toNat / 4 + 3) (lsize - dst.length)
          (copyAt start 0 mlen dst).bind
            (lzjbAtLoop src lsize (rounds + 1) (s + 2) map (bit + 1))
      | _, _ => some (.error (.corrupt "lzjb: truncated match"))
    else
      match src[s]? with
      | some b => lzjbAtLoop src lsize (rounds + 1) (s + 1) map (bit + 1) (dst ++ [b])
      | none => some (.error (.corrupt "lzjb: truncated literal"))) =
      some ((Lzjb.token { map, bit, src := src.drop s }).bind (fun t =>
        (Lzjb.emit lsize dst t.1).bind (fun out =>
          lzjbLoop lsize rounds t.2.src t.2.map t.2.bit out))) := by
  unfold Lzjb.token
  by_cases hmap : map.toNat.testBit bit = true
  · rw [if_pos hmap, if_pos hmap]
    cases hs : src.drop s with
    | nil =>
      rw [getElem?_of_drop_nil hs]
      rfl
    | cons b0 rest =>
      obtain ⟨hb0, hrest⟩ := getElem?_of_drop hs
      rw [hb0]
      cases hrest' : rest with
      | nil =>
        rw [hrest'] at hrest
        rw [getElem?_of_drop_nil hrest]
        rfl
      | cons b1 rest' =>
        rw [hrest'] at hrest
        obtain ⟨hb1, htail⟩ := getElem?_of_drop hrest
        rw [hb1]
        show (if _ then _ else _) = some (Except.bind (if _ then _ else _) _)
        by_cases hbefore : (b0.toNat * 256 + b1.toNat) % 1024 = 0 ∨
            (b0.toNat * 256 + b1.toNat) % 1024 > dst.length
        · rw [if_pos hbefore, if_pos hbefore]
          rfl
        · rw [if_neg hbefore, if_neg hbefore]
          generalize (b0.toNat * 256 + b1.toNat) % 1024 = offset at hbefore
          have hpos : 0 < offset := by omega
          have hlen : offset ≤ dst.length := by omega
          have hlength := copyMatch_length hpos (min (b0.toNat / 4 + 3) (lsize - dst.length)) hlen
          show (copyAt _ 0 _ dst).bind _ = _
          rw [copyAt_eq hpos _ hlen (Nat.add_zero _), Option.bind_some, ih (by omega), htail]
          rfl
  · rw [if_neg hmap, if_neg hmap]
    cases hs : src.drop s with
    | nil =>
      rw [getElem?_of_drop_nil hs]
      rfl
    | cons b rest =>
      obtain ⟨hb, hrest⟩ := getElem?_of_drop hs
      rw [hb, ← hrest]
      apply ih
      rw [List.length_append, List.length_singleton]
      omega

theorem lzjbAtLoop_eq {src : List UInt8} {lsize rounds : Nat} {s : Nat} {map : UInt8} {bit : Nat}
    {dst : List UInt8} (hrounds : lsize ≤ dst.length + rounds) :
    lzjbAtLoop src lsize (rounds + 1) s map bit dst =
      some (lzjbLoop lsize rounds (src.drop s) map bit dst) := by
  induction rounds generalizing s map bit dst with
  | zero =>
    have hdone : lsize ≤ dst.length := hrounds
    unfold lzjbAtLoop
    rw [if_pos hdone]
    rfl
  | succ rounds ih =>
    have hloop : dst.length < lsize → lzjbLoop lsize (rounds + 1) (src.drop s) map bit dst = _ :=
      Lzjb.loop_succ (s := { map, bit, src := src.drop s })
    conv_lhs => unfold lzjbAtLoop
    by_cases hdone : lsize ≤ dst.length
    · rw [if_pos hdone]
      have hstop : lzjbLoop lsize (rounds + 1) (src.drop s) map bit dst = .ok dst :=
        Lzjb.loop_done (s := { map, bit, src := src.drop s }) hdone
      rw [hstop]
    · have hroom : dst.length < lsize := Nat.lt_of_not_le hdone
      rw [if_neg hdone, hloop hroom]
      unfold Lzjb.next
      by_cases hbit : bit = 8
      · rw [if_pos hbit]
        cases hs : src.drop s with
        | nil =>
          simp only [hbit, if_true, getElem?_of_drop_nil hs]
          rfl
        | cons b rest =>
          obtain ⟨hb, hrest⟩ := getElem?_of_drop hs
          simp only [hbit, if_true, hb]
          rw [← hrest]
          exact lzjbAtLoop_token (s + 1) b 0 hroom hrounds ih
      · simp only [hbit, if_false]
        exact lzjbAtLoop_token s map bit hroom hrounds ih

/-- By positions `lzjb` is the same: it never indexes out of range, and it comes to an end. -/
theorem lzjbAt_eq (src : List UInt8) (lsize : Nat) : lzjbAt src lsize = some (lzjb src lsize) :=
  lzjbAtLoop_eq (Nat.le_add_left _ _)

theorem zleAtLoop_eq {src : List UInt8} {lsize rounds s : Nat} {dst : List UInt8}
    (hrounds : src.length ≤ s + rounds) :
    zleAtLoop src lsize (rounds + 1) s dst =
      some ((zleLoop lsize rounds (src.drop s) dst).bind (fun dst => checkSize dst lsize)) := by
  induction rounds generalizing s dst with
  | zero =>
    unfold zleAtLoop
    rw [if_neg (by omega)]
    rfl
  | succ rounds ih =>
    conv_lhs => unfold zleAtLoop
    cases hs : src.drop s with
    | nil =>
      have hend := List.drop_eq_nil_iff.mp hs
      rw [if_neg (by omega)]
      rfl
    | cons b rest =>
      obtain ⟨hb, hrest⟩ := getElem?_of_drop hs
      have hin : s < src.length := (List.getElem?_eq_some_iff.mp hb).1
      have hlen : rest.length = src.length - (s + 1) := by rw [← hrest, List.length_drop]
      by_cases hdone : lsize ≤ dst.length
      · rw [if_neg (by omega), Zle.loop_done hdone]
        rfl
      · rw [if_pos ⟨hin, Nat.lt_of_not_le hdone⟩, hb, Option.bind_some]
        conv_rhs => unfold zleLoop
        rw [if_neg hdone]
        show (if _ then _ else _) = some (Except.bind (if _ then _ else _) _)
        by_cases hshort : 1 + b.toNat ≤ 64
        · rw [if_pos hshort, if_pos hshort]
          by_cases hmissing : 1 + b.toNat > rest.length
          · rw [if_pos (by omega), if_pos hmissing]
            rfl
          · have hslice : s + 1 + min (1 + b.toNat) (lsize - dst.length) ≤ src.length := by omega
            rw [if_neg (by omega), if_neg hmissing, sliceAt, if_pos hslice, Option.bind_some,
              ih (by omega), ← hrest, List.drop_drop]
        · rw [if_neg hshort, if_neg hshort, ih (by omega), hrest]

/-- By positions `zle` is the same: it never indexes out of range, and it comes to an end. -/
theorem zleAt_eq (src : List UInt8) (lsize : Nat) : zleAt src lsize = some (zle src lsize) :=
  zleAtLoop_eq (s := 0) (Nat.le_add_left _ _)

/-! ## All kinds -/

theorem checkSize_length {out block : List UInt8} {lsize : Nat}
    (h : checkSize out lsize = .ok block) : block.length = lsize := by
  rw [checkSize] at h
  split at h
  · rename_i hlen
    cases h
    exact hlen
  · cases h

theorem Lzjb.Means.length {src out : List UInt8} {lsize : Nat} (h : Lzjb.Means src lsize out) :
    out.length = lsize := by
  obtain ⟨tokens, full, -, -, hfull, rfl⟩ := h
  rw [List.length_take]
  omega

theorem Zle.Means.length {src out : List UInt8} {lsize : Nat} (h : Zle.Means src lsize out) :
    out.length = lsize := by
  obtain ⟨runs, -, hfull, rfl⟩ := h
  rw [List.length_take]
  omega

/-- A block has its logical size, whatever the codecs yield. -/
theorem decompress_length (c : Codecs) {kind : Compression} {src out : List UInt8} {lsize : Nat}
    (h : decompress c kind src lsize = .ok out) : out.length = lsize := by
  cases kind with
  | off =>
    cases h
    rw [List.length_append, List.length_take, List.length_replicate]
    omega
  | empty =>
    cases h
    exact List.length_replicate
  | lzjb => exact (lzjb_iff.mp h).length
  | zle => exact (zle_iff.mp h).length
  | lz4 =>
    have h : lz4 c src lsize = .ok out := h
    unfold lz4 at h
    dsimp only at h
    repeat' split at h
    all_goals first | cases h | exact checkSize_length h
  | gzip level =>
    have h : gzip c src lsize = .ok out := h
    unfold gzip at h
    split at h
    · cases h
    · exact checkSize_length h
  | zstd =>
    have h : zstd c src lsize = .ok out := h
    unfold zstd at h
    dsimp only at h
    repeat' split at h
    all_goals first | cases h | exact checkSize_length h
  | unknown code => cases h

/-- Decompression gives the bytes that the stream stands for, exactly as many as were asked for,
and never reads outside the input or before the start of the output. -/
theorem decompress_exact (c : Codecs) (src : List UInt8) (lsize : Nat) :
    lzjbAt src lsize = some (lzjb src lsize) ∧ zleAt src lsize = some (zle src lsize) ∧
      (∀ out, lzjb src lsize = .ok out ↔ Lzjb.Means src lsize out) ∧
      (∀ out, zle src lsize = .ok out ↔ Zle.Means src lsize out) ∧
      (∀ kind out, decompress c kind src lsize = .ok out → out.length = lsize) :=
  ⟨lzjbAt_eq src lsize, zleAt_eq src lsize, fun _ => lzjb_iff, fun _ => zle_iff,
    fun _ _ h => decompress_length c h⟩

end Ondisk
end ZvolRescue
