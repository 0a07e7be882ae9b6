import Mathlib.Data.Finset.Card
import Mathlib.Data.List.Forall2
import Mathlib.Data.List.GetD
import ZvolRescue.Ondisk.Zap

/-!
# Leaves of a fatzap

A leaf holds an entry for each of its entry chunks, with the name and the value that the chains
of that very chunk hold.  The decoder takes the kind of chunk `i` from chunk `i % 65536`, and
its fields from chunk `i`: it is exact as far as these two agree (`parsesExactly_iff`), so for
every leaf of up to 65536 chunks.
-/

namespace ZvolRescue
namespace Ondisk
namespace Zap
namespace Leaf

/-- A block, taken as a leaf of its size. -/
def ofBlock (buf : List UInt8) (endian : Endian) : Leaf :=
  { buf, endian
    base := leafChunksOffset (Nat.log2 buf.length)
    nchunks := leafNumchunks (Nat.log2 buf.length) }

/-! ## What a leaf holds -/

/-- A chain of array chunks that holds `left` bytes, with the numbers of its chunks. -/
inductive Chain (l : Leaf) : (cur left : Nat) → List Nat → List UInt8 → Prop
  | done {cur : Nat} : Chain l cur 0 [] []
  | link {cur left : Nat} {c : List UInt8} {rest : List Nat} {bytes : List UInt8}
      (hleft : 0 < left) (hchunk : l.chunk cur = some c)
      (harray : (c.getD 0 0).toNat = chunkArray)
      (hgoes : left > leafArrayBytes → l.endian.u16At c 22 ≠ chainEnd)
      (hrest : Chain l (l.endian.u16At c 22) (left - min left leafArrayBytes) rest bytes) :
      Chain l cur left (cur :: rest) ((c.drop 1).take (min left leafArrayBytes) ++ bytes)

/-- A chain that does not come back to a chunk. -/
def Holds (l : Leaf) (first len : Nat) (bytes : List UInt8) : Prop :=
  ∃ chunks, Chain l first len chunks bytes ∧ chunks.Nodup

def isEntry (l : Leaf) (i : Nat) : Bool :=
  match l.chunk i with
  | some c => (c.getD 0 0).toNat = chunkEntry
  | none => false

/-- The size of the integers of an entry chunk. -/
def intlen (l : Leaf) (i : Nat) : Nat := (((l.chunk i).getD []).getD 1 0).toNat

/-- The entry of chunk `i`: its name and its value are in the chains that the chunk points at. -/
def Reads (l : Leaf) (i : Nat) (entry : Entry) : Prop :=
  ∃ c name bytes, l.chunk i = some c ∧
    Holds l (l.endian.u16At c 4) (l.endian.u16At c 6) name ∧
    Holds l (l.endian.u16At c 8) (l.intlen i * l.endian.u16At c 10) bytes ∧
    entry = Entry.of name (value (l.intlen i) bytes) (l.endian.u32At c 12)

/-- An entry for each entry chunk, in the order of the chunks. -/
def Exact (l : Leaf) (found : List (Nat × Entry)) : Prop :=
  List.Forall₂ (fun i p => p.1 = i ∧ l.Reads i p.2) ((List.range l.nchunks).filter l.isEntry) found

/-! ## Reading a chain -/

/-- A chunk lies in the leaf, and is a slice of the block. -/
theorem chunk_eq_some {l : Leaf} {i : Nat} {c : List UInt8} (h : l.chunk i = some c) :
    i < l.nchunks ∧ c = (l.buf.drop (l.base + i * leafChunksize)).take leafChunksize := by
  unfold chunk at h
  dsimp only at h
  split at h
  · rename_i hin
    cases h
    exact ⟨hin.1, rfl⟩
  · cases h

theorem isEntry_eq {l : Leaf} {i : Nat} {c : List UInt8} (h : l.chunk i = some c) :
    l.isEntry i = decide ((c.getD 0 0).toNat = chunkEntry) := by
  unfold isEntry
  rw [h]

theorem intlen_eq {l : Leaf} {i : Nat} {c : List UInt8} (h : l.chunk i = some c) :
    l.intlen i = (c.getD 1 0).toNat := by
  unfold intlen
  rw [h, Option.getD_some]

theorem Chain.mem_lt {l : Leaf} {cur left : Nat} {chunks : List Nat} {bytes : List UInt8}
    (h : Chain l cur left chunks bytes) : ∀ i ∈ chunks, i < l.nchunks := by
  induction h with
  | done =>
    intro i hi
    cases hi
  | link hleft hchunk harray hgoes hrest ih =>
    intro i hi
    cases hi with
    | head => exact (chunk_eq_some hchunk).1
    | tail _ hi => exact ih i hi

/-- A chain without repetition is no longer than the leaf. -/
theorem length_le_of_nodup {chunks : List Nat} {n : Nat} (h : chunks.Nodup)
    (hlt : ∀ i ∈ chunks, i < n) : chunks.length ≤ n := by
  have hsub : chunks.toFinset ⊆ Finset.range n := by
    intro i hi
    exact Finset.mem_range.mpr (hlt i (List.mem_toFinset.mp hi))
  have hcard := Finset.card_le_card hsub
  rwa [List.toFinset_card_of_nodup h, Finset.card_range] at hcard

/-- Each round takes a byte at least, so more rounds than bytes change nothing. -/
theorem readArray_rounds (l : Leaf) (rounds left : Nat) (hrounds : left ≤ rounds) (cur hops : Nat)
    (out : List UInt8) :
    l.readArray rounds cur left hops out = l.readArray left cur left hops out := by
  induction left using Nat.strongRecOn generalizing rounds cur hops out with
  | _ left ih =>
    by_cases hzero : left = 0
    · subst hzero
      cases rounds <;> rfl
    · obtain ⟨rounds, rfl⟩ : ∃ r, rounds = r + 1 := ⟨rounds - 1, by omega⟩
      obtain ⟨left, rfl⟩ : ∃ k, left = k + 1 := ⟨left - 1, by omega⟩
      have hroom : leafArrayBytes = 21 := rfl
      unfold readArray
      rw [if_neg hzero, if_neg hzero]
      cases l.chunk cur with
      | none => rfl
      | some c =>
        dsimp only
        rw [ih (left + 1 - min (left + 1) leafArrayBytes) (by omega) rounds (by omega),
          ih (left + 1 - min (left + 1) leafArrayBytes) (by omega) left (by omega)]

/-- `readArray`, which says where its rounds are not enough. -/
def readWithin (l : Leaf) : (rounds cur left hops : Nat) → List UInt8 →
    Option (Except ParseError (List UInt8))
  | 0, _, left, _, out => if left = 0 then some (.ok out) else none
  | rounds + 1, cur, left, hops, out =>
    if left = 0 then some (.ok out)
    else match l.chunk cur with
    | none => some (.error (.malformed "ZAP array chunk index out of range" l.base))
    | some c =>
      if (c.getD 0 0).toNat ≠ chunkArray then
        some (.error (.malformed "ZAP array chain hits a non-array chunk" l.base))
      else
        let take := min left leafArrayBytes
        let next := l.endian.u16At c 22
        if left - take > 0 ∧ (next = chainEnd ∨ hops + 1 > l.nchunks) then
          some (.error (.malformed "ZAP array chain ends early" l.base))
        else readWithin l rounds next (left - take) (hops + 1) (out ++ (c.drop 1).take take)

/-- The rounds are enough, whatever the chain is like. -/
theorem readWithin_eq (l : Leaf) {rounds left : Nat} (hrounds : left ≤ rounds) (cur hops : Nat)
    (out : List UInt8) :
    l.readWithin rounds cur left hops out = some (l.readArray rounds cur left hops out) := by
  induction rounds generalizing cur left hops out with
  | zero =>
    unfold readWithin
    rw [if_pos (Nat.le_zero.mp hrounds)]
    rfl
  | succ rounds ih =>
    have hroom : leafArrayBytes = 21 := rfl
    unfold readWithin readArray
    by_cases hzero : left = 0
    · rw [if_pos hzero, if_pos hzero]
    · rw [if_neg hzero, if_neg hzero]
      cases l.chunk cur with
      | none => rfl
      | some c =>
        dsimp only
        rw [ih (by omega)]
        split
        · rfl
        · split <;> rfl

theorem Chain.readArray {l : Leaf} {cur left : Nat} {chunks : List Nat} {bytes : List UInt8}
    (h : Chain l cur left chunks bytes) {hops : Nat} (hhops : hops + chunks.length ≤ l.nchunks)
    (out : List UInt8) : l.readArray left cur left hops out = .ok (out ++ bytes) := by
  induction h generalizing hops out with
  | done =>
    rw [List.append_nil]
    rfl
  | @link cur left c rest bytes hleft hchunk harray hgoes hrest ih =>
    obtain ⟨left, rfl⟩ : ∃ k, left = k + 1 := ⟨left - 1, by omega⟩
    have hroom : leafArrayBytes = 21 := rfl
    rw [List.length_cons] at hhops
    have hnext : ¬ (left + 1 - min (left + 1) leafArrayBytes > 0 ∧
        (l.endian.u16At c 22 = chainEnd ∨ hops + 1 > l.nchunks)) := by
      rintro ⟨hmore, hend | hfar⟩
      · exact hgoes (by omega) hend
      · omega
    unfold Leaf.readArray
    rw [if_neg (Nat.succ_ne_zero left), hchunk]
    dsimp only
    rw [if_neg (not_not.mpr harray), if_neg hnext, readArray_rounds l left _ (by omega),
      ih (by omega), List.append_assoc]

/-- The decoder reads what a chain holds. -/
theorem Holds.array {l : Leaf} {first len : Nat} {bytes : List UInt8}
    (h : Holds l first len bytes) : l.array first len = .ok bytes := by
  obtain ⟨chunks, hchain, hnodup⟩ := h
  have hfits := length_le_of_nodup hnodup hchain.mem_lt
  have hstart : 0 + chunks.length ≤ l.nchunks := by omega
  have hread := hchain.readArray hstart []
  rwa [List.nil_append] at hread

/-! ## The fields of an entry -/

theorem getD_chunk {l : Leaf} {i k : Nat} {c : List UInt8} (h : l.chunk i = some c)
    (hk : k < leafChunksize) : l.buf.getD (l.base + i * leafChunksize + k) 0 = c.getD k 0 := by
  rw [(chunk_eq_some h).2, List.getD_eq_getElem?_getD, List.getD_eq_getElem?_getD,
    List.getElem?_take_of_lt hk, List.getElem?_drop]

theorem u16At_chunk {l : Leaf} {i k : Nat} {c : List UInt8} (h : l.chunk i = some c)
    (hk : k + 1 < leafChunksize) (e : Endian) :
    e.u16At l.buf (l.base + i * leafChunksize + k) = e.u16At c k := by
  have hlow := getD_chunk h (Nat.lt_of_succ_lt hk)
  have hhigh := getD_chunk h hk
  rw [← Nat.add_assoc] at hhigh
  unfold Endian.u16At
  rw [hlow, hhigh]

theorem u32At_chunk {l : Leaf} {i k : Nat} {c : List UInt8} (h : l.chunk i = some c)
    (hk : k + 3 < leafChunksize) (e : Endian) :
    e.u32At l.buf (l.base + i * leafChunksize + k) = e.u32At c k := by
  have hlow := u16At_chunk h (Nat.lt_of_succ_lt (Nat.lt_of_succ_lt hk)) e
  have hhigh := u16At_chunk (k := k + 2) h hk e
  rw [← Nat.add_assoc] at hhigh
  unfold Endian.u32At
  rw [hlow, hhigh]

/-- The width of the integers of a value. -/
def width : Value → Nat
  | .u64 _ => 8
  | .u64Array _ => 8
  | .bytes _ => 1
  | .ints intlen _ => intlen

theorem width_value (n : Nat) (bytes : List UInt8) : width (value n bytes) = n := by
  unfold value
  by_cases h8 : n = 8
  · rw [if_pos h8, h8]
    split <;> rfl
  · rw [if_neg h8]
    by_cases h1 : n = 1
    · rw [if_pos h1, h1]
      rfl
    · rw [if_neg h1]
      rfl

/-- An entry chunk that is read with its own width gives its entry. -/
theorem Reads.entryAt {l : Leaf} {i : Nat} {entry : Entry} (h : l.Reads i entry) :
    l.entryAt (l.base + i * leafChunksize) (l.intlen i) = .ok entry := by
  obtain ⟨c, name, bytes, hchunk, hname, hbytes, rfl⟩ := h
  unfold Leaf.entryAt
  rw [u16At_chunk hchunk (by decide), u16At_chunk hchunk (by decide),
    u16At_chunk hchunk (by decide), u16At_chunk hchunk (by decide),
    u32At_chunk hchunk (by decide), hname.array, hbytes.array]
  rfl

/-- And with another width it gives another. -/
theorem Reads.intlen_eq {l : Leaf} {i n : Nat} {entry : Entry} (h : l.Reads i entry)
    (hread : l.entryAt (l.base + i * leafChunksize) n = .ok entry) : n = l.intlen i := by
  obtain ⟨c, name, bytes, hchunk, hname, hbytes, rfl⟩ := h
  unfold Leaf.entryAt at hread
  rw [u16At_chunk hchunk (by decide), u16At_chunk hchunk (by decide), hname.array] at hread
  cases hvalue : l.array (l.endian.u16At l.buf (l.base + i * leafChunksize + 8))
      (n * l.endian.u16At l.buf (l.base + i * leafChunksize + 10)) with
  | error e =>
    rw [hvalue] at hread
    cases hread
  | ok bytes' =>
    rw [hvalue] at hread
    have hentry := Except.ok.inj hread
    have hwidth := congrArg (fun e : Entry => width e.value) hentry
    have hleft : width (value n bytes') = width (value (l.intlen i) bytes) := hwidth
    rwa [width_value, width_value] at hleft

/-! ## The loop over the chunks -/

/-- `entriesFrom` with the chunk of each entry. -/
def locatedFrom (l : Leaf) : (left i : Nat) → Except ParseError (List (Nat × Entry))
  | 0, _ => .ok []
  | left + 1, i =>
    match l.chunk (i % 65536) with
    | none => .ok []
    | some c =>
      if (c.getD 0 0).toNat ≠ chunkEntry then locatedFrom l left (i + 1)
      else do
        let entry ← l.entryAt (l.base + i * leafChunksize) (c.getD 1 0).toNat
        let rest ← locatedFrom l left (i + 1)
        pure ((i, entry) :: rest)

theorem entriesFrom_eq (l : Leaf) (left i : Nat) :
    l.entriesFrom left i = (l.locatedFrom left i).map (List.map Prod.snd) := by
  induction left generalizing i with
  | zero => rfl
  | succ left ih =>
    unfold entriesFrom locatedFrom
    cases l.chunk (i % 65536) with
    | none => rfl
    | some c =>
      dsimp only
      by_cases hkind : (c.getD 0 0).toNat ≠ chunkEntry
      · rw [if_pos hkind, if_pos hkind]
        exact ih (i + 1)
      · rw [if_neg hkind, if_neg hkind, ih (i + 1)]
        cases l.entryAt (l.base + i * leafChunksize) (c.getD 1 0).toNat with
        | error e => rfl
        | ok entry => cases l.locatedFrom left (i + 1) <;> rfl

/-- What the loop finds: an entry for each chunk `i` whose kind, looked up by the low 16 bits of
`i`, is that of an entry. -/
theorem locatedFrom_ok_iff {l : Leaf} (hchunks : ∀ i < l.nchunks, ∃ c, l.chunk i = some c)
    {left i : Nat} (hle : i + left ≤ l.nchunks) {found : List (Nat × Entry)} :
    l.locatedFrom left i = .ok found ↔
      List.Forall₂ (fun j p => p.1 = j ∧
          l.entryAt (l.base + j * leafChunksize) (l.intlen (j % 65536)) = .ok p.2)
        ((List.range' i left).filter (fun j => l.isEntry (j % 65536))) found := by
  induction left generalizing i found with
  | zero =>
    show Except.ok [] = Except.ok found ↔ List.Forall₂ _ [] found
    rw [Except.ok.injEq, List.forall₂_nil_left_iff]
    exact eq_comm
  | succ left ih =>
    have hmod : i % 65536 ≤ i := Nat.mod_le _ _
    obtain ⟨c, hc⟩ := hchunks (i % 65536) (by omega)
    have hentry := isEntry_eq hc
    have hintlen := intlen_eq hc
    have hrest : ∀ found, l.locatedFrom left (i + 1) = .ok found ↔ List.Forall₂ _ _ found :=
      fun found => ih (by omega)
    unfold locatedFrom
    rw [hc, List.range'_succ]
    dsimp only
    by_cases hkind : (c.getD 0 0).toNat = chunkEntry
    · rw [if_neg (not_not.mpr hkind), List.filter_cons_of_pos (by simpa [hentry] using hkind),
        List.forall₂_cons_left_iff, ← hintlen]
      constructor
      · intro h
        cases hread : l.entryAt (l.base + i * leafChunksize) (l.intlen (i % 65536)) with
        | error e =>
          rw [hread] at h
          cases h
        | ok entry =>
          cases hlater : l.locatedFrom left (i + 1) with
          | error e =>
            rw [hread, hlater] at h
            cases h
          | ok rest =>
            rw [hread, hlater] at h
            cases h
            exact ⟨(i, entry), rest, ⟨rfl, rfl⟩, (hrest rest).mp hlater, rfl⟩
      · rintro ⟨⟨j, entry⟩, rest, ⟨rfl, hread⟩, hlater, rfl⟩
        rw [hread, (hrest rest).mpr hlater]
        rfl
    · rw [if_pos hkind, List.filter_cons_of_neg (by simpa [hentry] using hkind)]
      exact hrest found

/-- Chunk `i` and the one that its low 16 bits name are entries of one width, or both none. -/
def Agrees (l : Leaf) (i : Nat) : Prop :=
  l.isEntry (i % 65536) = l.isEntry i ∧
    (l.isEntry i = true → l.intlen (i % 65536) = l.intlen i)

theorem agrees_of_lt (l : Leaf) {i : Nat} (h : i < 65536) : l.Agrees i := by
  unfold Agrees
  rw [Nat.mod_eq_of_lt h]
  exact ⟨rfl, fun _ => rfl⟩

section Pairs

variable {α β : Type*} {R S : α → β → Prop}

theorem forall₂_pair {as : List α} {bs : List β} (hr : List.Forall₂ R as bs)
    (hs : List.Forall₂ S as bs) {a : α} (ha : a ∈ as) : ∃ b, R a b ∧ S a b := by
  induction hr with
  | nil => cases ha
  | cons hab _ ih =>
    cases hs with
    | cons hab' hs =>
      cases ha with
      | head => exact ⟨_, hab, hab'⟩
      | tail _ ha => exact ih hs ha

theorem exists_forall₂ {as : List α} (h : ∀ a ∈ as, ∃ b, R a b) :
    ∃ bs, List.Forall₂ R as bs := by
  induction as with
  | nil => exact ⟨[], .nil⟩
  | cons a as ih =>
    obtain ⟨b, hb⟩ := h a List.mem_cons_self
    obtain ⟨bs, hbs⟩ := ih (fun a ha => h a (List.mem_cons_of_mem _ ha))
    exact ⟨b :: bs, .cons hb hbs⟩

/-- Pairs that name their elements name the list. -/
theorem map_fst_of_forall₂ (T : α → β → Prop) {as : List α} {ps : List (α × β)}
    (h : List.Forall₂ (fun a p => p.1 = a ∧ T a p.2) as ps) : ps.map Prod.fst = as := by
  induction h with
  | nil => rfl
  | cons hab _ ih => rw [List.map_cons, hab.1, ih]

end Pairs

/-- The loop finds the entries of a leaf exactly where every chunk agrees with the one that its
low 16 bits name. -/
theorem exact_iff {l : Leaf} (hchunks : ∀ i < l.nchunks, ∃ c, l.chunk i = some c)
    (hwell : ∀ i < l.nchunks, l.isEntry i = true → ∃ entry, l.Reads i entry) :
    (∃ found, l.locatedFrom l.nchunks 0 = .ok found ∧ l.Exact found) ↔
      ∀ i < l.nchunks, l.Agrees i := by
  have hfound : ∀ found, l.locatedFrom l.nchunks 0 = .ok found ↔
      List.Forall₂ (fun j p => p.1 = j ∧
          l.entryAt (l.base + j * leafChunksize) (l.intlen (j % 65536)) = .ok p.2)
        ((List.range l.nchunks).filter (fun j => l.isEntry (j % 65536))) found := by
    intro found
    rw [List.range_eq_range']
    exact locatedFrom_ok_iff hchunks (by omega)
  constructor
  · rintro ⟨found, hloop, hexact⟩ i hi
    have hread := (hfound found).mp hloop
    have hpositions := map_fst_of_forall₂ (fun j entry =>
      l.entryAt (l.base + j * leafChunksize) (l.intlen (j % 65536)) = .ok entry) hread
    have hsame := hpositions.symm.trans (map_fst_of_forall₂ l.Reads hexact)
    have hmem : ∀ j, j ∈ (List.range l.nchunks).filter (fun j => l.isEntry (j % 65536)) ↔
        j ∈ (List.range l.nchunks).filter l.isEntry := fun j => by rw [hsame]
    have hkind : l.isEntry (i % 65536) = l.isEntry i := by
      have hiff := hmem i
      simp only [List.mem_filter, List.mem_range, hi, true_and] at hiff
      exact Bool.eq_iff_iff.mpr hiff
    refine ⟨hkind, fun hentry => ?_⟩
    rw [hsame] at hread
    have hin : i ∈ (List.range l.nchunks).filter l.isEntry :=
      List.mem_filter.mpr ⟨List.mem_range.mpr hi, hentry⟩
    obtain ⟨p, ⟨-, hp⟩, -, hreads⟩ := forall₂_pair hread hexact hin
    exact hreads.intlen_eq hp
  · intro hagrees
    have hsame : (List.range l.nchunks).filter (fun j => l.isEntry (j % 65536)) =
        (List.range l.nchunks).filter l.isEntry := by
      apply List.filter_congr
      intro j hj
      exact (hagrees j (List.mem_range.mp hj)).1
    have hentries : ∀ i ∈ (List.range l.nchunks).filter l.isEntry,
        ∃ p : Nat × Entry, p.1 = i ∧ l.Reads i p.2 := by
      intro i hi
      obtain ⟨hlt, hentry⟩ := List.mem_filter.mp hi
      obtain ⟨entry, hreads⟩ := hwell i (List.mem_range.mp hlt) hentry
      exact ⟨(i, entry), rfl, hreads⟩
    obtain ⟨found, hexact⟩ := exists_forall₂ hentries
    refine ⟨found, (hfound found).mpr ?_, hexact⟩
    rw [hsame]
    have hlist : List.Forall₂ (fun i p => p.1 = i ∧ l.Reads i p.2)
        ((List.range l.nchunks).filter l.isEntry) found := hexact
    rw [List.forall₂_iff_get] at hlist ⊢
    refine ⟨hlist.1, fun k hk hk' => ?_⟩
    obtain ⟨hpos, hreads⟩ := hlist.2 k hk hk'
    obtain ⟨hlt, hentry⟩ := List.mem_filter.mp (List.get_mem _ ⟨k, hk⟩)
    rw [(hagrees _ (List.mem_range.mp hlt)).2 hentry]
    exact ⟨hpos, hreads.entryAt⟩

/-! ## Blocks -/

/-- A block that is a leaf of a size that is read, with entries whose chains hold. -/
structure WellFormed (buf : List UInt8) (endian : Endian) : Prop where
  kind : blockType buf endian = some .leaf
  power : 2 ^ Nat.log2 buf.length = buf.length
  large : 1024 ≤ buf.length
  magic : endian.u32At buf 24 = leafMagic
  entries : ∀ i < (ofBlock buf endian).nchunks, (ofBlock buf endian).isEntry i = true →
    ∃ entry, (ofBlock buf endian).Reads i entry

/-- `parseLeaf` with the chunk of each entry. -/
def parseLocated (buf : List UInt8) (endian : Endian) :
    Except ParseError (List (Nat × Entry)) :=
  if blockType buf endian ≠ some .leaf then .error (.malformed "not a ZAP leaf block" 0)
  else if 2 ^ Nat.log2 buf.length ≠ buf.length ∨ buf.length < 1024 then
    .error (.malformed "leaf block size not a power of two >= 1 KiB" 0)
  else if endian.u32At buf 24 ≠ leafMagic then .error (.badMagic (endian.u32At buf 24))
  else (ofBlock buf endian).locatedFrom (ofBlock buf endian).nchunks 0

theorem parseLeaf_eq (buf : List UInt8) (endian : Endian) :
    parseLeaf buf endian = (parseLocated buf endian).map (List.map Prod.snd) := by
  unfold parseLeaf parseLocated
  split
  · rfl
  · dsimp only
    split
    · rfl
    · split
      · rfl
      · exact entriesFrom_eq (ofBlock buf endian) _ 0

/-- The chunks of a leaf of `2 ^ s` bytes lie in it. -/
theorem chunks_fit {s : Nat} (hs : 10 ≤ s) :
    leafChunksOffset s + leafNumchunks s * leafChunksize ≤ 2 ^ s := by
  have hsplit : 2 ^ s = 32 * 2 ^ (s - 5) := by
    rw [show s = 5 + (s - 5) by omega, Nat.pow_add, Nat.add_sub_cancel_left]
  have hlarge : 2 ^ 5 ≤ 2 ^ (s - 5) := Nat.pow_le_pow_right (by decide) (by omega)
  unfold leafChunksOffset leafNumchunks leafHashEntries leafHeaderSize leafChunksize
  rw [hsplit]
  omega

theorem chunk_of_lt {l : Leaf} (hfit : l.base + l.nchunks * leafChunksize ≤ l.buf.length) {i : Nat}
    (hi : i < l.nchunks) : ∃ c, l.chunk i = some c := by
  have hle : (i + 1) * leafChunksize ≤ l.nchunks * leafChunksize := Nat.mul_le_mul_right _ hi
  rw [Nat.succ_mul] at hle
  have hin : i < l.nchunks ∧ l.base + i * leafChunksize + leafChunksize ≤ l.buf.length :=
    ⟨hi, by omega⟩
  exact ⟨_, if_pos hin⟩

theorem WellFormed.chunks {buf : List UInt8} {endian : Endian} (h : WellFormed buf endian) :
    ∀ i < (ofBlock buf endian).nchunks, ∃ c, (ofBlock buf endian).chunk i = some c := by
  have hlarge := h.large
  have hs : 10 ≤ Nat.log2 buf.length := (Nat.le_log2 (by omega)).mpr hlarge
  have hfit := chunks_fit hs
  rw [h.power] at hfit
  exact fun i hi => chunk_of_lt hfit hi

theorem WellFormed.parseLocated {buf : List UInt8} {endian : Endian} (h : WellFormed buf endian) :
    parseLocated buf endian =
      (ofBlock buf endian).locatedFrom (ofBlock buf endian).nchunks 0 := by
  unfold Leaf.parseLocated
  have hlarge := h.large
  rw [if_neg (not_not.mpr h.kind), if_neg, if_neg (not_not.mpr h.magic)]
  rintro (hpower | hsmall)
  · exact hpower h.power
  · omega

/-- The decoder yields an entry for each entry chunk, from the chains of that chunk. -/
def ParsesExactly (buf : List UInt8) (endian : Endian) : Prop :=
  ∃ found, Leaf.parseLocated buf endian = .ok found ∧ (ofBlock buf endian).Exact found

theorem WellFormed.parsesExactly_iff {buf : List UInt8} {endian : Endian}
    (h : WellFormed buf endian) : ParsesExactly buf endian ↔
      ∀ i < (ofBlock buf endian).nchunks, (ofBlock buf endian).Agrees i := by
  unfold ParsesExactly
  rw [h.parseLocated]
  exact exact_iff h.chunks h.entries

/-- A well-formed leaf is decoded exactly where each of its chunks from 65536 on agrees with the
one that its low 16 bits name.  Every chain is followed to an end, well-formed or not. -/
theorem parseLeaf_exact_iff (buf : List UInt8) (endian : Endian) :
    (∀ first len, (ofBlock buf endian).readWithin len first len 0 [] =
      some ((ofBlock buf endian).array first len)) ∧
    parseLeaf buf endian = (Leaf.parseLocated buf endian).map (List.map Prod.snd) ∧
    (WellFormed buf endian → (ParsesExactly buf endian ↔
      ∀ i < (ofBlock buf endian).nchunks, 65536 ≤ i → (ofBlock buf endian).Agrees i)) := by
  refine ⟨fun first len => readWithin_eq _ (Nat.le_refl len) first 0 [], parseLeaf_eq buf endian,
    fun h => h.parsesExactly_iff.trans ⟨fun hall i hi _ => hall i hi, fun hlate i hi => ?_⟩⟩
  by_cases hearly : i < 65536
  · exact agrees_of_lt _ hearly
  · exact hlate i hi (Nat.le_of_not_lt hearly)

/-! ### A leaf with an entry -/

/-- The head of a leaf: what it is, and the magic number. -/
def head : List UInt8 :=
  [0, 0, 0, 0, 0, 0, 0, 0x80] ++ List.replicate 16 0 ++ [0xaf, 0x1e, 0xab, 0x02]

/-- A leaf of a kilobyte: a chunk of two bytes, and an entry that has them as its name and as
its value. -/
def smallLeaf : List UInt8 :=
  head ++ List.replicate 84 0 ++ ([251, 97] ++ List.replicate 20 0 ++ [0xff, 0xff]) ++
    ([252, 1, 0xff, 0xff, 0, 0, 2, 0, 0, 0, 2, 0] ++ List.replicate 12 0) ++ List.replicate 864 0

theorem smallLeaf_holds : (ofBlock smallLeaf .little).Holds 0 2 [97, 0] := by
  have hlink : Chain (ofBlock smallLeaf .little) 0 2 [0] [97, 0] :=
    .link (c := [251, 97] ++ List.replicate 20 0 ++ [0xff, 0xff]) (by decide) (by decide +kernel)
      (by decide) (by decide) .done
  exact ⟨[0], hlink, List.nodup_singleton 0⟩

theorem smallLeaf_wellFormed : WellFormed smallLeaf .little := by
  refine ⟨by decide +kernel, by decide +kernel, by decide +kernel, by decide, ?_⟩
  have honly : ∀ i < (ofBlock smallLeaf .little).nchunks,
      (ofBlock smallLeaf .little).isEntry i = true → i = 1 := by decide +kernel
  intro i hi hentry
  obtain rfl := honly i hi hentry
  have hchunk : (ofBlock smallLeaf .little).chunk 1 =
      some ([252, 1, 0xff, 0xff, 0, 0, 2, 0, 0, 0, 2, 0] ++ List.replicate 12 0) := by
    decide +kernel
  have hwidth : (ofBlock smallLeaf .little).intlen 1 = 1 := by decide +kernel
  refine ⟨_, _, [97, 0], [97, 0], hchunk, smallLeaf_holds, ?_, rfl⟩
  rw [hwidth]
  exact smallLeaf_holds

theorem parseLeaf_exact_iff_small : ParsesExactly smallLeaf .little := by
  refine ((parseLeaf_exact_iff smallLeaf .little).2.2 smallLeaf_wellFormed).mpr ?_
  intro i hi hlate
  have hcount : (ofBlock smallLeaf .little).nchunks = 38 := by decide +kernel
  omega

/-! ### A leaf with too many chunks -/

/-- Zeros but for one entry chunk; its name and its value are empty. -/
def padded (before after : Nat) : List UInt8 :=
  List.replicate before 0 ++ ((252 :: List.replicate 23 0) ++ List.replicate after 0)

def loneEntry (before after : Nat) : List UInt8 := head ++ padded before after

section LoneEntry

variable (before after : Nat)

theorem loneEntry_length : (loneEntry before after).length = 52 + before + after := by
  have hhead : head.length = 28 := rfl
  rw [loneEntry, padded, List.length_append, List.length_append, List.length_append,
    List.length_cons, List.length_replicate, List.length_replicate, List.length_replicate, hhead]
  omega

theorem loneEntry_behind (k : Nat) :
    (loneEntry before after).getD (28 + k) 0 = (padded before after).getD k 0 := by
  have hhead : head.length = 28 := rfl
  rw [loneEntry, List.getD_append_right _ _ _ _ (by omega), hhead, Nat.add_sub_cancel_left]

theorem loneEntry_kind : (loneEntry before after).getD (28 + before) 0 = 252 := by
  rw [loneEntry_behind, padded,
    List.getD_append_right _ _ _ _ (by rw [List.length_replicate]),
    List.length_replicate, Nat.sub_self]
  rfl

theorem getD_zeros (n k : Nat) : (List.replicate n (0 : UInt8)).getD k 0 = 0 := by
  by_cases hk : k < n
  · exact List.getD_replicate _ hk
  · exact List.getD_eq_default _ _ (by rw [List.length_replicate]; omega)

theorem loneEntry_zero {k : Nat} (hhead : 28 ≤ k) (hk : k ≠ 28 + before) :
    (loneEntry before after).getD k 0 = 0 := by
  obtain ⟨k, rfl⟩ : ∃ j, k = 28 + j := ⟨k - 28, by omega⟩
  rw [loneEntry_behind, padded]
  by_cases hfirst : k < before
  · rw [List.getD_append _ _ _ _ (by rw [List.length_replicate]; exact hfirst)]
    exact getD_zeros _ _
  · obtain ⟨j, rfl⟩ : ∃ j, k = before + (j + 1) := ⟨k - before - 1, by omega⟩
    rw [List.getD_append_right _ _ _ _ (by rw [List.length_replicate]; omega),
      List.length_replicate, Nat.add_sub_cancel_left, List.cons_append, List.getD_cons_succ]
    by_cases hnext : j < 23
    · rw [List.getD_append _ _ _ _ (by rw [List.length_replicate]; exact hnext)]
      exact getD_zeros _ _
    · rw [List.getD_append_right _ _ _ _ (by rw [List.length_replicate]; omega)]
      exact getD_zeros _ _

/-- The head of the leaf says what it is. -/
theorem loneEntry_head : blockType (loneEntry before after) .little = some .leaf ∧
    Endian.little.u32At (loneEntry before after) 24 = leafMagic := by
  have hword : Endian.little.u64At (loneEntry before after) 0 =
      some (Endian.little.value (head.take 8)) := by
    rw [Endian.u64At, if_pos (by rw [loneEntry_length]; omega), List.drop_zero, loneEntry,
      List.take_append_of_le_length (by decide)]
  have hbyte : ∀ k < 28, (loneEntry before after).getD k 0 = head.getD k 0 :=
    fun k hk => List.getD_append _ _ _ _ hk
  constructor
  · rw [blockType, hword]
    decide
  · unfold Endian.u32At Endian.u16At
    dsimp only
    rw [hbyte _ (by decide), hbyte _ (by decide), hbyte _ (by decide), hbyte _ (by decide)]
    decide

end LoneEntry

/-- A leaf of two megabytes, with its entry in chunk 65536. -/
@[irreducible] def bigLeaf : List UInt8 := loneEntry 1703956 393144

theorem bigLeaf_length : bigLeaf.length = 2 ^ 21 := by
  rw [bigLeaf, loneEntry_length]
  omega

theorem bigLeaf_shift : Nat.log2 bigLeaf.length = 21 := by
  rw [bigLeaf_length]
  exact Nat.log2_two_pow

theorem bigLeaf_nchunks : (ofBlock bigLeaf .little).nchunks = 81918 := by
  show leafNumchunks (Nat.log2 bigLeaf.length) = _
  rw [bigLeaf_shift]
  decide

theorem bigLeaf_base : (ofBlock bigLeaf .little).base = 131120 := by
  show leafChunksOffset (Nat.log2 bigLeaf.length) = _
  rw [bigLeaf_shift]
  decide

/-- Every chunk is there, and all but the first byte of the entry is zero. -/
theorem bigLeaf_chunk {i : Nat} (hi : i < 81918) :
    ∃ c, (ofBlock bigLeaf .little).chunk i = some c ∧
      ∀ k < leafChunksize, c.getD k 0 = if i = 65536 ∧ k = 0 then 252 else 0 := by
  have hfit : (ofBlock bigLeaf .little).base + (ofBlock bigLeaf .little).nchunks * leafChunksize ≤
      (ofBlock bigLeaf .little).buf.length := by
    rw [bigLeaf_base, bigLeaf_nchunks]
    show _ ≤ bigLeaf.length
    rw [bigLeaf_length]
    decide
  rw [← bigLeaf_nchunks] at hi
  obtain ⟨c, hc⟩ := chunk_of_lt hfit hi
  refine ⟨c, hc, fun k hk => ?_⟩
  have hbyte : bigLeaf.getD ((ofBlock bigLeaf .little).base + i * leafChunksize + k) 0 =
      c.getD k 0 := getD_chunk hc hk
  have hsize : leafChunksize = 24 := rfl
  rw [bigLeaf_base] at hbyte
  rw [← hbyte, bigLeaf]
  rw [hsize] at hk ⊢
  by_cases hentry : i = 65536 ∧ k = 0
  · have hat : 131120 + i * 24 + k = 28 + 1703956 := by omega
    rw [if_pos hentry, hat, loneEntry_kind]
  · rw [if_neg hentry, loneEntry_zero _ _ (by omega) (by omega)]

theorem bigLeaf_isEntry {i : Nat} (hi : i < 81918) :
    (ofBlock bigLeaf .little).isEntry i = decide (i = 65536) := by
  obtain ⟨c, hc, hbytes⟩ := bigLeaf_chunk hi
  rw [isEntry_eq hc, hbytes 0 (by decide)]
  by_cases hentry : i = 65536
  · rw [if_pos ⟨hentry, rfl⟩, decide_eq_true hentry]
    rfl
  · rw [if_neg (fun h => hentry h.1), decide_eq_false hentry]
    rfl

theorem bigLeaf_wellFormed : WellFormed bigLeaf .little := by
  have hhead := loneEntry_head 1703956 393144
  rw [← bigLeaf] at hhead
  refine ⟨hhead.1, ?_, ?_, hhead.2, ?_⟩
  · rw [bigLeaf_shift, bigLeaf_length]
  · rw [bigLeaf_length]
    decide
  · intro i hi hentry
    rw [bigLeaf_nchunks] at hi
    obtain ⟨c, hc, hbytes⟩ := bigLeaf_chunk hi
    have hzero : ∀ k, 0 < k → k + 1 < leafChunksize → Endian.little.u16At c k = 0 := by
      intro k hpos hk
      unfold Endian.u16At
      dsimp only
      rw [hbytes k (by omega), hbytes (k + 1) hk, if_neg (by omega), if_neg (by omega)]
      rfl
    have hname : (ofBlock bigLeaf .little).Holds (Endian.little.u16At c 4)
        (Endian.little.u16At c 6) [] := by
      rw [hzero 6 (by decide) (by decide)]
      exact ⟨[], .done, List.nodup_nil⟩
    have hvalue : (ofBlock bigLeaf .little).Holds (Endian.little.u16At c 8)
        ((ofBlock bigLeaf .little).intlen i * Endian.little.u16At c 10) [] := by
      rw [hzero 10 (by decide) (by decide), Nat.mul_zero]
      exact ⟨[], .done, List.nodup_nil⟩
    exact ⟨_, c, [], [], hc, hname, hvalue, rfl⟩

/-- The entry in chunk 65536 is missed, as chunk 0 is none. -/
theorem bigLeaf_missed :
    ¬ ∀ (buf : List UInt8) (endian : Endian), WellFormed buf endian → ParsesExactly buf endian := by
  intro h
  have hagrees := bigLeaf_wellFormed.parsesExactly_iff.mp (h _ _ bigLeaf_wellFormed) 65536
  rw [bigLeaf_nchunks] at hagrees
  have hsame := (hagrees (by decide)).1
  rw [bigLeaf_isEntry (by decide), bigLeaf_isEntry (by decide)] at hsame
  exact absurd hsame (by decide)

end Leaf
end Zap
end Ondisk
end ZvolRescue
