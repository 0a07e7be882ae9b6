import ZvolRescue.Ondisk.NvlistSpans

/-!
# Writing lists of named values

The encoder of lists, and that the parser reads back what it writes.
-/

namespace ZvolRescue
namespace Ondisk

open Lib

namespace Encode

/-- The low `width` bytes of a number, the highest first. -/
def beBytes : (width n : Nat) → List UInt8
  | 0, _ => []
  | width + 1, n => UInt8.ofNat (n / 256 ^ width) :: beBytes width n

def be32 (i : Int) : List UInt8 := beBytes 4 (i % 2 ^ 32).toNat

def be64 (i : Int) : List UInt8 := beBytes 8 (i % 2 ^ 64).toNat

def asBytes (s : String) : List UInt8 := s.toUTF8.data.toList

def pad4 (v : List UInt8) : List UInt8 := v ++ List.replicate ((4 - v.length % 4) % 4) 0

def putString (v : List UInt8) (s : String) : List UInt8 :=
  pad4 (v ++ be32 (asBytes s).length ++ asBytes s)

/-- The code of the type a value is written with, and its number of elements. -/
def typeOf : Value → Int × Int
  | .boolean => (1, 0)
  | .bool _ => (21, 1)
  | .int _ => (5, 1)
  | .uint64 _ => (8, 1)
  | .int64 _ => (7, 1)
  | .double _ => (27, 1)
  | .string _ => (9, 1)
  | .bytes b => (10, b.length)
  | .intArray a => (13, a.length)
  | .uint64Array a => (16, a.length)
  | .int64Array a => (15, a.length)
  | .boolArray a => (24, a.length)
  | .stringArray a => (17, a.length)
  | .list _ => (19, 1)
  | .listArray a => (20, a.length)
  | .unknown typeCode nelem => (typeCode, nelem)

def align8 (n : Nat) : Nat := (n + 7) / 8 * 8

def nvlistT : Nat := 24

/-- The size of a pair in memory. -/
def decodedSize (name : String) (value : Value) : Nat :=
  let valueSz := match value with
    | .boolean | .unknown .. => 0
    | .bool _ | .int _ => 4
    | .uint64 _ | .int64 _ | .double _ => 8
    | .string s => (asBytes s).length + 1
    | .bytes b => b.length
    | .intArray a => a.length * 4
    | .uint64Array a => a.length * 8
    | .int64Array a => a.length * 8
    | .boolArray a => a.length * 4
    | .stringArray a => a.length * 8 + (a.map (fun s => (asBytes s).length + 1)).sum
    | .list _ => nvlistT
    | .listArray a => a.length * 8 + a.length * nvlistT
  align8 (16 + (asBytes name).length + 1) + align8 valueSz

mutual

def putList (v : List UInt8) : NvList → List UInt8
  | .mk version flags pairs => putPairs (v ++ be32 version ++ be32 flags) pairs ++ be32 0 ++ be32 0

def putPairs (v : List UInt8) : List (String × Value) → List UInt8
  | [] => v
  | (name, value) :: pairs =>
    let body := putString [] name
    let body := body ++ be32 (typeOf value).1 ++ be32 (typeOf value).2
    let body := putValue body value
    putPairs (v ++ be32 ((body.length + 8 : Nat) : Int) ++ be32 (decodedSize name value) ++ body)
      pairs

def putValue (body : List UInt8) : Value → List UInt8
  | .boolean | .unknown .. => body
  | .bool b => body ++ be32 (if b then 1 else 0)
  | .int i => body ++ be32 i
  | .uint64 u => body ++ be64 u
  | .int64 i => body ++ be64 i
  | .double bits => body ++ be64 bits
  | .string s => putString body s
  | .bytes b => pad4 (body ++ b)
  | .intArray a => body ++ be32 a.length ++ a.flatMap be32
  | .uint64Array a => body ++ be32 a.length ++ a.flatMap (fun u : Nat => be64 u)
  | .int64Array a => body ++ be32 a.length ++ a.flatMap be64
  | .boolArray a => body ++ be32 a.length ++ a.flatMap (fun b => be32 (if b then 1 else 0))
  | .stringArray a => a.foldl putString body
  | .list l => putList body l
  | .listArray a => putLists body a

def putLists (body : List UInt8) : List NvList → List UInt8
  | [] => body
  | l :: ls => putLists (putList body l) ls

end

/-- The name of a pair, its type, its number of elements and its value. -/
def pairBody (name : String) (value : Value) : List UInt8 :=
  putValue (putString [] name ++ be32 (typeOf value).1 ++ be32 (typeOf value).2) value

/-- A list packed behind its header. -/
def pack (l : NvList) : List UInt8 := putList [1, 1, 0, 0] l

/-! ## What fits the format -/

def IsI32 (i : Int) : Prop := -2 ^ 31 ≤ i ∧ i < 2 ^ 31

def IsI64 (i : Int) : Prop := -2 ^ 63 ≤ i ∧ i < 2 ^ 63

/-- The length of a string fits its field. -/
def IsString (s : String) : Prop := (asBytes s).length < 2 ^ 32

mutual

/-- Every number of the list fits its field, and it nests less than `depth` deep. -/
def NvListFits (depth : Nat) : NvList → Prop
  | .mk version flags pairs =>
    0 < depth ∧ IsI32 version ∧ flags < 2 ^ 32 ∧ pairs.length ≤ nvMaxPairs ∧
      PairsFit (depth - 1) pairs

def PairsFit (depth : Nat) : List (String × Value) → Prop
  | [] => True
  | (name, value) :: pairs =>
    IsString name ∧ IsI32 (typeOf value).2 ∧ IsI32 ((pairBody name value).length + 8 : Nat) ∧
      ValueFits depth value ∧ PairsFit depth pairs

def ValueFits (depth : Nat) : Value → Prop
  | .boolean | .bool _ | .bytes _ | .boolArray _ => True
  | .int i => IsI32 i
  | .uint64 u => u < 2 ^ 64
  | .int64 i => IsI64 i
  | .double bits => bits < 2 ^ 64
  | .string s => IsString s
  | .intArray a => ∀ i ∈ a, IsI32 i
  | .uint64Array a => ∀ u ∈ a, u < 2 ^ 64
  | .int64Array a => ∀ i ∈ a, IsI64 i
  | .stringArray a => ∀ s ∈ a, IsString s
  | .list l => NvListFits depth l
  | .listArray ls => NvListsFit depth ls
  -- The types from 1 to 27 are decoded.
  | .unknown typeCode _ => IsI32 typeCode ∧ (typeCode < 1 ∨ 27 < typeCode)

def NvListsFit (depth : Nat) : List NvList → Prop
  | [] => True
  | l :: ls => NvListFits depth l ∧ NvListsFit depth ls

end

end Encode

open Encode

/-! ## Numbers -/

@[simp]
theorem length_beBytes (width n : Nat) : (beBytes width n).length = width := by
  induction width with
  | zero => rfl
  | succ width ih => simp [beBytes, ih]

@[simp]
theorem length_be32 (i : Int) : (be32 i).length = 4 := length_beBytes _ _

@[simp]
theorem length_be64 (i : Int) : (be64 i).length = 8 := length_beBytes _ _

theorem beValue_beBytes (width n : Nat) : Read.beValue (beBytes width n) = n % 256 ^ width := by
  have hfold : ∀ acc, (beBytes width n).foldl (fun acc b => acc * 256 + b.toNat) acc =
      acc * 256 ^ width + n % 256 ^ width := by
    induction width with
    | zero => simp [beBytes, Nat.mod_one]
    | succ width ih =>
      intro acc
      have hdigit : (UInt8.ofNat (n / 256 ^ width)).toNat = n / 256 ^ width % 256 := by simp
      rw [beBytes, List.foldl_cons, ih, hdigit, Nat.pow_succ, Nat.mod_mul]
      ring
  simpa [Read.beValue] using hfold 0

theorem signed_of_mod {width : Nat} {i : Int} (hwidth : 0 < width) (hlow : -2 ^ (width - 1) ≤ i)
    (hhigh : i < 2 ^ (width - 1)) : Read.signed width (i % 2 ^ width).toNat = i := by
  obtain ⟨w, rfl⟩ : ∃ w, width = w + 1 := ⟨width - 1, by omega⟩
  have hpow : (2 : Int) ^ (w + 1) = 2 * 2 ^ w := by ring
  have hpow' : (2 : Nat) ^ (w + 1) = 2 * 2 ^ w := by ring
  have hcast : ((2 ^ w : Nat) : Int) = 2 ^ w := by simp
  simp only [Nat.add_sub_cancel] at hlow hhigh
  by_cases hi : 0 ≤ i
  · have hmod : i % 2 ^ (w + 1) = i := Int.emod_eq_of_lt hi (by omega)
    simp only [Read.signed, hmod, Nat.add_sub_cancel]
    rw [Nat.mod_eq_of_lt (by omega), if_pos (by omega)]
    exact Int.toNat_of_nonneg hi
  · have hmod : i % 2 ^ (w + 1) = i + 2 ^ (w + 1) := by
      rw [← Int.add_emod_right, Int.emod_eq_of_lt (by omega) (by omega)]
    simp only [Read.signed, hmod, Nat.add_sub_cancel]
    rw [Nat.mod_eq_of_lt (by omega), if_neg (by omega), Int.toNat_of_nonneg (by omega)]
    omega

/-! ## Text -/

theorem isCont_iff {b : UInt8} : isCont b = true ↔ 128 ≤ b.toNat ∧ b.toNat ≤ 191 := by
  simp [isCont, UInt8.le_iff_toNat_le]

theorem isSecond_of {b0 b1 : UInt8} (hlow : 128 ≤ b1.toNat) (hhigh : b1.toNat ≤ 191)
    (he0 : b0.toNat = 0xe0 → 0xa0 ≤ b1.toNat) (hed : b0.toNat = 0xed → b1.toNat ≤ 0x9f)
    (hf0 : b0.toNat = 0xf0 → 0x90 ≤ b1.toNat) (hf4 : b0.toNat = 0xf4 → b1.toNat ≤ 0x8f) :
    isSecond b0 b1 = true := by
  rw [isSecond]
  simp only [← UInt8.toNat_inj, UInt8.le_iff_toNat_le, UInt8.reduceToNat, decide_eq_true_eq,
    apply_ite (fun b : Bool => b = true), isCont_iff]
  split_ifs <;> omega

/-- A character is read back from its own bytes, whatever follows. -/
theorem utf8Head_encode (c : Char) (rest : List UInt8) :
    utf8Head (String.utf8EncodeChar c ++ rest) = (some c, (String.utf8EncodeChar c).length) := by
  have hc : Char.ofNat c.val.toNat = c := Char.ofNat_toNat c
  have hvalid : c.val.toNat < 0xd800 ∨ 0xdfff < c.val.toNat ∧ c.val.toNat < 0x110000 := c.valid
  have hbyte : ∀ n, n < 256 → (UInt8.ofNat n).toNat = n := fun n hn => by simp; omega
  have hbits : ∀ n, n < 256 → contBits (UInt8.ofNat n) = n % 64 := fun n hn => by
    rw [contBits, hbyte n hn]
  have hcont : ∀ n, n < 64 → isCont (UInt8.ofNat (n + 0x80)) = true := fun n hn =>
    isCont_iff.mpr (by rw [hbyte _ (by omega)]; omega)
  rw [String.utf8EncodeChar]
  generalize hv : c.val.toNat = v at hc hvalid
  split_ifs with h1 h2 h3
  · simp only [List.cons_append, List.nil_append, utf8Head, UInt8.lt_iff_toNat_lt,
      UInt8.reduceToNat, List.length_singleton]
    rw [hbyte v (by omega), if_pos (by omega), hc]
  · simp only [List.cons_append, List.nil_append, utf8Head, UInt8.lt_iff_toNat_lt,
      UInt8.le_iff_toNat_le, UInt8.reduceToNat, List.length_cons, List.length_nil]
    rw [hbyte (v / 64 % 32 + 0xc0) (by omega), if_neg (by omega), if_pos (by omega),
      if_pos (hcont _ (by omega)), hbits _ (by omega)]
    rw [show (v / 64 % 32 + 0xc0) % 32 * 64 + (v % 64 + 0x80) % 64 = v by omega, hc]
  · simp only [List.cons_append, List.nil_append, utf8Head, UInt8.lt_iff_toNat_lt,
      UInt8.le_iff_toNat_le, UInt8.reduceToNat, List.length_cons, List.length_nil]
    rw [hbyte (v / 4096 % 16 + 0xe0) (by omega), if_neg (by omega), if_neg (by omega),
      if_pos (by omega), if_pos ?_, if_pos (hcont _ (by omega)), hbits _ (by omega),
      hbits _ (by omega)]
    · rw [show (v / 4096 % 16 + 0xe0) % 16 * 4096 + (v / 64 % 64 + 0x80) % 64 * 64 +
        (v % 64 + 0x80) % 64 = v by omega, hc]
    · apply isSecond_of
      all_goals rw [hbyte (v / 64 % 64 + 0x80) (by omega)]
      all_goals try rw [hbyte (v / 4096 % 16 + 0xe0) (by omega)]
      all_goals omega
  · simp only [List.cons_append, List.nil_append, utf8Head, UInt8.lt_iff_toNat_lt,
      UInt8.le_iff_toNat_le, UInt8.reduceToNat, List.length_cons, List.length_nil]
    rw [hbyte (v / 262144 % 8 + 0xf0) (by omega), if_neg (by omega), if_neg (by omega),
      if_neg (by omega), if_pos (by omega), if_pos ?_, if_pos (hcont _ (by omega)),
      if_pos (hcont _ (by omega)), hbits _ (by omega), hbits _ (by omega), hbits _ (by omega)]
    · rw [show (v / 262144 % 8 + 0xf0) % 8 * 262144 + (v / 4096 % 64 + 0x80) % 64 * 4096 +
        (v / 64 % 64 + 0x80) % 64 * 64 + (v % 64 + 0x80) % 64 = v by omega, hc]
    · apply isSecond_of
      all_goals rw [hbyte (v / 4096 % 64 + 0x80) (by omega)]
      all_goals try rw [hbyte (v / 262144 % 8 + 0xf0) (by omega)]
      all_goals omega

theorem asBytes_eq (s : String) : asBytes s = s.toList.flatMap String.utf8EncodeChar := by
  show s.toByteArray.data.toList = _
  rw [← String.utf8Encode_toList, List.utf8Encode, List.toList_data_toByteArray]

theorem utf8Chars_encode (cs : List Char) {fuel : Nat}
    (hfuel : (cs.flatMap String.utf8EncodeChar).length ≤ fuel) :
    utf8Chars fuel (cs.flatMap String.utf8EncodeChar) = cs.map some := by
  induction cs generalizing fuel with
  | nil => cases fuel <;> rfl
  | cons c cs ih =>
    have hne := String.utf8EncodeChar_ne_nil (c := c)
    have hpos := List.length_pos_iff.mpr hne
    rw [List.flatMap_cons, List.length_append] at hfuel
    obtain ⟨more, rfl⟩ : ∃ more, fuel = more + 1 := ⟨fuel - 1, by omega⟩
    rw [List.flatMap_cons, utf8Chars, utf8Head_encode, if_neg (by simp [hne])]
    simp only [List.drop_left, List.map_cons]
    rw [ih (by omega)]

/-- Text is read back from its bytes. -/
theorem fromUtf8Lossy_asBytes (s : String) : fromUtf8Lossy (asBytes s) = s := by
  rw [fromUtf8Lossy, asBytes_eq, utf8Chars_encode _ le_rfl, List.map_map]
  simp [Function.comp_def]

/-! ## What reads back what was written -/

/-- Wherever these bytes stand, `a` is read from them and nothing more is taken. -/
def Decodes {α : Type} (r : Read α) (bytes : List UInt8) (a : α) : Prop :=
  ∀ before after, (before ++ bytes ++ after).length < word →
    r ⟨before ++ bytes ++ after, before.length⟩ =
      .ok (a, ⟨before ++ bytes ++ after, before.length + bytes.length⟩)

/-- Behind whole words, whole words are added from which `a` is read. -/
def Writes {α : Type} (r : Read α) (a : α) (v v' : List UInt8) : Prop :=
  v.length % 4 = 0 → ∃ bytes, v' = v ++ bytes ∧ bytes.length % 4 = 0 ∧ Decodes r bytes a

namespace Decodes

variable {α β : Type}

theorem pure (a : α) : Decodes (pure a) [] a := fun before after _ => by simp; rfl

theorem bind {r : Read α} {f : α → Read β} {first second : List UInt8} {a : α} {b : β}
    (hr : Decodes r first a) (hf : Decodes (f a) second b) :
    Decodes (r >>= f) (first ++ second) b := by
  intro before after hword
  have hone := hr before (second ++ after) (by simpa using hword)
  have htwo := hf (before ++ first) after (by simpa using hword)
  simp only [List.append_assoc, List.length_append] at hone htwo ⊢
  refine Local.bind_ok.mpr ⟨a, _, hone, ?_⟩
  rw [htwo, Nat.add_assoc]

theorem map {r : Read α} {bytes : List UInt8} {a : α} (h : Decodes r bytes a) (f : α → β) :
    Decodes (r >>= fun a => Pure.pure (f a)) bytes (f a) := by
  have hbind := h.bind (f := fun a => Pure.pure (f a)) (pure (f a))
  rwa [List.append_nil] at hbind

theorem writes {r : Read α} {bytes v : List UInt8} {a : α} (h : Decodes r bytes a)
    (hwords : bytes.length % 4 = 0) : Writes r a v (v ++ bytes) :=
  fun _ => ⟨bytes, rfl, hwords, h⟩

end Decodes

namespace Writes

variable {α β : Type} {v v' v'' : List UInt8}

theorem pure (a : α) : Writes (pure a) a v v := fun _ => ⟨[], by simp, rfl, .pure a⟩

theorem bind {r : Read α} {f : α → Read β} {a : α} {b : β} (hr : Writes r a v v')
    (hf : Writes (f a) b v' v'') : Writes (r >>= f) b v v'' := by
  intro hv
  obtain ⟨first, rfl, hfirst, hone⟩ := hr hv
  obtain ⟨second, rfl, hsecond, htwo⟩ := hf (by simp only [List.length_append]; omega)
  exact ⟨first ++ second, by simp, by simp only [List.length_append]; omega, hone.bind htwo⟩

theorem map {r : Read α} {a : α} (hr : Writes r a v v') (f : α → β) :
    Writes (r >>= fun a => Pure.pure (f a)) (f a) v v' := hr.bind (pure _)

/-- Elements written one after the other are read so. -/
theorem times {element : Read α} {put : List UInt8 → α → List UInt8} (as : List α)
    (hput : ∀ a ∈ as, ∀ v, Writes element a v (put v a)) (v : List UInt8) :
    Writes (Read.times element as.length) as v (as.foldl put v) := by
  induction as generalizing v with
  | nil => exact pure []
  | cons a as ih =>
    have hrest := ih (fun b hb => hput b (List.mem_cons_of_mem a hb)) (put v a)
    exact (hput a List.mem_cons_self v).bind (hrest.map (fun bs => a :: bs))

end Writes

theorem Decodes.number (width n : Nat) (what : String) :
    Decodes (do Read.need width what; return Read.beValue (← Read.take width)) (beBytes width n)
      (n % 256 ^ width) := by
  intro before after hword
  simp only [List.length_append, length_beBytes] at hword
  refine Local.bind_ok.mpr ⟨(), _, if_pos ?_, ?_⟩
  · simp only [List.length_append, length_beBytes]
    omega
  · show Except.ok (Read.beValue (List.take width (List.drop _ _)), _) = _
    have htake : (beBytes width n ++ after).take width = beBytes width n :=
      List.take_left' (length_beBytes width n)
    rw [List.append_assoc, List.drop_left, htake, beValue_beBytes, length_beBytes]

theorem Decodes.raw32 (what : String) (i : Int) :
    Decodes (Read.u32 what) (be32 i) (i % 2 ^ 32).toNat := by
  have h := Decodes.number 4 (i % 2 ^ 32).toNat what
  have hn : (i % 2 ^ 32).toNat % 256 ^ 4 = (i % 2 ^ 32).toNat := by omega
  rwa [hn] at h

theorem Decodes.raw64 (what : String) (i : Int) :
    Decodes (Read.u64 what) (be64 i) (i % 2 ^ 64).toNat := by
  have h := Decodes.number 8 (i % 2 ^ 64).toNat what
  have hn : (i % 2 ^ 64).toNat % 256 ^ 8 = (i % 2 ^ 64).toNat := by omega
  rwa [hn] at h

theorem Decodes.u32 (what : String) {n : Nat} (hn : n < 2 ^ 32) :
    Decodes (Read.u32 what) (be32 n) n := by
  have h := raw32 what n
  have hmod : ((n : Int) % 2 ^ 32).toNat = n := by omega
  rwa [hmod] at h

theorem Decodes.i32 (what : String) {i : Int} (hi : IsI32 i) :
    Decodes (Read.i32 what) (be32 i) i := by
  have h := (raw32 what i).map (Read.signed 32)
  rwa [signed_of_mod (by omega) hi.1 hi.2] at h

theorem Decodes.u64 (what : String) {n : Nat} (hn : n < 2 ^ 64) :
    Decodes (Read.u64 what) (be64 n) n := by
  have h := raw64 what n
  have hmod : ((n : Int) % 2 ^ 64).toNat = n := by omega
  rwa [hmod] at h

theorem length_pad4 (v : List UInt8) : (pad4 v).length = (v.length + 3) / 4 * 4 := by
  simp only [pad4, List.length_append, List.length_replicate]
  omega

theorem pad4_append {v : List UInt8} (hv : v.length % 4 = 0) (b : List UInt8) :
    pad4 (v ++ b) = v ++ pad4 b := by
  have hlength : (v ++ b).length % 4 = b.length % 4 := by
    simp only [List.length_append]
    omega
  rw [pad4, pad4, hlength, List.append_assoc]

theorem Decodes.opaqueBytes (what : String) (b : List UInt8) :
    Decodes (Read.opaqueBytes b.length what) (pad4 b) b := by
  intro before after hword
  have hpad := length_pad4 b
  have hw : word = 18446744073709551616 := rfl
  simp only [List.length_append] at hword
  have hroom : b.length + 3 < word := by omega
  show (if b.length + 3 < word then _ else _ : Read (List UInt8)) _ = _
  rw [if_pos hroom]
  refine Local.bind_ok.mpr ⟨(), _, if_pos ?_, ?_⟩
  · simp only [List.length_append]
    omega
  · show Except.ok (List.take b.length (List.drop _ _), _) = _
    have htake : (pad4 b ++ after).take b.length = b := by
      rw [pad4, List.append_assoc, List.take_left]
    rw [List.append_assoc, List.drop_left, htake, hpad]

theorem writes_bytes {what : String} {v : List UInt8} (b : List UInt8) :
    Writes (Read.opaqueBytes b.length what) b v (pad4 (v ++ b)) := by
  intro hv
  rw [pad4_append hv]
  refine Decodes.writes (Decodes.opaqueBytes what b) ?_ hv
  rw [length_pad4]
  omega

theorem writes_string {what : String} {v : List UInt8} {s : String}
    (hs : (asBytes s).length < 2 ^ 32) : Writes (Read.string what) s v (putString v s) := by
  have hlength : Writes (Read.u32 what) (asBytes s).length v (v ++ be32 (asBytes s).length) :=
    (Decodes.u32 what hs).writes (by simp)
  have hbytes : Writes (Read.opaqueBytes (asBytes s).length what) (asBytes s)
      (v ++ be32 (asBytes s).length) (putString v s) := writes_bytes (asBytes s)
  have htext := hbytes.map fromUtf8Lossy
  rw [fromUtf8Lossy_asBytes] at htext
  exact hlength.bind htext

/-! ## Arrays -/

theorem Decodes.declared (n : Nat) (what : String) : Decodes (Read.declared n what) [] n := by
  intro before after _
  show (if (n : Int) < 0 then throw (.malformed what before.length)
    else Pure.pure (n : Int).toNat : Read Nat) _ = _
  rw [if_neg (by omega)]
  rfl

theorem Decodes.times {α β : Type} {element : Read α} {put : β → List UInt8} {raw : β → α}
    (bs : List β) (hput : ∀ b ∈ bs, Decodes element (put b) (raw b)) :
    Decodes (Read.times element bs.length) (bs.flatMap put) (bs.map raw) := by
  induction bs with
  | nil => exact pure []
  | cons b bs ih =>
    rw [List.flatMap_cons]
    have hrest := ih (fun b' hb => hput b' (List.mem_cons_of_mem b hb))
    exact (hput b List.mem_cons_self).bind (hrest.map (fun as => raw b :: as))

theorem writes_declared {what : String} {v : List UInt8} (n : Nat) :
    Writes (Read.declared n what) n v v := by
  have h := (Decodes.declared n what).writes (v := v) rfl
  rwa [List.append_nil] at h

/-- An array of elements of one size behind its length. -/
theorem Decodes.counted {α β : Type} {element : Read α} {put : β → List UInt8} {raw : β → α}
    {elsize : Nat} (what : String) (bs : List β) (hlength : IsI32 bs.length)
    (hsize : ∀ b, (put b).length = elsize) (hput : ∀ b ∈ bs, Decodes element (put b) (raw b))
    (f : List α → Value) :
    Decodes (do let n ← Read.count bs.length elsize what; return f (← Read.times element n))
      (be32 bs.length ++ bs.flatMap put) (f (bs.map raw)) := by
  intro before after hword
  have hfits : bs.length < 2 ^ 32 := by
    have hhigh := hlength.2
    omega
  have hbody : (bs.flatMap put).length = bs.length * elsize := by
    simp [List.length_flatMap, hsize, List.map_const']
  have hcount : Read.count bs.length elsize what
      ⟨before ++ (be32 bs.length ++ bs.flatMap put) ++ after, before.length⟩ =
      .ok (bs.length, ⟨before ++ (be32 bs.length ++ bs.flatMap put) ++ after,
        before.length + 4⟩) := by
    have hnumber := Decodes.u32 what hfits before (bs.flatMap put ++ after)
      (by simpa using hword)
    simp only [List.append_assoc, length_be32] at hnumber hword ⊢
    refine Local.bind_ok.mpr ⟨_, _, hnumber, ?_⟩
    show (if (bs.length : Int) < 0 ∨ (bs.length : Int) ≠ bs.length then _ else _ : Read Nat) _ = _
    rw [if_neg (by omega)]
    simp only [List.length_append, length_be32, hbody] at hword
    rw [if_pos (by omega)]
    refine Local.bind_ok.mpr ⟨(), _, if_pos ?_, rfl⟩
    simp only [List.length_append, length_be32, hbody]
    omega
  refine Local.bind_ok.mpr ⟨_, _, hcount, ?_⟩
  have hrest := (Decodes.times bs hput).map f (before ++ be32 bs.length) after
    (by simpa using hword)
  simp only [List.append_assoc, List.length_append, length_be32, Nat.add_assoc] at hrest ⊢
  exact hrest

theorem writes_counted {α β : Type} {element : Read α} {put : β → List UInt8} {raw : β → α}
    {elsize : Nat} {what : String} {v : List UInt8} (bs : List β) (hlength : IsI32 bs.length)
    (hsize : ∀ b, (put b).length = elsize) (hwords : elsize % 4 = 0)
    (hput : ∀ b ∈ bs, Decodes element (put b) (raw b)) (f : List α → Value) {value : Value}
    (hvalue : f (bs.map raw) = value) :
    Writes (do let n ← Read.count bs.length elsize what; return f (← Read.times element n)) value v
      (v ++ be32 bs.length ++ bs.flatMap put) := by
  have hread := Decodes.counted what bs hlength hsize hput f
  rw [hvalue] at hread
  rw [List.append_assoc]
  refine hread.writes ?_
  have hbody : (bs.flatMap put).length = bs.length * elsize := by
    simp [List.length_flatMap, hsize, List.map_const']
  have hmul : bs.length * elsize % 4 = 0 := by rw [Nat.mul_mod, hwords, Nat.mul_zero]
  simp only [List.length_append, length_be32, hbody]
  omega

/-! ## Pairs -/

theorem decodes_someI32 (what : String) (i : Int) : ∃ j, Decodes (Read.i32 what) (be32 i) j := by
  have h := (Decodes.raw32 what i).map (Read.signed 32)
  exact ⟨_, h⟩

/-- No pair follows two zeros. -/
theorem decodes_nextPair_none (nested : Read NvList) (found : Nat) :
    Decodes (nextPair nested found) (be32 0 ++ be32 0) none := by
  intro before after hword
  have hzero : IsI32 0 := ⟨by omega, by omega⟩
  have hone := Decodes.i32 "nvpair encoded size" hzero before (be32 0 ++ after)
    (by simpa using hword)
  have htwo := Decodes.i32 "nvpair decoded size" hzero (before ++ be32 0) after
    (by simpa using hword)
  simp only [List.append_assoc, List.length_append, length_be32] at hone htwo ⊢
  exact nextPair_ok.mpr ⟨0, 0, hone, htwo, .inl ⟨rfl, rfl, rfl⟩⟩

/-- A pair behind its sizes is found. -/
theorem decodes_nextPair_some {nested : Read NvList} {found : Nat} {body : List UInt8}
    {pair : String × Value} (decoded : Int) (hfound : found < nvMaxPairs)
    (hmin : 8 ≤ body.length) (hsize : IsI32 (body.length + 8 : Nat))
    (hbody : Decodes (parsePair nested) body pair) :
    Decodes (nextPair nested found) (be32 ((body.length + 8 : Nat) : Int) ++ be32 decoded ++ body)
      (some pair) := by
  intro before after hword
  obtain ⟨decoded', hdecoded⟩ := decodes_someI32 "nvpair decoded size" decoded
  have hencoded := Decodes.i32 "nvpair encoded size" hsize
  have hlength : (be32 ((body.length + 8 : Nat) : Int)).length = 4 := length_be32 _
  have hlength' : (be32 decoded).length = 4 := length_be32 _
  generalize be32 ((body.length + 8 : Nat) : Int) = first at hencoded hlength hword ⊢
  generalize be32 decoded = second at hdecoded hlength' hword ⊢
  have hone := hencoded before (second ++ body ++ after) (by simpa using hword)
  have htwo := hdecoded (before ++ first) (body ++ after) (by simpa using hword)
  have hthree := hbody (before ++ first ++ second) []
    (by simp only [List.length_append, List.length_nil] at hword ⊢; omega)
  simp only [List.append_assoc, List.length_append, List.append_nil, hlength, hlength',
    Nat.add_assoc] at hone htwo hthree ⊢
  have hcut : (before ++ (first ++ (second ++ (body ++ after)))).take
      (before.length + ((body.length + 8 : Nat) : Int).toNat) =
        before ++ (first ++ (second ++ body)) := by
    rw [← List.append_assoc second, ← List.append_assoc first, ← List.append_assoc before]
    refine List.take_left' ?_
    simp only [List.length_append]
    omega
  refine nextPair_ok.mpr ⟨_, decoded', hone, htwo, .inr ⟨hfound, by omega, ?_, pair, ⟨_, _⟩,
    by rw [hcut]; exact hthree, rfl, ?_⟩⟩
  · simp only [List.length_append]
    omega
  · congr 1
    omega

theorem writes_pair {depth : Nat} {name : String} {value : Value} (hname : IsString name)
    (htype : IsI32 (typeOf value).1) (hnelem : IsI32 (typeOf value).2)
    (hvalue : ∀ v, Writes (parseValue (parseList depth) (typeOf value).1 (typeOf value).2) value v
      (putValue v value)) :
    Writes (parsePair (parseList depth)) (name, value) [] (pairBody name value) := by
  have hhead : Writes pairHead (name, (typeOf value).1, (typeOf value).2) []
      (putString [] name ++ be32 (typeOf value).1 ++ be32 (typeOf value).2) := by
    refine (writes_string hname).bind (((Decodes.i32 _ htype).writes (by simp)).bind ?_)
    exact ((Decodes.i32 _ hnelem).writes (by simp)).map _
  rw [parsePair_eq]
  exact hhead.bind ((hvalue _).map _)

theorem eight_le_pairBody {r : Read Value} (name : String) {value : Value}
    (hvalue : ∀ v, Writes r value v (putValue v value)) :
    8 ≤ (pairBody name value).length := by
  obtain ⟨bytes, hbody, -⟩ := hvalue
    (putString [] name ++ be32 (typeOf value).1 ++ be32 (typeOf value).2)
    (by simp only [putString, List.length_append, length_pad4, length_be32]; omega)
  rw [pairBody, hbody]
  simp only [List.length_append, length_be32]
  omega

/-- What is read knows how long the buffer is, which holds all that was written. -/
theorem Writes.getLength {α : Type} {f : Cursor → Read α} {g : Nat → Read α} {a : α}
    {v v' : List UInt8} {n : Nat} (hf : ∀ cur, f cur = g cur.buf.length)
    (hg : ∀ len, n ≤ len → Writes (g len) a v v') (hn : v.length + n ≤ v'.length) :
    Writes (get >>= f) a v v' := by
  intro hv
  obtain ⟨bytes, rfl, hwords, _⟩ := hg n le_rfl hv
  refine ⟨bytes, rfl, hwords, fun before after hword => ?_⟩
  simp only [List.length_append] at hn
  obtain ⟨bytes', heq, _, hdecodes⟩ := hg (before ++ bytes ++ after).length
    (by simp only [List.length_append]; omega) hv
  obtain rfl := List.append_cancel_left heq
  show f _ _ = _
  rw [hf]
  exact hdecodes before after hword

theorem typeOf_fits {depth : Nat} {value : Value} (h : ValueFits depth value) :
    IsI32 (typeOf value).1 := by
  cases value
  all_goals simp only [typeOf, IsI32, ValueFits] at h ⊢
  all_goals omega

theorem putPairs_cons (v : List UInt8) (name : String) (value : Value)
    (pairs : List (String × Value)) : putPairs v ((name, value) :: pairs) =
      putPairs (v ++ (be32 (((pairBody name value).length + 8 : Nat) : Int) ++
        be32 (decodedSize name value) ++ pairBody name value)) pairs := by
  rw [putPairs, pairBody]
  simp only [List.append_assoc]

theorem length_putPairs (v : List UInt8) (pairs : List (String × Value)) :
    v.length + pairs.length ≤ (putPairs v pairs).length := by
  induction pairs generalizing v with
  | nil => rw [putPairs]; rfl
  | cons pair pairs ih =>
    obtain ⟨name, value⟩ := pair
    have hrest := ih (v ++ (be32 (((pairBody name value).length + 8 : Nat) : Int) ++
      be32 (decodedSize name value) ++ pairBody name value))
    rw [putPairs_cons]
    simp only [List.length_append, length_be32, List.length_cons] at hrest ⊢
    omega

theorem parseValue_undecoded {nested : Read NvList} {typeCode nelem : Int}
    (h : typeCode < 1 ∨ 27 < typeCode) :
    parseValue nested typeCode nelem = pure (.unknown typeCode nelem) := by
  unfold parseValue
  split
  all_goals first | rfl | omega

mutual

theorem writes_list : ∀ (l : NvList) {depth : Nat} (v : List UInt8), NvListFits depth l →
    Writes (parseList depth) l v (putList v l)
  | .mk version flags pairs, depth, v, h => by
    rw [NvListFits] at h
    obtain ⟨hdepth, hversion, hflags, hcount, hpairs⟩ := h
    obtain ⟨d, rfl⟩ : ∃ d, depth = d + 1 := ⟨depth - 1, by omega⟩
    rw [putList]
    refine ((Decodes.i32 _ hversion).writes (by simp)).bind
      (((Decodes.u32 _ hflags).writes (by simp)).bind ?_)
    refine Writes.getLength (n := pairs.length) (g := fun n => do
      return NvList.mk version flags (← parsePairs (parseList d) (n + 1) 0)) (fun _ => rfl)
      (fun len hlen => ?_) ?_
    · exact (writes_pairs pairs (len + 1) 0 _ hpairs (by omega) (by omega)).map
        (NvList.mk version flags)
    · have hlength := length_putPairs (v ++ be32 version ++ be32 flags) pairs
      simp only [List.length_append] at hlength ⊢
      omega

theorem writes_pairs : ∀ (pairs : List (String × Value)) {depth : Nat} (fuel found : Nat)
    (v : List UInt8), PairsFit depth pairs → found + pairs.length ≤ nvMaxPairs →
    pairs.length < fuel →
    Writes (parsePairs (parseList depth) fuel found) pairs v (putPairs v pairs ++ be32 0 ++ be32 0)
  | [], depth, fuel, found, v, _, _, hfuel => by
    obtain ⟨more, rfl⟩ : ∃ more, fuel = more + 1 := ⟨fuel - 1, by simp at hfuel; omega⟩
    rw [parsePairs_succ, putPairs, List.append_assoc]
    exact ((decodes_nextPair_none (parseList depth) found).writes (by simp)).bind (.pure [])
  | (name, value) :: pairs, depth, fuel, found, v, h, hfound, hfuel => by
    rw [PairsFit] at h
    obtain ⟨hname, hnelem, hsize, hvalue, hrest⟩ := h
    simp only [List.length_cons] at hfound hfuel
    obtain ⟨more, rfl⟩ : ∃ more, fuel = more + 1 := ⟨fuel - 1, by omega⟩
    have hwrites := fun v => writes_value value v hnelem hvalue
    have hmin := eight_le_pairBody name hwrites
    obtain ⟨body, hbody, hwords, hdecodes⟩ :=
      writes_pair hname (typeOf_fits hvalue) hnelem hwrites rfl
    rw [List.nil_append] at hbody
    rw [parsePairs_succ, putPairs_cons, hbody]
    rw [hbody] at hsize hmin
    refine Writes.bind ((decodes_nextPair_some (decodedSize name value) (by omega) hmin hsize
      hdecodes).writes ?_) ((writes_pairs pairs more (found + 1) _ hrest (by omega)
        (by omega)).map _)
    simp only [List.length_append, length_be32]
    omega

theorem writes_value : ∀ (value : Value) {depth : Nat} (v : List UInt8),
    IsI32 (typeOf value).2 → ValueFits depth value →
    Writes (parseValue (parseList depth) (typeOf value).1 (typeOf value).2) value v
      (putValue v value)
  | .boolean, _, _, _, _ => by
    rw [putValue]
    exact .pure Value.boolean
  | .bool b, _, v, _, _ => by
    have hread := (Decodes.raw32 "nvpair value" (if b then 1 else 0)).map
      (fun x => Value.bool (x ≠ 0))
    have hvalue : Value.bool (((if b then 1 else 0 : Int) % 2 ^ 32).toNat ≠ 0) = .bool b := by
      cases b <;> rfl
    rw [hvalue] at hread
    rw [putValue]
    exact hread.writes (by simp)
  | .int i, _, v, _, h => by
    rw [ValueFits] at h
    rw [putValue]
    exact ((Decodes.i32 _ h).map Value.int).writes (by simp)
  | .uint64 u, _, v, _, h => by
    rw [ValueFits] at h
    rw [putValue]
    exact ((Decodes.u64 _ h).map Value.uint64).writes (by simp)
  | .int64 i, _, v, _, h => by
    rw [ValueFits] at h
    have hread := (Decodes.raw64 "nvpair value" i).map (fun x => Value.int64 (Read.signed 64 x))
    rw [signed_of_mod (by omega) h.1 h.2] at hread
    rw [putValue]
    exact hread.writes (by simp)
  | .double bits, _, v, _, h => by
    rw [ValueFits] at h
    rw [putValue]
    exact ((Decodes.u64 _ h).map Value.double).writes (by simp)
  | .string s, _, v, _, h => by
    rw [ValueFits] at h
    rw [putValue]
    exact (writes_string h).map Value.string
  | .bytes b, _, v, _, _ => by
    rw [putValue]
    exact (writes_declared b.length).bind ((writes_bytes b).map Value.bytes)
  | .intArray a, _, v, hn, h => by
    rw [ValueFits] at h
    rw [putValue]
    refine writes_counted a hn length_be32 rfl (fun i hi => Decodes.i32 _ (h i hi))
      (fun raws => Value.intArray (raws.map (narrowElement 13))) ?_
    have hsame : ∀ i ∈ a, narrowElement 13 i = i := fun _ _ => rfl
    rw [List.map_map]
    exact congrArg Value.intArray ((List.map_congr_left hsame).trans (List.map_id a))
  | .uint64Array a, _, v, hn, h => by
    rw [ValueFits] at h
    rw [putValue]
    exact writes_counted a hn (fun u => length_be64 u) rfl
      (fun u hu => Decodes.u64 _ (h u hu)) Value.uint64Array (by simp)
  | .int64Array a, _, v, hn, h => by
    rw [ValueFits] at h
    rw [putValue]
    refine writes_counted a hn length_be64 rfl (fun i _ => Decodes.raw64 _ i)
      (fun raws => Value.int64Array (raws.map (Read.signed 64))) ?_
    have hsame : ∀ i ∈ a, Read.signed 64 (i % 2 ^ 64).toNat = i :=
      fun i hi => signed_of_mod (by omega) (h i hi).1 (h i hi).2
    rw [List.map_map]
    exact congrArg Value.int64Array ((List.map_congr_left hsame).trans (List.map_id a))
  | .boolArray a, _, v, hn, _ => by
    rw [putValue]
    refine writes_counted a hn (fun b => length_be32 (if b then 1 else 0)) rfl
      (fun b _ => Decodes.raw32 _ (if b then 1 else 0))
      (fun raws => Value.boolArray (raws.map (fun x => x ≠ 0))) ?_
    have hsame : ∀ b ∈ a, (decide (((if b then 1 else 0 : Int) % 2 ^ 32).toNat ≠ 0)) = b :=
      fun b _ => by cases b <;> rfl
    rw [List.map_map]
    exact congrArg Value.boolArray ((List.map_congr_left hsame).trans (List.map_id a))
  | .stringArray a, _, v, _, h => by
    rw [ValueFits] at h
    rw [putValue]
    exact (writes_declared a.length).bind
      ((Writes.times a (fun s hs v => writes_string (h s hs)) v).map Value.stringArray)
  | .list l, _, v, _, h => by
    exact (writes_list l v (by rwa [ValueFits] at h)).map Value.list
  | .listArray ls, _, v, _, h => by
    rw [putValue]
    exact (writes_declared ls.length).bind
      ((writes_lists ls v (by rwa [ValueFits] at h)).map Value.listArray)
  | .unknown typeCode nelem, _, _, _, h => by
    rw [ValueFits] at h
    rw [putValue, typeOf, parseValue_undecoded h.2]
    exact .pure _

theorem writes_lists : ∀ (ls : List NvList) {depth : Nat} (v : List UInt8), NvListsFit depth ls →
    Writes (Read.times (parseList depth) ls.length) ls v (putLists v ls)
  | [], _, v, _ => by
    rw [putLists]
    exact .pure []
  | l :: ls, _, v, h => by
    rw [NvListsFit] at h
    rw [putLists]
    exact (writes_list l v h.1).bind ((writes_lists ls _ h.2).map (fun ls => l :: ls))

end

/-! ## The round trip -/

theorem length_putPairs_le {depth : Nat} {v : List UInt8} {pairs : List (String × Value)}
    (h : PairsFit depth pairs) : (putPairs v pairs).length ≤ v.length + pairs.length * 2 ^ 31 := by
  induction pairs generalizing v with
  | nil =>
    rw [putPairs]
    exact Nat.le_add_right _ _
  | cons pair pairs ih =>
    obtain ⟨name, value⟩ := pair
    rw [PairsFit] at h
    obtain ⟨-, -, hsize, -, hrest⟩ := h
    have hle := ih (v := v ++ (be32 (((pairBody name value).length + 8 : Nat) : Int) ++
      be32 (decodedSize name value) ++ pairBody name value)) hrest
    have hhigh := hsize.2
    rw [putPairs_cons]
    simp only [List.length_append, length_be32, List.length_cons] at hle ⊢
    omega

/-- What fits is packed in fewer bytes than can be addressed. -/
theorem length_pack_lt {depth : Nat} {l : NvList} (h : NvListFits depth l) :
    (pack l).length < word := by
  obtain ⟨version, flags, pairs⟩ := l
  rw [NvListFits] at h
  obtain ⟨-, -, -, hcount, hpairs⟩ := h
  have hle := length_putPairs_le (v := [1, 1, 0, 0] ++ be32 version ++ be32 flags) hpairs
  have hmax : nvMaxPairs = 65536 := rfl
  have hword : word = 18446744073709551616 := rfl
  rw [pack, putList]
  simp only [List.length_append, length_be32, List.length_cons, List.length_nil] at hle ⊢
  omega

/-- A list that fits the format is read back from its packed bytes, and packs to them again. -/
theorem parsePacked_pack (l : NvList) (h : NvListFits (nvMaxDepth + 1) l) :
    parsePacked (pack l) = .ok l ∧ ∀ l', parsePacked (pack l) = .ok l' → pack l' = pack l := by
  obtain ⟨bytes, hpack, -, hdecodes⟩ := writes_list l [1, 1, 0, 0] h rfl
  have hword := length_pack_lt h
  have hparsed : parsePacked (pack l) = .ok l := by
    rw [pack, hpack] at hword ⊢
    have hread := hdecodes [1, 1, 0, 0] [] (by simpa using hword)
    rw [List.append_nil] at hread
    exact parsePacked_ok.mpr ⟨by simp, rfl, _, hread⟩
  refine ⟨hparsed, fun l' h' => ?_⟩
  rw [hparsed] at h'
  cases h'
  rfl

theorem parsePacked_pack_config :
    let config := NvList.mk 0 1 [("name", .string "tank"), ("small", .int (-7)),
      ("names", .stringArray ["a", "bcd"]), ("weird", .unknown 99 0),
      ("vdev_tree", .list (.mk 0 1 [("type", .string "mirror"),
        ("children", .listArray [.mk 0 1 [("guid", .uint64 1)], .mk 0 1 [("guid", .uint64 2)]])]))]
    parsePacked (pack config) = .ok config :=
  (parsePacked_pack _ (by
    simp only [NvListFits, PairsFit, ValueFits, NvListsFit, IsI32, IsString, typeOf]
    and_intros
    all_goals decide +kernel)).1

end Ondisk
end ZvolRescue
