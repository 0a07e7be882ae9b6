import ZvolRescue.Ondisk.Zap

/-!
# System attributes

A buffer of system attributes is a header, which names a layout, and the values of the layout's
attributes one after another.  A value of fixed length is as long as the registry says; the others
have their lengths in the header.

Every value begins at a multiple of eight bytes (`ValuesAt`), but `placeAttrs` begins a value where
the one before it ends.  So it finds the values of every buffer of one shape exactly where no length
that leaves a gap has a value after it (`Written.placed`, `packed_of_placed`).
-/

namespace ZvolRescue
namespace Ondisk

/-! ## The source -/

def saMagic : Nat := 0x2f505a

structure SaHeader where
  layout : Nat
  /-- Bytes of header, with the lengths in it. -/
  hdrsize : Nat
  /-- Where the lengths begin. -/
  lengthsAt : Nat
  /-- How many lengths there is room for. -/
  lengths : Nat
  deriving DecidableEq, Repr

def parseSaHeader (buf : List UInt8) (endian : Endian) : Except ParseError SaHeader :=
  if buf.length < 8 then .error (.truncated 8 buf.length)
  else if endian.u32At buf 0 ≠ saMagic then
    .error (.malformed "not a system-attribute buffer (bad SA magic)" 0)
  else
    let info := endian.u16At buf 4
    let hdrsize := info / 1024 % 64 * 8
    if hdrsize < 8 ∨ hdrsize > buf.length then
      .error (.malformed "system-attribute header size outside the buffer" 4)
    else
      .ok { layout := info % 1024, hdrsize, lengthsAt := 6, lengths := (hdrsize - 6) / 2 }

section Place

variable (buf : List UInt8) (header : SaHeader) (lengths : Nat → Option Nat) (endian : Endian)

/-- The length of a value, and how many lengths of the header are used up then. -/
def attrLength (num variableCount : Nat) : Option (Nat × Nat) :=
  let fixed := (lengths num).getD 0
  if fixed ≠ 0 then some (fixed, variableCount)
  else
    let o := header.lengthsAt + variableCount * 2
    if o + 2 ≤ buf.length then some (endian.u16At buf o, variableCount + 1) else none

def placeFrom : List Nat → (variableCount at_ : Nat) → List (Nat × List UInt8)
  | [], _, _ => []
  | num :: rest, variableCount, at_ =>
    match attrLength buf header lengths endian num variableCount with
    | none => []
    | some (len, variableCount) =>
      if at_ + len ≤ buf.length then
        (num, (buf.drop at_).take len) :: placeFrom rest variableCount (at_ + len)
      else []

end Place

/-- The values of a layout's attributes, up to the first that is not all in the buffer. -/
def placeAttrs (buf : List UInt8) (header : SaHeader) (layout : List Nat)
    (lengths : Nat → Option Nat) (endian : Endian) : List (Nat × List UInt8) :=
  placeFrom buf header lengths endian layout 0 header.hdrsize

/-! ## What is written -/

/-- The next multiple of eight. -/
def roundUp8 (n : Nat) : Nat := (n + 7) / 8 * 8

/-- The attributes of one buffer without their contents. -/
structure SaShape where
  layout : Nat
  /-- Size of the header in units of eight bytes. -/
  units : Nat
  /-- The registered lengths, zero for one that varies. -/
  lengths : Nat → Option Nat
  /-- The attributes of the layout, with the size each has here. -/
  attrs : List (Nat × Nat)
  layout_lt : layout < 1024
  units_pos : 0 < units
  units_lt : units < 64
  registered : ∀ a ∈ attrs, lengths a.1 = some 0 ∨ lengths a.1 = some a.2
  size_lt : ∀ a ∈ attrs, a.2 < 2 ^ 16
  /-- There is room for the lengths in the header. -/
  room : 6 + 2 * (attrs.filter (fun a => lengths a.1 = some 0)).length ≤ units * 8

namespace SaShape

variable (s : SaShape)

def hdrsize : Nat := s.units * 8

def nums : List Nat := s.attrs.map Prod.fst

def sizes : List Nat := s.attrs.map Prod.snd

/-- The sizes that the header has to tell. -/
def variableSizes (lengths : Nat → Option Nat) (attrs : List (Nat × Nat)) : List Nat :=
  (attrs.filter (fun a => lengths a.1 = some 0)).map Prod.snd

end SaShape

/-- The values stand in the buffer from `at_` on, each at the next multiple of eight bytes. -/
def ValuesAt (buf : List UInt8) : Nat → List (List UInt8) → Prop
  | _, [] => True
  | at_, v :: rest =>
    at_ + v.length ≤ buf.length ∧ (buf.drop at_).take v.length = v ∧
      ValuesAt buf (roundUp8 (at_ + v.length)) rest

/-- A buffer in which these values are written; the bytes in the gaps are of no account. -/
structure SaShape.Written (s : SaShape) (e : Endian) (values : List (List UInt8))
    (buf : List UInt8) : Prop where
  sizes : values.map List.length = s.sizes
  long : s.hdrsize ≤ buf.length
  magic : e.u32At buf 0 = saMagic
  info : e.u16At buf 4 = s.layout + 1024 * s.units
  lengths : ∀ i size, (SaShape.variableSizes s.lengths s.attrs)[i]? = some size →
    e.u16At buf (6 + 2 * i) = size
  values : ValuesAt buf s.hdrsize values

/-! ## Values that are found -/

theorem roundUp8_mod (n : Nat) : roundUp8 n % 8 = 0 := Nat.mul_mod_left _ 8

theorem le_roundUp8 (n : Nat) : n ≤ roundUp8 n := by
  unfold roundUp8
  omega

theorem roundUp8_of_mod {n : Nat} (h : n % 8 = 0) : roundUp8 n = n := by
  unfold roundUp8
  omega

section Found

variable {buf : List UInt8} {header : SaHeader} {lengths : Nat → Option Nat} {endian : Endian}
  {num size variableCount : Nat}

theorem attrLength_fixed (h : lengths num = some size) (hsize : size ≠ 0) :
    attrLength buf header lengths endian num variableCount = some (size, variableCount) := by
  simp only [attrLength, h, Option.getD_some, if_pos hsize]

theorem attrLength_variable (h : lengths num = some 0)
    (hroom : header.lengthsAt + variableCount * 2 + 2 ≤ buf.length) :
    attrLength buf header lengths endian num variableCount =
      some (endian.u16At buf (header.lengthsAt + variableCount * 2), variableCount + 1) := by
  simp [attrLength, h, hroom]

/-- The header tells the sizes of these attributes from its length number `variableCount` on. -/
structure Told (buf : List UInt8) (endian : Endian) (lengths : Nat → Option Nat)
    (attrs : List (Nat × Nat)) (variableCount : Nat) : Prop where
  registered : ∀ a ∈ attrs, lengths a.1 = some 0 ∨ lengths a.1 = some a.2
  at_ : ∀ i size, (SaShape.variableSizes lengths attrs)[i]? = some size →
    endian.u16At buf (6 + 2 * (variableCount + i)) = size
  room : 6 + 2 * (variableCount + (SaShape.variableSizes lengths attrs).length) ≤ buf.length

/-- The length of the first attribute is found, and the header tells the sizes of the rest. -/
theorem Told.head {a : Nat × Nat} {rest : List (Nat × Nat)}
    (h : Told buf endian lengths (a :: rest) variableCount) (hat : header.lengthsAt = 6) :
    ∃ next, attrLength buf header lengths endian a.1 variableCount = some (a.2, next) ∧
      Told buf endian lengths rest next := by
  have hrest := fun b hb => h.registered b (List.mem_cons_of_mem a hb)
  have hroom := h.room
  by_cases hvar : lengths a.1 = some 0
  · have hsizes : SaShape.variableSizes lengths (a :: rest) =
        a.2 :: SaShape.variableSizes lengths rest := by
      simp [SaShape.variableSizes, hvar]
    rw [hsizes, List.length_cons] at hroom
    have hhead := h.at_ 0 a.2 (by rw [hsizes, List.getElem?_cons_zero])
    have ho : header.lengthsAt + variableCount * 2 = 6 + 2 * (variableCount + 0) := by omega
    refine ⟨variableCount + 1, ?_, hrest, fun i size hi => ?_, by omega⟩
    · rw [attrLength_variable hvar (by omega), ho, hhead]
    · have hnext := h.at_ (i + 1) size (by rw [hsizes, List.getElem?_cons_succ, hi])
      rwa [show variableCount + (i + 1) = variableCount + 1 + i from by omega] at hnext
  · have hsizes : SaShape.variableSizes lengths (a :: rest) =
        SaShape.variableSizes lengths rest := by
      simp [SaShape.variableSizes, hvar]
    have hfixed := (h.registered a List.mem_cons_self).resolve_left hvar
    have hne : a.2 ≠ 0 := fun hzero => hvar (by rw [hfixed, hzero])
    rw [hsizes] at hroom
    exact ⟨variableCount, attrLength_fixed hfixed hne, hrest,
      fun i size hi => h.at_ i size (by rw [hsizes, hi]), hroom⟩

/-- No length that leaves a gap has a value after it. -/
def Packed (sizes : List Nat) : Prop := sizes.Pairwise (fun n m => n % 8 = 0 ∨ m = 0)

/-- The values are found from where they begin, and empty ones from anywhere before that. -/
theorem placeFrom_eq (hat : header.lengthsAt = 6) {attrs : List (Nat × Nat)} :
    ∀ {values : List (List UInt8)} {variableCount at_ start : Nat},
      Told buf endian lengths attrs variableCount →
      values.map List.length = attrs.map Prod.snd → ValuesAt buf start values → start % 8 = 0 →
      Packed (attrs.map Prod.snd) → at_ ≤ start → (at_ = start ∨ ∀ a ∈ attrs, a.2 = 0) →
      placeFrom buf header lengths endian (attrs.map Prod.fst) variableCount at_ =
        (attrs.map Prod.fst).zip values := by
  induction attrs with
  | nil =>
    intro values variableCount at_ start _ _ _ _ _ _ _
    rfl
  | cons a rest ih =>
    intro values variableCount at_ start htold hsizes hvalues hstart hpacked hle hpos
    cases values with
    | nil => simp at hsizes
    | cons v values =>
      obtain ⟨next, hlength, hrest⟩ := htold.head hat
      obtain ⟨hv, hsizes⟩ := List.cons.inj hsizes
      obtain ⟨hfit, htake, hvalues⟩ := hvalues
      obtain ⟨hgap, hpacked⟩ := List.pairwise_cons.mp hpacked
      have htaken : (buf.drop at_).take a.2 = v := by
        rcases hpos with rfl | hempty
        · rwa [← hv]
        · have hzero : a.2 = 0 := hempty a List.mem_cons_self
          rw [hzero, List.take_zero, List.length_eq_zero_iff.mp (hv.trans hzero)]
      have hround := le_roundUp8 (start + v.length)
      have hpos' : at_ + a.2 = roundUp8 (start + v.length) ∨ ∀ b ∈ rest, b.2 = 0 := by
        rcases hpos with rfl | hempty
        · rcases Nat.eq_zero_or_pos (a.2 % 8) with hmod | hmod
          · left
            rw [hv, roundUp8_of_mod (by omega)]
          · right
            intro b hb
            exact (hgap b.2 (List.mem_map_of_mem hb)).resolve_left (by omega)
        · exact Or.inr (fun b hb => hempty b (List.mem_cons_of_mem a hb))
      have hplaced := ih hrest hsizes hvalues (roundUp8_mod _) hpacked (by omega) hpos'
      simp only [List.map_cons, placeFrom, hlength, List.zip_cons_cons]
      rw [if_pos (by omega), htaken, hplaced]

end Found

namespace SaShape

variable {s : SaShape} {e : Endian} {values : List (List UInt8)} {buf : List UInt8}

/-- The header of a buffer of this shape. -/
def header (s : SaShape) : SaHeader :=
  { layout := s.layout, hdrsize := s.hdrsize, lengthsAt := 6, lengths := (s.hdrsize - 6) / 2 }

theorem Written.parse (h : s.Written e values buf) : parseSaHeader buf e = .ok s.header := by
  have hlong := h.long
  have hlayout := s.layout_lt
  have hpos := s.units_pos
  have hlt := s.units_lt
  have hunits : (s.layout + 1024 * s.units) / 1024 % 64 = s.units := by omega
  have hlow : (s.layout + 1024 * s.units) % 1024 = s.layout := by omega
  unfold hdrsize at hlong
  rw [parseSaHeader, if_neg (by omega), if_neg (not_not.mpr h.magic)]
  simp only [h.info, hunits, hlow]
  rw [if_neg (by omega)]
  rfl

theorem Written.told (h : s.Written e values buf) : Told buf e s.lengths s.attrs 0 where
  registered := s.registered
  at_ i size hi := by
    rw [Nat.zero_add]
    exact h.lengths i size hi
  room := by
    have hroom := s.room
    have hlong := h.long
    unfold hdrsize at hlong
    rw [variableSizes, List.length_map]
    omega

theorem Written.placed (h : s.Written e values buf) (hpacked : Packed s.sizes) :
    placeAttrs buf s.header s.nums s.lengths e = s.nums.zip values :=
  placeFrom_eq rfl h.told h.sizes h.values (Nat.mul_mod_left _ 8) hpacked (Nat.le_refl _)
    (Or.inl rfl)

end SaShape

/-! ## A writer -/

namespace Endian

/-- A number in two bytes. -/
def bytes16 (e : Endian) (n : Nat) : List UInt8 :=
  match e with
  | .little => [UInt8.ofNat n, UInt8.ofNat (n / 256)]
  | .big => [UInt8.ofNat (n / 256), UInt8.ofNat n]

/-- A number in four bytes. -/
def bytes32 (e : Endian) (n : Nat) : List UInt8 :=
  match e with
  | .little => e.bytes16 n ++ e.bytes16 (n / 65536)
  | .big => e.bytes16 (n / 65536) ++ e.bytes16 n

theorem length_bytes16 (e : Endian) (n : Nat) : (e.bytes16 n).length = 2 := by cases e <;> rfl

theorem length_bytes32 (e : Endian) (n : Nat) : (e.bytes32 n).length = 4 := by cases e <;> rfl

theorem u16At_bytes16 (e : Endian) (pre post : List UInt8) (n : Nat) {off : Nat}
    (hoff : pre.length = off) : e.u16At (pre ++ (e.bytes16 n ++ post)) off = n % 65536 := by
  subst hoff
  have hfirst : ∀ b0 b1, (pre ++ b0 :: b1 :: post).getD pre.length 0 = b0 := by
    intro b0 b1
    simp [List.getD_eq_getElem?_getD]
  have hsecond : ∀ b0 b1, (pre ++ b0 :: b1 :: post).getD (pre.length + 1) 0 = b1 := by
    intro b0 b1
    simp [List.getD_eq_getElem?_getD]
  have hlow : (UInt8.ofNat n).toNat = n % 256 := UInt8.toNat_ofNat'
  have hhigh : (UInt8.ofNat (n / 256)).toNat = n / 256 % 256 := UInt8.toNat_ofNat'
  cases e with
  | little =>
    simp only [bytes16, u16At, List.cons_append, List.nil_append, hfirst, hsecond, hlow, hhigh]
    omega
  | big =>
    simp only [bytes16, u16At, List.cons_append, List.nil_append, hfirst, hsecond, hlow, hhigh]
    omega

theorem u32At_bytes32 (e : Endian) (pre post : List UInt8) {n off : Nat} (hn : n < 2 ^ 32)
    (hoff : pre.length = off) : e.u32At (pre ++ (e.bytes32 n ++ post)) off = n := by
  have hfirst : ∀ a b, e.u16At (pre ++ (e.bytes16 a ++ e.bytes16 b ++ post)) off = a % 65536 := by
    intro a b
    rw [List.append_assoc]
    exact u16At_bytes16 e pre _ a hoff
  have hsecond : ∀ a b, e.u16At (pre ++ (e.bytes16 a ++ e.bytes16 b ++ post)) (off + 2) =
      b % 65536 := by
    intro a b
    rw [List.append_assoc, ← List.append_assoc pre]
    exact u16At_bytes16 e _ _ b (by rw [List.length_append, length_bytes16, hoff])
  cases e with
  | little =>
    simp only [u32At, bytes32, hfirst, hsecond]
    omega
  | big =>
    simp only [u32At, bytes32, hfirst, hsecond]
    omega

end Endian

/-- Zeros up to the next multiple of eight bytes. -/
def gap (n : Nat) : List UInt8 := List.replicate (roundUp8 n - n) 0

/-- The values one after another, each with the gap after it. -/
def body (values : List (List UInt8)) : List UInt8 := values.flatMap (fun v => v ++ gap v.length)

namespace SaShape

variable (s : SaShape) (e : Endian)

/-- The lengths that the header tells, and zeros up to its end. -/
def lengthBytes : List UInt8 :=
  (variableSizes s.lengths s.attrs).flatMap e.bytes16 ++
    List.replicate (s.hdrsize - 6 - 2 * (variableSizes s.lengths s.attrs).length) 0

def write (values : List (List UInt8)) : List UInt8 :=
  e.bytes32 saMagic ++ (e.bytes16 (s.layout + 1024 * s.units) ++ (s.lengthBytes e ++ body values))

theorem length_variableSizes_room (s : SaShape) :
    6 + 2 * (variableSizes s.lengths s.attrs).length ≤ s.hdrsize := by
  rw [variableSizes, List.length_map]
  exact s.room

theorem length_flatMap_bytes16 (e : Endian) (sizes : List Nat) :
    (sizes.flatMap e.bytes16).length = 2 * sizes.length := by
  induction sizes with
  | nil => rfl
  | cons n rest ih =>
    rw [List.flatMap_cons, List.length_append, Endian.length_bytes16, ih, List.length_cons]
    omega

theorem length_lengthBytes : (s.lengthBytes e).length = s.hdrsize - 6 := by
  have hroom := s.length_variableSizes_room
  rw [lengthBytes, List.length_append, length_flatMap_bytes16, List.length_replicate]
  omega

/-- All of the buffer before the values. -/
def headBytes : List UInt8 :=
  e.bytes32 saMagic ++ (e.bytes16 (s.layout + 1024 * s.units) ++ s.lengthBytes e)

theorem write_eq (values : List (List UInt8)) :
    s.write e values = s.headBytes e ++ body values := by
  simp only [write, headBytes, List.append_assoc]

theorem length_headBytes : (s.headBytes e).length = s.hdrsize := by
  have hpos := s.units_pos
  have hsize : s.hdrsize = s.units * 8 := rfl
  rw [headBytes, List.length_append, List.length_append, Endian.length_bytes32,
    Endian.length_bytes16, length_lengthBytes]
  omega

/-- The lengths after a prefix, one by one. -/
theorem u16At_flatMap (e : Endian) (post : List UInt8) {sizes : List Nat} :
    ∀ (pre : List UInt8) {i size : Nat}, sizes[i]? = some size →
      e.u16At (pre ++ (sizes.flatMap e.bytes16 ++ post)) (pre.length + 2 * i) = size % 65536 := by
  induction sizes with
  | nil =>
    intro pre i size h
    simp at h
  | cons n rest ih =>
    intro pre i size h
    rw [List.flatMap_cons, List.append_assoc]
    cases i with
    | zero =>
      obtain rfl : n = size := by simpa using h
      exact Endian.u16At_bytes16 e pre _ n rfl
    | succ i =>
      have hrest := ih (pre ++ e.bytes16 n) (List.getElem?_cons_succ ▸ h)
      rw [List.append_assoc, List.length_append, Endian.length_bytes16] at hrest
      rwa [show pre.length + 2 + 2 * i = pre.length + 2 * (i + 1) from by omega] at hrest

end SaShape

/-- The values stand where they are written, whatever is before them. -/
theorem valuesAt_body (values : List (List UInt8)) :
    ∀ (pre : List UInt8), pre.length % 8 = 0 → ValuesAt (pre ++ body values) pre.length values := by
  induction values with
  | nil =>
    intro pre _
    trivial
  | cons v rest ih =>
    intro pre hpre
    have hle := le_roundUp8 v.length
    have hround : roundUp8 (pre.length + v.length) = pre.length + roundUp8 v.length := by
      unfold roundUp8
      omega
    have hsplit : pre ++ body (v :: rest) = (pre ++ (v ++ gap v.length)) ++ body rest :=
      (List.append_assoc _ _ _).symm
    have hlen : (pre ++ (v ++ gap v.length)).length = roundUp8 (pre.length + v.length) := by
      rw [hround, List.length_append, List.length_append, gap, List.length_replicate]
      omega
    refine ⟨?_, ?_, ?_⟩
    · rw [hsplit, List.length_append, hlen, hround]
      omega
    · rw [List.drop_left, body, List.flatMap_cons, List.append_assoc, List.take_left]
    · have hrest := ih (pre ++ (v ++ gap v.length)) (by rw [hlen]; exact roundUp8_mod _)
      rwa [← hsplit, hlen] at hrest

namespace SaShape

theorem mem_variableSizes {lengths : Nat → Option Nat} {attrs : List (Nat × Nat)} {size : Nat}
    (h : size ∈ variableSizes lengths attrs) : ∃ a ∈ attrs, a.2 = size := by
  obtain ⟨a, ha, hsize⟩ := List.mem_map.mp h
  exact ⟨a, (List.mem_filter.mp ha).1, hsize⟩

theorem written_write (s : SaShape) (e : Endian) {values : List (List UInt8)}
    (h : values.map List.length = s.sizes) : s.Written e values (s.write e values) where
  sizes := h
  long := by
    rw [write_eq, List.length_append, length_headBytes]
    exact Nat.le_add_right _ _
  magic := Endian.u32At_bytes32 e [] _ (by decide) rfl
  info := by
    have hlayout := s.layout_lt
    have hunits := s.units_lt
    rw [write, Endian.u16At_bytes16 e _ _ _ (Endian.length_bytes32 e _)]
    exact Nat.mod_eq_of_lt (by omega)
  lengths i size hi := by
    obtain ⟨a, ha, hsize⟩ := mem_variableSizes (List.mem_of_getElem? hi)
    have hlt : size < 2 ^ 16 := hsize ▸ s.size_lt a ha
    have hpre : (e.bytes32 saMagic ++ e.bytes16 (s.layout + 1024 * s.units)).length = 6 := by
      rw [List.length_append, Endian.length_bytes32, Endian.length_bytes16]
    have hread := u16At_flatMap e
      (List.replicate (s.hdrsize - 6 - 2 * (variableSizes s.lengths s.attrs).length) 0 ++
        body values)
      (e.bytes32 saMagic ++ e.bytes16 (s.layout + 1024 * s.units)) hi
    have hmod : size % 65536 = size := Nat.mod_eq_of_lt hlt
    rw [hpre, hmod] at hread
    simpa only [write, lengthBytes, List.append_assoc] using hread
  values := by
    have hmod : (s.headBytes e).length % 8 = 0 := by
      rw [length_headBytes]
      exact Nat.mul_mod_left _ 8
    have hvalues := valuesAt_body values _ hmod
    rwa [length_headBytes, ← write_eq] at hvalues

end SaShape

/-! ## Values that are missed -/

/-- Values of these sizes with no zero in them. -/
def ones (sizes : List Nat) : List (List UInt8) := sizes.map (fun n => List.replicate n 1)

theorem map_length_ones (sizes : List Nat) : (ones sizes).map List.length = sizes := by
  simp [ones, Function.comp_def]

section Missed

variable {buf : List UInt8} {header : SaHeader} {lengths : Nat → Option Nat} {endian : Endian}

theorem placeFrom_cons {num variableCount at_ : Nat} {rest : List Nat} {v : List UInt8}
    {placed : List (Nat × List UInt8)}
    (h : placeFrom buf header lengths endian (num :: rest) variableCount at_ =
      (num, v) :: placed) :
    ∃ next, at_ + v.length ≤ buf.length ∧ (buf.drop at_).take v.length = v ∧
      placeFrom buf header lengths endian rest next (at_ + v.length) = placed := by
  unfold placeFrom at h
  split at h
  · exact absurd h (by simp)
  · next len next _ =>
    split at h
    · next hfit =>
      obtain ⟨hv, hplaced⟩ := List.cons.inj h
      have htake : (buf.drop at_).take len = v := (Prod.mk.inj hv).2
      have hlen : v.length = len := by
        rw [← htake, List.length_take, List.length_drop]
        omega
      rw [hlen]
      exact ⟨next, hfit, htake, hplaced⟩
    · exact absurd h (by simp)

/-- From where a zero stands, only empty values are found. -/
theorem placeFrom_zero {attrs : List (Nat × Nat)} {at_ : Nat} (hzero : buf[at_]? = some 0) :
    ∀ {variableCount : Nat},
      placeFrom buf header lengths endian (attrs.map Prod.fst) variableCount at_ =
        (attrs.map Prod.fst).zip (ones (attrs.map Prod.snd)) →
      ∀ m ∈ attrs.map Prod.snd, m = 0 := by
  induction attrs with
  | nil =>
    intro variableCount _ m hm
    cases hm
  | cons a rest ih =>
    intro variableCount h
    obtain ⟨next, hfit, htake, hrest⟩ := placeFrom_cons h
    rw [List.length_replicate] at hfit htake hrest
    have hempty : a.2 = 0 := by
      rcases Nat.eq_zero_or_pos a.2 with hempty | hpos
      · exact hempty
      · have hfirst : ((buf.drop at_).take a.2)[0]? = some 0 := by
          rw [List.getElem?_take_of_lt hpos, List.getElem?_drop, Nat.add_zero, hzero]
        rw [htake, List.getElem?_replicate_of_lt hpos] at hfirst
        exact absurd hfirst (by decide)
    rw [hempty, Nat.add_zero] at hrest
    intro m hm
    rcases List.mem_cons.mp hm with rfl | hm
    · exact hempty
    · exact ih hrest m hm

theorem packed_of_zero {sizes : List Nat} (h : ∀ m ∈ sizes, m = 0) : Packed sizes :=
  List.pairwise_of_forall_mem_list (fun _ _ m hm => Or.inr (h m hm))

/-- Where all the values are found from where they begin, no gap is before one. -/
theorem packed_of_placeFrom {attrs : List (Nat × Nat)} :
    ∀ (pre : List UInt8) {variableCount : Nat}, pre.length % 8 = 0 →
      placeFrom (pre ++ body (ones (attrs.map Prod.snd))) header lengths endian
          (attrs.map Prod.fst) variableCount pre.length =
        (attrs.map Prod.fst).zip (ones (attrs.map Prod.snd)) →
      Packed (attrs.map Prod.snd) := by
  induction attrs with
  | nil =>
    intro pre variableCount _ _
    exact List.Pairwise.nil
  | cons a rest ih =>
    intro pre variableCount hpre h
    obtain ⟨next, -, -, hrest⟩ := placeFrom_cons h
    have hbody : pre ++ body (ones (a.2 :: rest.map Prod.snd)) =
        (pre ++ List.replicate a.2 1) ++ (gap a.2 ++ body (ones (rest.map Prod.snd))) := by
      simp [body, ones]
    rw [List.length_replicate, List.map_cons, hbody] at hrest
    have hlen : (pre ++ List.replicate a.2 (1 : UInt8)).length = pre.length + a.2 := by
      rw [List.length_append, List.length_replicate]
    rcases Nat.eq_zero_or_pos (a.2 % 8) with hmod | hmod
    · have hgap : gap a.2 = [] := by
        rw [gap, roundUp8_of_mod hmod, Nat.sub_self]
        rfl
      rw [hgap, List.nil_append, ← hlen] at hrest
      exact List.Pairwise.cons (fun _ _ => Or.inl hmod) (ih _ (by omega) hrest)
    · have hzero : ((pre ++ List.replicate a.2 1) ++
          (gap a.2 ++ body (ones (rest.map Prod.snd))))[pre.length + a.2]? = some 0 := by
        have hpos : 0 < roundUp8 a.2 - a.2 := by
          unfold roundUp8
          omega
        rw [List.getElem?_append_right (Nat.le_of_eq hlen), hlen, Nat.sub_self, gap,
          List.getElem?_append_left (by rwa [List.length_replicate]),
          List.getElem?_replicate_of_lt hpos]
      have hempty := placeFrom_zero hzero hrest
      exact List.Pairwise.cons (fun m hm => Or.inr (hempty m hm)) (packed_of_zero hempty)

end Missed

namespace SaShape

variable {s : SaShape} {e : Endian}

theorem packed_of_placed
    (h : placeAttrs (s.write e (ones s.sizes)) s.header s.nums s.lengths e =
      s.nums.zip (ones s.sizes)) : Packed s.sizes := by
  have hlen := s.length_headBytes e
  rw [write_eq, placeAttrs, show s.header.hdrsize = (s.headBytes e).length from hlen.symm] at h
  exact packed_of_placeFrom _ (by rw [hlen]; exact Nat.mul_mod_left _ 8) h

end SaShape

end Ondisk
end ZvolRescue
