import ZvolRescue.Lib.Regions
import ZvolRescue.Ondisk.Seal
import ZvolRescue.Zio.Error

/-!
# Blocks of encrypted datasets

The payload of a block is ciphertext with a MAC in its pointer.  A block of dnodes is mostly in
the clear: only the bonus buffers of encrypted types are ciphertext, and the rest is
authenticated with them.  `decryptDnodeBlock_frame` says that decrypting writes the plaintext to
these buffers, in order, and nothing else.
-/

namespace ZvolRescue
namespace Crypt

open Lib Ondisk Zio

/-! ## Ciphers -/

/-- So many bytes. -/
abbrev Bytes (n : Nat) := { b : List UInt8 // b.length = n }

def saltLen : Nat := 8

def ivLen : Nat := 12

def macLen : Nat := 16

/-- The keys of an encryption root, and the ciphers they are used with. -/
structure DatasetKeys where
  suite : Nat
  version : Nat
  master : List UInt8

/-- AES in its two modes, and HKDF. -/
structure Ciphers where
  open_ : (ccm : Bool) → (key nonce aad msg : List UInt8) → Option (List UInt8)
  expand : (master salt : List UInt8) → List UInt8

/-- What is opened is as long as the ciphertext without its tag. -/
def Ciphers.KeepsLength (c : Ciphers) : Prop :=
  ∀ ccm key nonce aad msg plain, c.open_ ccm key nonce aad msg = some plain →
    plain.length = msg.length - macLen

def suiteIsCcm (suite : Nat) : Bool := 3 ≤ suite ∧ suite ≤ 5

/-- AEAD decrypt; the ciphertext carries its tag. -/
def aeadOpen (c : Ciphers) (suite : Nat) (key : List UInt8) (nonce : Bytes ivLen)
    (aad msg : List UInt8) : Except CryptError (List UInt8) :=
  if key.length = 16 ∨ key.length = 24 ∨ key.length = 32 then
    match c.open_ (suiteIsCcm suite) key nonce aad msg with
    | some plain => .ok plain
    | none => .error .wrongKey
  else .error (.metadata "bad key length")

/-- The key of a block. -/
def deriveBlockKey (c : Ciphers) (keys : DatasetKeys) (salt : Bytes saltLen) : List UInt8 :=
  c.expand keys.master salt

/-- Checksum words 2 and 3, zero for an object set. -/
def blockMac (bp : BlkPtr) : Bytes macLen :=
  if bp.objectType = otObjset then ⟨List.replicate 16 0, rfl⟩
  else ⟨Endian.little.bytes bp.cksum.w2 ++ Endian.little.bytes bp.cksum.w3, by simp [macLen]⟩

/-- The salt, the initialization vector and the MAC of an encrypted block. -/
def blockParams (bp : BlkPtr) : Option (Bytes saltLen × Bytes ivLen × Bytes macLen) :=
  if bp.isEncrypted then
    let w := fun i => (bp.endian.u64At bp.raw (i * 8)).getD 0
    some (⟨Endian.little.bytes (w 4), by simp [saltLen]⟩,
      ⟨Endian.little.bytes (w 5) ++ (Endian.little.bytes (w 11 >>> 32)).take 4, by simp [ivLen]⟩,
      blockMac bp)
  else none

/-! ## What is authenticated of a pointer -/

/-- Clear `len` bits from bit `low` on. -/
def clear (low len : Nat) (prop : UInt64) : UInt64 :=
  prop &&& ~~~ (((1 <<< UInt64.ofNat len) - 1) <<< UInt64.ofNat low)

/-- The portable part of the properties of a pointer. -/
def portableProp (version : Nat) (bp : BlkPtr) (prop : UInt64) : UInt64 :=
  if version = 0 then clear 16 16 (clear 40 8 (clear 62 1 prop))
  else if bp.isHole then 0
  else
    let prop :=
      if bp.level ≠ 0 then clear 16 16 (clear 32 7 (clear 63 1 prop)) else prop
    clear 40 8 (clear 62 1 prop)

/-- `blkptr_auth_buf_t` of a pointer in a dnode. -/
def blkptrAuthBuf (raw : List UInt8) (version : Nat) (endian : Endian) : List UInt8 :=
  let prop := (endian.u64At raw (6 * 8)).getD 0
  let (prop, mac) :=
    match BlkPtr.parse raw endian with
    | .ok bp => (portableProp version bp prop, (blockMac bp).val)
    | .error _ => (prop, List.replicate 16 0)
  Endian.little.bytes prop ++ mac ++ (if version ≠ 0 then List.replicate 8 0 else [])

/-! ## The walk over the slots -/

def dnodeSize : Nat := 512

/-- The whole dnode slots of a block. -/
def slotCount (ct : List UInt8) : Nat := ct.length / dnodeSize

/-- A byte of the dnode that starts in slot `i`. -/
def dnodeByte (ct : List UInt8) (i k : Nat) : UInt8 := ct.getD (i * dnodeSize + k) 0

/-- The slots of this dnode, at most those that are left. -/
def slotsOf (ct : List UInt8) (i : Nat) : Nat :=
  min ((dnodeByte ct i 12).toNat + 1) (slotCount ct - i)

def nblkptr (ct : List UInt8) (i : Nat) : Nat := (dnodeByte ct i 3).toNat

def hasSpill (ct : List UInt8) (i : Nat) : Bool := dnodeByte ct i 7 &&& 4 ≠ 0

/-- The bonus buffer is there and is ciphertext. -/
def bonusEncrypted (ct : List UInt8) (i : Nat) : Bool :=
  dnodeByte ct i 0 ≠ 0 && otIsEncrypted (dnodeByte ct i 4).toNat &&
    (dnodeByte ct i 10 ≠ 0 || dnodeByte ct i 11 ≠ 0)

/-- Associated data and ciphertext so far, and where the ciphertext is from. -/
structure Walk where
  aad : List UInt8
  cipher : List UInt8
  regions : List Region

/-- The core of a dnode with only the portable flag and without `dn_used`. -/
def portableCore (core : List UInt8) : List UInt8 :=
  let core := core.set 7 (core.getD 7 0 &&& 4)
  core.take 24 ++ List.replicate 8 0 ++ core.drop 32

/-- The pointers of a dnode that fit in its slots. -/
def authPointers (version : Nat) (endian : Endian) (ct : List UInt8) (at_ total : Nat) :
    List Nat → (aad : List UInt8) → Option (List UInt8)
  | [], aad => some aad
  | j :: js, aad =>
    let off := 64 + j * 128
    if off + 128 ≤ total then do
      let raw ← slice ct (at_ + off) (at_ + off + 128)
      authPointers version endian ct at_ total js (aad ++ blkptrAuthBuf raw version endian)
    else authPointers version endian ct at_ total js aad

/-- The spill pointer, if there is one, and where the bonus area ends. -/
def authSpill (version : Nat) (endian : Endian) (ct : List UInt8) (i : Nat) (aad : List UInt8) :
    Option (List UInt8 × Nat) :=
  let at_ := i * dnodeSize
  let total := slotsOf ct i * dnodeSize
  if hasSpill ct i then do
    let raw ← slice ct (at_ + total - 128) (at_ + total)
    some (aad ++ blkptrAuthBuf raw version endian, total - 128)
  else some (aad, total)

/-- The bonus area, right after the block pointers. -/
def readBonus (ct : List UInt8) (i : Nat) (w : Walk) (aad : List UInt8) (bonusEnd : Nat) :
    Option Walk :=
  let at_ := i * dnodeSize
  let bonusStart := 64 + nblkptr ct i * 128
  if bonusStart < bonusEnd then do
    let bonus ← slice ct (at_ + bonusStart) (at_ + bonusEnd)
    if bonusEncrypted ct i then
      some
        { aad
          cipher := w.cipher ++ bonus
          regions := w.regions ++ [(at_ + bonusStart, bonusEnd - bonusStart)] }
    else some { w with aad := aad ++ bonus }
  else some { w with aad }

/-- One dnode; `none` where a slice is out of bounds. -/
def readDnode (version : Nat) (endian : Endian) (ct : List UInt8) (i : Nat) (w : Walk) :
    Option Walk := do
  let dn ← slice ct (i * dnodeSize) (i * dnodeSize + dnodeSize)
  let aad ← authPointers version endian ct (i * dnodeSize) (slotsOf ct i * dnodeSize)
    (List.range (nblkptr ct i)) (w.aad ++ portableCore (dn.take 64))
  let spilled ← authSpill version endian ct i aad
  readBonus ct i w spilled.1 spilled.2

/-- The dnodes from slot `i` on; `none` also where the rounds do not suffice. -/
def walkDnodes (version : Nat) (endian : Endian) (ct : List UInt8) :
    (rounds i : Nat) → Walk → Option Walk
  | 0, i, w => if i < slotCount ct then none else some w
  | rounds + 1, i, w =>
    if i < slotCount ct then do
      let w ← readDnode version endian ct i w
      walkDnodes version endian ct rounds (i + slotsOf ct i) w
    else some w

/-- The walk over a whole block. -/
def walkBlock (version : Nat) (endian : Endian) (ct : List UInt8) : Option Walk :=
  walkDnodes version endian ct (slotCount ct) 0 { aad := [], cipher := [], regions := [] }

/-- Decrypt a block of dnodes; `none` where the source would panic. -/
def decryptDnodeBlock (c : Ciphers) (keys : DatasetKeys) (endian : Endian) (ct key : List UInt8)
    (iv : Bytes ivLen) (mac : Bytes macLen) : Option (Except CryptError (List UInt8)) := do
  let w ← walkBlock keys.version endian ct
  match aeadOpen c keys.suite key iv w.aad (w.cipher ++ mac.val) with
  | .error e => some (.error e)
  | .ok plain =>
    -- With nothing encrypted the block is authenticated all the same.
    if w.cipher.isEmpty then some (.ok ct)
    else do
      let out ← scatter plain w.regions 0 ct
      some (.ok out)

/-- Decrypt a block with the keys of its dataset. -/
def decryptBlock (c : Ciphers) (keys : DatasetKeys) (bp : BlkPtr) (ct : List UInt8) :
    Option (Except CryptError (List UInt8)) :=
  match blockParams bp with
  | none => some (.error (.metadata "pointer is not an encrypted block"))
  | some (salt, iv, mac) =>
    let key := deriveBlockKey c keys salt
    if bp.objectType = 10 then decryptDnodeBlock c keys bp.endian ct key iv mac
    else if bp.objectType = 9 then
      some (.error (.metadata "ZIL blocks are not decrypted (nothing to recover there)"))
    else some (aeadOpen c keys.suite key iv [] (ct ++ mac.val))

/-! ## The dnodes of a block -/

/-- The slots that dnodes start in, from slot `i` on. -/
def dnodesFrom (ct : List UInt8) : (rounds i : Nat) → List Nat
  | 0, _ => []
  | rounds + 1, i =>
    if i < slotCount ct then i :: dnodesFrom ct rounds (i + slotsOf ct i) else []

def dnodes (ct : List UInt8) : List Nat := dnodesFrom ct (slotCount ct) 0

/-- A byte of the core of dnode `i`. -/
def InCore (i k : Nat) : Prop := i * dnodeSize ≤ k ∧ k < i * dnodeSize + 64

/-- A byte of one of its block pointers. -/
def InPointer (ct : List UInt8) (i k : Nat) : Prop :=
  ∃ j < nblkptr ct i, 64 + j * 128 + 128 ≤ slotsOf ct i * dnodeSize ∧
    i * dnodeSize + 64 + j * 128 ≤ k ∧ k < i * dnodeSize + 64 + j * 128 + 128

/-- A byte of its spill pointer. -/
def InSpill (ct : List UInt8) (i k : Nat) : Prop :=
  hasSpill ct i = true ∧ (i + slotsOf ct i) * dnodeSize - 128 ≤ k ∧
    k < (i + slotsOf ct i) * dnodeSize

def bonusStart (ct : List UInt8) (i : Nat) : Nat := 64 + nblkptr ct i * 128

def bonusEnd (ct : List UInt8) (i : Nat) : Nat :=
  slotsOf ct i * dnodeSize - (if hasSpill ct i then 128 else 0)

/-- The bonus area of dnode `i`: from its pointers to its spill pointer or its end. -/
def bonusArea (ct : List UInt8) (i : Nat) : Region :=
  (i * dnodeSize + bonusStart ct i, bonusEnd ct i - bonusStart ct i)

/-- The ciphertext of dnode `i`. -/
def bonusRegions (ct : List UInt8) (i : Nat) : List Region :=
  if bonusStart ct i < bonusEnd ct i ∧ bonusEncrypted ct i = true then [bonusArea ct i] else []

section Dnodes

variable {ct : List UInt8} {i : Nat}

theorem slotsOf_spec (h : i < slotCount ct) :
    0 < slotsOf ct i ∧ i + slotsOf ct i ≤ slotCount ct := by
  rw [slotsOf]
  omega

theorem slots_le (ct : List UInt8) : slotCount ct * dnodeSize ≤ ct.length :=
  Nat.div_mul_le_self _ _

theorem dnode_inside (h : i < slotCount ct) :
    dnodeSize ≤ slotsOf ct i * dnodeSize ∧
      i * dnodeSize + slotsOf ct i * dnodeSize ≤ ct.length := by
  obtain ⟨hpos, hle⟩ := slotsOf_spec h
  have hslots := slots_le ct
  have hmul := Nat.mul_le_mul_right dnodeSize hle
  rw [Nat.add_mul] at hmul
  exact ⟨Nat.le_mul_of_pos_left _ hpos, hmul.trans hslots⟩

theorem authPointers_isSome (version : Nat) (endian : Endian) {at_ total : Nat}
    (h : at_ + total ≤ ct.length) (js : List Nat) (aad : List UInt8) :
    ∃ aad', authPointers version endian ct at_ total js aad = some aad' := by
  induction js generalizing aad with
  | nil => exact ⟨aad, rfl⟩
  | cons j js ih =>
    rw [authPointers]
    by_cases hfits : 64 + j * 128 + 128 ≤ total
    · rw [if_pos hfits, slice_eq (by omega) (by omega)]
      exact ih _
    · rw [if_neg hfits]
      exact ih _

theorem authSpill_spec (version : Nat) (endian : Endian) (h : i < slotCount ct)
    (aad : List UInt8) :
    ∃ aad', authSpill version endian ct i aad = some (aad', bonusEnd ct i) := by
  obtain ⟨hwhole, hinside⟩ := dnode_inside h
  have hsize : dnodeSize = 512 := rfl
  rw [authSpill, bonusEnd]
  by_cases hspill : hasSpill ct i = true
  · rw [if_pos hspill, if_pos hspill, slice_eq (by omega) (by omega)]
    exact ⟨_, rfl⟩
  · rw [if_neg hspill, if_neg hspill]
    exact ⟨aad, rfl⟩

theorem readBonus_spec (h : i < slotCount ct) (w : Walk) (aad : List UInt8) :
    ∃ w', readBonus ct i w aad (bonusEnd ct i) = some w' ∧
      w'.regions = w.regions ++ bonusRegions ct i ∧
      w'.cipher = w.cipher ++ gather ct (bonusRegions ct i) := by
  obtain ⟨hwhole, hinside⟩ := dnode_inside h
  have hend : bonusEnd ct i ≤ slotsOf ct i * dnodeSize := Nat.sub_le _ _
  rw [readBonus, bonusRegions, ← bonusStart]
  by_cases hroom : bonusStart ct i < bonusEnd ct i
  · rw [if_pos hroom, slice_eq (by omega) (by omega)]
    by_cases henc : bonusEncrypted ct i = true
    · rw [if_pos ⟨hroom, henc⟩]
      refine ⟨_, if_pos henc, rfl, ?_⟩
      dsimp only
      rw [gather_cons, regionOf, bonusArea]
      simp [gather, Nat.add_sub_add_left]
    · rw [if_neg (fun hboth => henc hboth.2)]
      exact ⟨_, if_neg henc, (List.append_nil _).symm, (List.append_nil _).symm⟩
  · rw [if_neg hroom, if_neg (fun hboth => hroom hboth.1)]
    exact ⟨_, rfl, (List.append_nil _).symm, (List.append_nil _).symm⟩

/-- What one dnode adds to the ciphertext is its bonus area, if that is encrypted. -/
theorem readDnode_spec (version : Nat) (endian : Endian) (h : i < slotCount ct) (w : Walk) :
    ∃ w', readDnode version endian ct i w = some w' ∧
      w'.regions = w.regions ++ bonusRegions ct i ∧
      w'.cipher = w.cipher ++ gather ct (bonusRegions ct i) := by
  obtain ⟨hwhole, hinside⟩ := dnode_inside h
  obtain ⟨aad, haad⟩ := authPointers_isSome version endian hinside (List.range (nblkptr ct i))
    (w.aad ++ portableCore (((ct.drop (i * dnodeSize)).take dnodeSize).take 64))
  obtain ⟨aad', hspill⟩ := authSpill_spec version endian h aad
  obtain ⟨w', hw', hspec⟩ := readBonus_spec h w aad'
  refine ⟨w', ?_, hspec⟩
  rw [readDnode, slice_eq (by omega) (by omega), Nat.add_sub_cancel_left]
  show (authPointers version endian ct (i * dnodeSize) (slotsOf ct i * dnodeSize)
    (List.range (nblkptr ct i)) _).bind _ = _
  rw [haad]
  show (authSpill version endian ct i aad).bind _ = _
  rw [hspill]
  exact hw'

/-- The walk goes through the dnodes. -/
theorem walkDnodes_spec (version : Nat) (endian : Endian) {rounds : Nat}
    (h : slotCount ct ≤ i + rounds) (w : Walk) :
    ∃ w', walkDnodes version endian ct rounds i w = some w' ∧
      w'.regions = w.regions ++ (dnodesFrom ct rounds i).flatMap (bonusRegions ct) ∧
      w'.cipher =
        w.cipher ++ gather ct ((dnodesFrom ct rounds i).flatMap (bonusRegions ct)) := by
  induction rounds generalizing i w with
  | zero =>
    rw [walkDnodes, if_neg (by omega)]
    exact ⟨w, rfl, (List.append_nil _).symm, (List.append_nil _).symm⟩
  | succ rounds ih =>
    rw [walkDnodes, dnodesFrom]
    by_cases hi : i < slotCount ct
    · obtain ⟨w₁, hw₁, hregions₁, hcipher₁⟩ := readDnode_spec version endian hi w
      obtain ⟨hpos, -⟩ := slotsOf_spec hi
      obtain ⟨w', hw', hregions, hcipher⟩ := @ih (i + slotsOf ct i) (by omega) w₁
      rw [if_pos hi, if_pos hi, hw₁]
      refine ⟨w', hw', ?_, ?_⟩
      · rw [hregions, hregions₁, List.flatMap_cons, List.append_assoc]
      · rw [hcipher, hcipher₁, List.flatMap_cons, gather_append, List.append_assoc]
    · rw [if_neg hi, if_neg hi]
      exact ⟨w, rfl, (List.append_nil _).symm, (List.append_nil _).symm⟩

/-- Dnodes start in order, each behind the slots of those before. -/
theorem dnodesFrom_spec (ct : List UInt8) (rounds i : Nat) :
    (∀ j ∈ dnodesFrom ct rounds i, i ≤ j ∧ j < slotCount ct) ∧
      (dnodesFrom ct rounds i).Pairwise (fun j k => j + slotsOf ct j ≤ k) := by
  induction rounds generalizing i with
  | zero => exact ⟨List.forall_mem_nil _, .nil⟩
  | succ rounds ih =>
    rw [dnodesFrom]
    by_cases hi : i < slotCount ct
    · obtain ⟨hmem, hpairwise⟩ := ih (i + slotsOf ct i)
      rw [if_pos hi]
      refine ⟨fun j hj => ?_, List.pairwise_cons.mpr ⟨fun k hk => (hmem k hk).1, hpairwise⟩⟩
      cases List.mem_cons.mp hj with
      | inl heq => exact ⟨by omega, by omega⟩
      | inr hj =>
        have hle := (hmem j hj).1
        exact ⟨by omega, (hmem j hj).2⟩
    · rw [if_neg hi]
      exact ⟨List.forall_mem_nil _, .nil⟩

theorem mem_dnodes (h : i ∈ dnodes ct) : i < slotCount ct :=
  ((dnodesFrom_spec ct (slotCount ct) 0).1 i h).2

end Dnodes

/-! ## The encrypted regions -/

/-- The bytes of a dnode that are never ciphertext. -/
def Plain (ct : List UInt8) (i k : Nat) : Prop := InCore i k ∨ InPointer ct i k ∨ InSpill ct i k

/-- The ciphertext of a block, by dnode. -/
def encrypted (ct : List UInt8) : List Region := (dnodes ct).flatMap (bonusRegions ct)

section Regions

variable {ct : List UInt8} {i : Nat}

theorem mem_bonusRegions {r : Region} :
    r ∈ bonusRegions ct i ↔
      (bonusStart ct i < bonusEnd ct i ∧ bonusEncrypted ct i = true) ∧ r = bonusArea ct i := by
  rw [bonusRegions]
  split
  case isTrue h => simp [h]
  case isFalse h => simp [h]

/-- A region is in the slots of its dnode. -/
theorem bonusRegions_inside {r : Region} (hr : r ∈ bonusRegions ct i) :
    i * dnodeSize ≤ r.1 ∧ r.1 + r.2 ≤ (i + slotsOf ct i) * dnodeSize := by
  obtain ⟨⟨hroom, -⟩, rfl⟩ := mem_bonusRegions.mp hr
  have hend : bonusEnd ct i ≤ slotsOf ct i * dnodeSize := Nat.sub_le _ _
  rw [bonusArea, Nat.add_mul]
  exact ⟨Nat.le_add_right _ _, by dsimp only; omega⟩

/-- What is not ciphertext is there too. -/
theorem plain_inside (hi : i < slotCount ct) {k : Nat} (h : Plain ct i k) :
    i * dnodeSize ≤ k ∧ k < (i + slotsOf ct i) * dnodeSize := by
  have hwhole := (dnode_inside hi).1
  have hsize : dnodeSize = 512 := rfl
  rw [Nat.add_mul]
  rcases h with ⟨hle, hlt⟩ | ⟨j, -, hfits, hle, hlt⟩ | ⟨-, hle, hlt⟩
  · exact ⟨hle, by omega⟩
  · exact ⟨by omega, by omega⟩
  · rw [Nat.add_mul] at hle hlt
    exact ⟨by omega, hlt⟩

/-- The bonus area is between the pointers and the spill pointer. -/
theorem bonusRegions_plain (hi : i < slotCount ct) {r : Region} (hr : r ∈ bonusRegions ct i)
    {k : Nat} (hk : r.Has k) : ¬ Plain ct i k := by
  obtain ⟨⟨hroom, -⟩, rfl⟩ := mem_bonusRegions.mp hr
  obtain ⟨hle, hlt⟩ := hk
  have hwhole := (dnode_inside hi).1
  have hsize : dnodeSize = 512 := rfl
  rw [bonusArea] at hle hlt
  dsimp only at hle hlt
  rintro (⟨-, hcore⟩ | ⟨j, hj, -, -, hpointer⟩ | ⟨hspill, hfrom, -⟩)
  · rw [bonusStart] at hle
    omega
  · rw [bonusStart] at hle
    omega
  · rw [bonusEnd, if_pos hspill] at hlt hroom
    rw [Nat.add_mul] at hfrom
    omega

/-- The slots of two dnodes do not overlap. -/
def Elsewhere (ct : List UInt8) (i j : Nat) : Prop :=
  i = j ∨ i + slotsOf ct i ≤ j ∨ j + slotsOf ct j ≤ i

theorem dnodes_elsewhere {j : Nat} (hi : i ∈ dnodes ct) (hj : j ∈ dnodes ct) :
    Elsewhere ct i j := by
  have hpairwise := (dnodesFrom_spec ct (slotCount ct) 0).2
  have hbefore : (dnodes ct).Pairwise (Elsewhere ct) := hpairwise.imp (fun hle => .inr (.inl hle))
  have hbehind : (dnodes ct).Pairwise (flip (Elsewhere ct)) :=
    hpairwise.imp (fun hle => Or.inr (Or.inr hle))
  exact List.Pairwise.forall_of_forall_of_flip (fun _ _ => .inl rfl) hbefore hbehind hi hj

/-- The ciphertext never meets the core, a block pointer or the spill pointer of a dnode. -/
theorem encrypted_plain {r : Region} (hr : r ∈ encrypted ct) {k : Nat} (hk : r.Has k)
    (hi : i ∈ dnodes ct) : ¬ Plain ct i k := by
  obtain ⟨j, hj, hrj⟩ := List.mem_flatMap.mp hr
  intro hplain
  obtain ⟨hfrom, hto⟩ := plain_inside (mem_dnodes hi) hplain
  obtain ⟨hstart, hstop⟩ := bonusRegions_inside hrj
  obtain ⟨hle, hlt⟩ := hk
  rcases dnodes_elsewhere hi hj with rfl | hbefore | hbehind
  · exact bonusRegions_plain (mem_dnodes hj) hrj ⟨hle, hlt⟩ hplain
  · have hmul := Nat.mul_le_mul_right dnodeSize hbefore
    omega
  · have hmul := Nat.mul_le_mul_right dnodeSize hbehind
    omega

theorem encrypted_apart (ct : List UInt8) : Apart ct.length (encrypted ct) := by
  refine { disjoint := ?_, inside := fun r hr => ?_ }
  · refine List.pairwise_flatMap.mpr ⟨fun i _ => ?_, ?_⟩
    · rw [bonusRegions]
      split
      · exact List.pairwise_singleton _ _
      · exact .nil
    · refine (dnodesFrom_spec ct (slotCount ct) 0).2.imp (fun {i j} hle r hr r' hr' => ?_)
      have hmul := Nat.mul_le_mul_right dnodeSize hle
      exact (bonusRegions_inside hr).2.trans (hmul.trans (bonusRegions_inside hr').1)
  · obtain ⟨i, hi, hri⟩ := List.mem_flatMap.mp hr
    have hmul := Nat.mul_le_mul_right dnodeSize (slotsOf_spec (mem_dnodes hi)).2
    exact (bonusRegions_inside hri).2.trans (hmul.trans (slots_le ct))

/-- Without ciphertext there are no regions. -/
theorem encrypted_eq_nil (h : gather ct (encrypted ct) = []) : encrypted ct = [] := by
  by_contra hne
  obtain ⟨r, hr⟩ := List.exists_mem_of_ne_nil _ hne
  obtain ⟨i, -, hri⟩ := List.mem_flatMap.mp hr
  obtain ⟨⟨hroom, -⟩, rfl⟩ := mem_bonusRegions.mp hri
  have hpiece := List.flatMap_eq_nil_iff.mp h _ hr
  have hlength := regionOf_length ((encrypted_apart ct).inside _ hr)
  rw [hpiece, bonusArea] at hlength
  have hzero : 0 = bonusEnd ct i - bonusStart ct i := hlength
  omega

end Regions

/-! ## What decrypting writes -/

theorem walkBlock_spec (version : Nat) (endian : Endian) (ct : List UInt8) :
    ∃ w, walkBlock version endian ct = some w ∧ w.regions = encrypted ct ∧
      w.cipher = gather ct (encrypted ct) :=
  walkDnodes_spec version endian (by omega) _

theorem aeadOpen_length {c : Ciphers} (hc : c.KeepsLength) {suite : Nat} {key : List UInt8}
    {nonce : Bytes ivLen} {aad cipher plain : List UInt8} {mac : Bytes macLen}
    (h : aeadOpen c suite key nonce aad (cipher ++ mac.val) = .ok plain) :
    plain.length = cipher.length := by
  rw [aeadOpen] at h
  split at h
  · split at h
    case h_1 hopen =>
      cases h
      rw [hc _ _ _ _ _ _ hopen, List.length_append, mac.property, Nat.add_sub_cancel]
    case h_2 => cases h
  · cases h

/-- The regions of a walk: apart, in encrypted bonus areas of allocated dnodes, and never over
what is not encrypted. -/
structure InBonuses (ct : List UInt8) (regions : List Region) : Prop where
  apart : Apart ct.length regions
  bonus : ∀ r ∈ regions, ∃ i ∈ dnodes ct, bonusEncrypted ct i = true ∧ r = bonusArea ct i
  plain : ∀ r ∈ regions, ∀ k, r.Has k → ∀ i ∈ dnodes ct,
    ¬ InCore i k ∧ ¬ InPointer ct i k ∧ ¬ InSpill ct i k

theorem encrypted_inBonuses (ct : List UInt8) : InBonuses ct (encrypted ct) where
  apart := encrypted_apart ct
  bonus r hr := by
    obtain ⟨i, hi, hri⟩ := List.mem_flatMap.mp hr
    obtain ⟨⟨-, henc⟩, heq⟩ := mem_bonusRegions.mp hri
    exact ⟨i, hi, henc, heq⟩
  plain r hr k hk i hi := by
    have hplain := encrypted_plain hr hk hi
    rw [Plain, not_or, not_or] at hplain
    exact hplain

/-- Block `out` is `ct` with `plain` in these regions, in order. -/
structure Framed (ct : List UInt8) (regions : List Region) (plain out : List UInt8) : Prop where
  length : out.length = ct.length
  outside : ∀ k, (∀ r ∈ regions, ¬ r.Has k) → out[k]? = ct[k]?
  inside : gather out regions = plain

/-- Decrypting a block of dnodes ends, stays in bounds, and changes only the encrypted bonus
areas. -/
theorem decryptDnodeBlock_frame (c : Ciphers) (hc : c.KeepsLength) (keys : DatasetKeys)
    (endian : Endian) (ct key : List UInt8) (iv : Bytes ivLen) (mac : Bytes macLen) :
    ∃ w, walkBlock keys.version endian ct = some w ∧
      InBonuses ct w.regions ∧ w.cipher = gather ct w.regions ∧
      ∃ result, decryptDnodeBlock c keys endian ct key iv mac = some result ∧
        ∀ out, result = .ok out →
          ∃ plain, aeadOpen c keys.suite key iv w.aad (w.cipher ++ mac.val) = .ok plain ∧
            Framed ct w.regions plain out := by
  obtain ⟨w, hw, hregions, hcipher⟩ := walkBlock_spec keys.version endian ct
  rw [← hregions] at hcipher
  have hbonuses : InBonuses ct w.regions := hregions ▸ encrypted_inBonuses ct
  refine ⟨w, hw, hbonuses, hcipher, ?_⟩
  rw [decryptDnodeBlock, hw]
  dsimp only [Option.bind_eq_bind, Option.bind_some]
  cases hopen : aeadOpen c keys.suite key iv w.aad (w.cipher ++ mac.val) with
  | error e => exact ⟨_, rfl, fun out hout => by cases hout⟩
  | ok plain =>
    dsimp only
    have hlength := aeadOpen_length hc hopen
    by_cases hempty : w.cipher.isEmpty = true
    · have hnil : w.cipher = [] := List.isEmpty_iff.mp hempty
      have hnone : w.regions = [] := by
        rw [hregions]
        refine encrypted_eq_nil ?_
        rw [← hregions, ← hcipher, hnil]
      rw [if_pos hempty]
      refine ⟨_, rfl, fun out hout => ?_⟩
      cases hout
      refine ⟨plain, rfl, { length := rfl, outside := fun _ _ => rfl, inside := ?_ }⟩
      rw [hnil] at hlength
      rw [hnone, List.eq_nil_of_length_eq_zero hlength]
      rfl
    · have hfills : plain.length = 0 + (w.regions.map Prod.snd).sum := by
        rw [hlength, hcipher, gather_length hbonuses.apart.inside, Nat.zero_add]
      obtain ⟨out, hout, hsame, houtside, hinside⟩ := scatter_spec hbonuses.apart hfills
      rw [if_neg hempty, hout]
      refine ⟨_, rfl, fun out' hout' => ?_⟩
      cases hout'
      exact ⟨plain, rfl, { length := hsame, outside := houtside, inside := hinside }⟩

/-- Ciphers that only take the tag off. -/
def untag : Ciphers where
  open_ _ _ _ _ msg := some (msg.take (msg.length - macLen))
  expand _ _ := List.replicate 32 0

/-- A file in one slot: one block pointer, and system attributes in the bonus buffer. -/
def fileBlock : List UInt8 := [19, 17, 1, 1, 44, 0, 0, 0, 0, 0, 168, 0, 0] ++ List.replicate 499 0

theorem untag_keepsLength : untag.KeepsLength := by
  intro ccm key nonce aad msg plain h
  have hplain : msg.take (msg.length - macLen) = plain := Option.some.inj h
  rw [← hplain, List.length_take, min_eq_left (Nat.sub_le _ _)]

def zeroKey : List UInt8 := List.replicate 32 0

def zeroIv : Bytes ivLen := ⟨List.replicate 12 0, rfl⟩

def zeroMac : Bytes macLen := ⟨List.replicate 16 0, rfl⟩

def someKeys : DatasetKeys := { suite := 8, version := 1, master := [] }

theorem decryptDnodeBlock_frame_file :
    encrypted fileBlock = [(192, 320)] ∧
      ∃ w, walkBlock 1 .little fileBlock = some w ∧
        InBonuses fileBlock w.regions ∧ w.cipher = gather fileBlock w.regions ∧
        ∃ result,
          decryptDnodeBlock untag someKeys .little fileBlock zeroKey zeroIv zeroMac =
            some result ∧
          ∀ out, result = .ok out →
            ∃ plain, aeadOpen untag 8 zeroKey zeroIv w.aad (w.cipher ++ zeroMac.val) = .ok plain ∧
              Framed fileBlock w.regions plain out := by
  refine ⟨by decide +kernel, ?_⟩
  exact decryptDnodeBlock_frame untag untag_keepsLength someKeys .little fileBlock zeroKey zeroIv
    zeroMac

end Crypt
end ZvolRescue
