import ZvolRescue.Crypt.Dnode

/-!
# What a block decrypts to

What is authenticated of a block of dnodes is told by its plaintext: the bytes that decrypting
changes are never associated data (`walkBlock_alike`).  So a block decrypts to what it is the
encryption of, and to nothing else (`decryptBlock_sealed`).
-/

namespace ZvolRescue
namespace Crypt

open Lib Ondisk Zio

/-- The other direction of the ciphers: what is opened is what was sealed, and nothing else opens.
There is no seal of what is too long for a mode. -/
structure Sealing (c : Ciphers) where
  close : (ccm : Bool) → (key nonce aad plain : List UInt8) → Option (List UInt8)
  opens : ∀ ccm key nonce aad plain msg,
    c.open_ ccm key nonce aad msg = some plain ↔ close ccm key nonce aad plain = some msg
  /-- The tag is appended. -/
  length : ∀ ccm key nonce aad plain msg, close ccm key nonce aad plain = some msg →
    msg.length = plain.length + macLen

/-- AES has keys of three lengths. -/
def KeyFits (key : List UInt8) : Prop := key.length = 16 ∨ key.length = 24 ∨ key.length = 32

section Sealing

variable {c : Ciphers}

theorem Sealing.keepsLength (s : Sealing c) : c.KeepsLength := by
  intro ccm key nonce aad msg plain h
  rw [s.length _ _ _ _ _ _ ((s.opens _ _ _ _ _ _).mp h), Nat.add_sub_cancel]

theorem Sealing.aeadOpen_iff (s : Sealing c) {suite : Nat} {key aad msg plain : List UInt8}
    {nonce : Bytes ivLen} : aeadOpen c suite key nonce aad msg = .ok plain ↔
      KeyFits key ∧ s.close (suiteIsCcm suite) key nonce aad plain = some msg := by
  rw [aeadOpen, ← s.opens]
  by_cases hkey : key.length = 16 ∨ key.length = 24 ∨ key.length = 32
  · rw [if_pos hkey]
    cases hopen : c.open_ (suiteIsCcm suite) key nonce aad msg with
    | none => simp
    | some p => simp [KeyFits, hkey]
  · rw [if_neg hkey]
    simp [KeyFits, hkey]

end Sealing

/-! ## Blocks that differ in ciphertext -/

/-- The blocks differ in the encrypted bonus areas of the first only. -/
structure Alike (a b : List UInt8) : Prop where
  length : b.length = a.length
  outside : ∀ k, (∀ r ∈ encrypted a, ¬ r.Has k) → b[k]? = a[k]?

section Alike

variable {a b : List UInt8} {i : Nat}

/-- A byte of a dnode that is not of its ciphertext is the same. -/
theorem Alike.dnode (h : Alike a b) (hi : i ∈ dnodes a) {k : Nat} (hfrom : i * dnodeSize ≤ k)
    (hto : k < (i + slotsOf a i) * dnodeSize) (hnot : ∀ r ∈ bonusRegions a i, ¬ r.Has k) :
    b[k]? = a[k]? := by
  refine h.outside k (fun r hr hk => ?_)
  obtain ⟨j, hj, hrj⟩ := List.mem_flatMap.mp hr
  obtain ⟨hstart, hstop⟩ := bonusRegions_inside hrj
  obtain ⟨hle, hlt⟩ := hk
  rcases dnodes_elsewhere hi hj with rfl | hbefore | hbehind
  · exact hnot r hrj ⟨hle, hlt⟩
  · have hmul := Nat.mul_le_mul_right dnodeSize hbefore
    omega
  · have hmul := Nat.mul_le_mul_right dnodeSize hbehind
    omega

theorem Alike.plain (h : Alike a b) (hi : i ∈ dnodes a) {k : Nat} (hk : Plain a i k) :
    b[k]? = a[k]? := by
  obtain ⟨hfrom, hto⟩ := plain_inside (mem_dnodes hi) hk
  exact h.dnode hi hfrom hto (fun r hr hhas => bonusRegions_plain (mem_dnodes hi) hr hhas hk)

theorem Alike.byte (h : Alike a b) (hi : i ∈ dnodes a) {k : Nat} (hk : k < 64) :
    dnodeByte b i k = dnodeByte a i k := by
  have hcore : InCore i (i * dnodeSize + k) := ⟨Nat.le_add_right _ _, by omega⟩
  rw [dnodeByte, dnodeByte, List.getD_eq_getElem?_getD, List.getD_eq_getElem?_getD,
    h.plain hi (Or.inl hcore)]

theorem Alike.slotCount (h : Alike a b) : slotCount b = slotCount a := by
  rw [Crypt.slotCount, Crypt.slotCount, h.length]

theorem Alike.slotsOf (h : Alike a b) (hi : i ∈ dnodes a) : slotsOf b i = slotsOf a i := by
  rw [Crypt.slotsOf, Crypt.slotsOf, h.byte hi (by decide), h.slotCount]

theorem Alike.nblkptr (h : Alike a b) (hi : i ∈ dnodes a) : nblkptr b i = nblkptr a i := by
  rw [Crypt.nblkptr, Crypt.nblkptr, h.byte hi (by decide)]

theorem Alike.hasSpill (h : Alike a b) (hi : i ∈ dnodes a) : hasSpill b i = hasSpill a i := by
  rw [Crypt.hasSpill, Crypt.hasSpill, h.byte hi (by decide)]

theorem Alike.bonusEncrypted (h : Alike a b) (hi : i ∈ dnodes a) :
    bonusEncrypted b i = bonusEncrypted a i := by
  rw [Crypt.bonusEncrypted, Crypt.bonusEncrypted, h.byte hi (by decide), h.byte hi (by decide),
    h.byte hi (by decide), h.byte hi (by decide)]

theorem Alike.bonusRegions (h : Alike a b) (hi : i ∈ dnodes a) :
    bonusRegions b i = bonusRegions a i := by
  have hstart : bonusStart b i = bonusStart a i := by
    rw [bonusStart, bonusStart, h.nblkptr hi]
  have hend : bonusEnd b i = bonusEnd a i := by
    rw [bonusEnd, bonusEnd, h.slotsOf hi, h.hasSpill hi]
  rw [Crypt.bonusRegions, Crypt.bonusRegions, bonusArea, bonusArea, hstart, hend,
    h.bonusEncrypted hi]

theorem Alike.dnodesFrom (h : Alike a b) {rounds : Nat}
    (hin : ∀ j ∈ dnodesFrom a rounds i, j ∈ dnodes a) :
    dnodesFrom b rounds i = dnodesFrom a rounds i := by
  induction rounds generalizing i with
  | zero => rfl
  | succ rounds ih =>
    rw [Crypt.dnodesFrom] at hin ⊢
    rw [Crypt.dnodesFrom, h.slotCount]
    by_cases hi : i < Crypt.slotCount a
    · rw [if_pos hi] at hin
      obtain ⟨hhead, hrest⟩ := List.forall_mem_cons.mp hin
      rw [if_pos hi, if_pos hi, h.slotsOf hhead, ih hrest]
    · rw [if_neg hi, if_neg hi]

/-- The same regions are ciphertext. -/
theorem Alike.encrypted (h : Alike a b) : encrypted b = encrypted a := by
  have hdnodes : dnodes b = dnodes a := by
    rw [dnodes, h.slotCount]
    exact h.dnodesFrom (fun j hj => hj)
  rw [Crypt.encrypted, Crypt.encrypted, hdnodes]
  exact List.flatMap_congr (fun i hi => h.bonusRegions hi)

theorem Alike.symm (h : Alike a b) : Alike b a where
  length := h.length.symm
  outside := fun k hk => (h.outside k (h.encrypted ▸ hk)).symm

/-! ## What is authenticated -/

theorem slice_congr {x y : Nat} (hlength : b.length = a.length)
    (h : ∀ k, x ≤ k → k < y → b[k]? = a[k]?) : slice b x y = slice a x y := by
  have hsame : (b.drop x).take (y - x) = (a.drop x).take (y - x) := by
    refine regionOf_congr (r := (x, y - x)) (fun k hk => ?_)
    obtain ⟨hle, hlt⟩ := hk
    dsimp only at hle hlt
    exact h k hle (by omega)
  rw [slice, slice, hlength, hsame]

theorem Alike.authPointers (h : Alike a b) (hi : i ∈ dnodes a) (version : Nat) (endian : Endian)
    {js : List Nat} (hjs : ∀ j ∈ js, j < Crypt.nblkptr a i) (aad : List UInt8) :
    authPointers version endian b (i * dnodeSize) (Crypt.slotsOf a i * dnodeSize) js aad =
      authPointers version endian a (i * dnodeSize) (Crypt.slotsOf a i * dnodeSize) js aad := by
  induction js generalizing aad with
  | nil => rfl
  | cons j js ih =>
    obtain ⟨hj, hrest⟩ := List.forall_mem_cons.mp hjs
    rw [Crypt.authPointers, Crypt.authPointers]
    by_cases hfits : 64 + j * 128 + 128 ≤ Crypt.slotsOf a i * dnodeSize
    · have hslice : slice b (i * dnodeSize + (64 + j * 128))
          (i * dnodeSize + (64 + j * 128) + 128) = slice a (i * dnodeSize + (64 + j * 128))
            (i * dnodeSize + (64 + j * 128) + 128) := by
        refine slice_congr h.length (fun k hle hlt => h.plain hi (Or.inr (Or.inl ?_)))
        exact ⟨j, hj, hfits, by omega, by omega⟩
      rw [if_pos hfits, if_pos hfits, hslice]
      simp only [ih hrest]
    · rw [if_neg hfits, if_neg hfits, ih hrest]

theorem Alike.authSpill (h : Alike a b) (hi : i ∈ dnodes a) (version : Nat) (endian : Endian)
    (aad : List UInt8) : authSpill version endian b i aad = authSpill version endian a i aad := by
  rw [Crypt.authSpill, Crypt.authSpill, h.slotsOf hi, h.hasSpill hi]
  by_cases hspill : Crypt.hasSpill a i = true
  · have hslice : slice b (i * dnodeSize + Crypt.slotsOf a i * dnodeSize - 128)
        (i * dnodeSize + Crypt.slotsOf a i * dnodeSize) =
          slice a (i * dnodeSize + Crypt.slotsOf a i * dnodeSize - 128)
            (i * dnodeSize + Crypt.slotsOf a i * dnodeSize) := by
      refine slice_congr h.length (fun k hle hlt => h.plain hi (Or.inr (Or.inr ?_)))
      rw [← Nat.add_mul] at hle hlt
      exact ⟨hspill, hle, hlt⟩
    rw [if_pos hspill, if_pos hspill, hslice]
  · rw [if_neg hspill, if_neg hspill]

/-- A bonus buffer is authenticated only where it is not ciphertext. -/
theorem Alike.readBonus (h : Alike a b) (hi : i ∈ dnodes a) (w w' : Walk) (aad : List UInt8) :
    (readBonus b i w' aad (bonusEnd a i)).map Walk.aad =
      (readBonus a i w aad (bonusEnd a i)).map Walk.aad := by
  obtain ⟨hwhole, hinside⟩ := dnode_inside (mem_dnodes hi)
  have hend : bonusEnd a i ≤ Crypt.slotsOf a i * dnodeSize := Nat.sub_le _ _
  rw [Crypt.readBonus, Crypt.readBonus, h.nblkptr hi, h.bonusEncrypted hi, ← bonusStart]
  by_cases hroom : bonusStart a i < bonusEnd a i
  · rw [if_pos hroom, if_pos hroom,
      slice_eq (by omega) (by rw [h.length]; omega), slice_eq (by omega) (by omega)]
    cases henc : Crypt.bonusEncrypted a i with
    | true => rfl
    | false =>
      have hsame : (b.drop (i * dnodeSize + bonusStart a i)).take
          (i * dnodeSize + bonusEnd a i - (i * dnodeSize + bonusStart a i)) =
          (a.drop (i * dnodeSize + bonusStart a i)).take
            (i * dnodeSize + bonusEnd a i - (i * dnodeSize + bonusStart a i)) := by
        refine regionOf_congr (r := (i * dnodeSize + bonusStart a i,
          i * dnodeSize + bonusEnd a i - (i * dnodeSize + bonusStart a i))) (fun k hk => ?_)
        obtain ⟨hle, hlt⟩ := hk
        dsimp only at hle hlt
        refine h.dnode hi (by omega) (by rw [Nat.add_mul]; omega) (fun r hr => ?_)
        have hyes := (mem_bonusRegions.mp hr).1.2
        rw [henc] at hyes
        cases hyes
      show some _ = some _
      rw [hsame]
  · rw [if_neg hroom, if_neg hroom]
    rfl

theorem Alike.readDnode (h : Alike a b) (hi : i ∈ dnodes a) (version : Nat) (endian : Endian)
    {w w' : Walk} (haad : w'.aad = w.aad) :
    (readDnode version endian b i w').map Walk.aad =
      (readDnode version endian a i w).map Walk.aad := by
  obtain ⟨hwhole, hinside⟩ := dnode_inside (mem_dnodes hi)
  have hsize : dnodeSize = 512 := rfl
  have hcore : ((b.drop (i * dnodeSize)).take dnodeSize).take 64 =
      ((a.drop (i * dnodeSize)).take dnodeSize).take 64 := by
    rw [List.take_take, List.take_take]
    refine regionOf_congr (r := (i * dnodeSize, min 64 dnodeSize)) (fun k hk => ?_)
    exact h.plain hi (Or.inl ⟨hk.1, lt_of_lt_of_eq hk.2 rfl⟩)
  obtain ⟨aad, haad'⟩ := authPointers_isSome version endian hinside
    (List.range (Crypt.nblkptr a i))
    (w.aad ++ portableCore (((a.drop (i * dnodeSize)).take dnodeSize).take 64))
  obtain ⟨aad', hspill⟩ := authSpill_spec version endian (mem_dnodes hi) aad
  have hone : Crypt.readDnode version endian a i w =
      Crypt.readBonus a i w aad' (bonusEnd a i) := by
    rw [Crypt.readDnode, slice_eq (by omega) (by omega), Nat.add_sub_cancel_left]
    show (Crypt.authPointers version endian a _ _ _ _).bind _ = _
    rw [haad']
    show (Crypt.authSpill version endian a i aad).bind _ = _
    rw [hspill]
    rfl
  have htwo : Crypt.readDnode version endian b i w' =
      Crypt.readBonus b i w' aad' (bonusEnd a i) := by
    rw [Crypt.readDnode, slice_eq (by omega) (by rw [h.length]; omega), Nat.add_sub_cancel_left,
      h.nblkptr hi, h.slotsOf hi]
    show (Crypt.authPointers version endian b _ _ _ _).bind _ = _
    rw [hcore, haad, h.authPointers hi version endian (fun j hj => List.mem_range.mp hj), haad']
    show (Crypt.authSpill version endian b i aad).bind _ = _
    rw [h.authSpill hi, hspill]
    rfl
  rw [hone, htwo, h.readBonus hi w w']

/-- What is authenticated of a block is told by the bytes that are not ciphertext.  By induction on
the rounds. -/
theorem Alike.walkDnodes (h : Alike a b) (version : Nat) (endian : Endian) {rounds : Nat}
    {w w' : Walk} (hin : ∀ j ∈ Crypt.dnodesFrom a rounds i, j ∈ dnodes a)
    (haad : w'.aad = w.aad) :
    (walkDnodes version endian b rounds i w').map Walk.aad =
      (walkDnodes version endian a rounds i w).map Walk.aad := by
  induction rounds generalizing i w w' with
  | zero =>
    rw [Crypt.walkDnodes, Crypt.walkDnodes, h.slotCount]
    split
    · rfl
    · exact congrArg some haad
  | succ rounds ih =>
    rw [Crypt.dnodesFrom] at hin
    rw [Crypt.walkDnodes, Crypt.walkDnodes, h.slotCount]
    by_cases hi : i < Crypt.slotCount a
    · rw [if_pos hi] at hin
      obtain ⟨hhead, hrest⟩ := List.forall_mem_cons.mp hin
      obtain ⟨x, hx, -⟩ := readDnode_spec version endian hi w
      obtain ⟨y, hy, -⟩ := readDnode_spec version endian (h.slotCount ▸ hi) w'
      have hsame := h.readDnode hhead version endian haad
      rw [hx, hy, Option.map_some, Option.map_some, Option.some.injEq] at hsame
      rw [if_pos hi, if_pos hi, hx, hy, h.slotsOf hhead]
      exact ih hrest hsame
    · rw [if_neg hi, if_neg hi]
      exact congrArg some haad

theorem walkBlock_alike (h : Alike a b) (version : Nat) (endian : Endian) :
    (walkBlock version endian b).map Walk.aad = (walkBlock version endian a).map Walk.aad := by
  rw [walkBlock, walkBlock, h.slotCount]
  exact h.walkDnodes version endian (fun j hj => hj) rfl

end Alike

/-! ## Encryption -/

section Encryption

variable {c : Ciphers} {s : Sealing c} {keys : DatasetKeys} {endian : Endian}
  {key plain ct : List UInt8} {iv : Bytes ivLen} {mac : Bytes macLen}

/-- `ct` and `mac` are what a block of dnodes is encrypted to: its encrypted bonus areas are
ciphertext, with everything else as associated data. -/
structure SealsDnodes (s : Sealing c) (keys : DatasetKeys) (endian : Endian) (key : List UInt8)
    (iv : Bytes ivLen) (plain ct : List UInt8) (mac : Bytes macLen) : Prop where
  fits : KeyFits key
  alike : Alike plain ct
  closed : ∃ w, walkBlock keys.version endian plain = some w ∧
    s.close (suiteIsCcm keys.suite) key iv w.aad w.cipher =
      some (gather ct (encrypted plain) ++ mac.val)

/-- Blocks that differ in ciphertext only and hold the same ciphertext are the same. -/
theorem Alike.eq_of_gather {a b : List UInt8} (h : Alike a b)
    (hgather : gather b (Crypt.encrypted a) = gather a (Crypt.encrypted a)) : b = a := by
  refine List.ext_getElem? (fun k => ?_)
  by_cases hk : ∃ r ∈ Crypt.encrypted a, r.Has k
  · obtain ⟨r, hr, hhas⟩ := hk
    exact getElem?_of_regionOf
      (regionOf_of_gather (encrypted_apart a).inside h.length hgather r hr) hhas
  · exact h.outside k (fun r hr hhas => hk ⟨r, hr, hhas⟩)

/-- What is opened is written to the encrypted bonus areas. -/
theorem decryptDnodeBlock_ok (hc : c.KeepsLength) {w : Walk}
    (hw : walkBlock keys.version endian ct = some w) :
    decryptDnodeBlock c keys endian ct key iv mac = some (.ok plain) ↔ Alike ct plain ∧
      aeadOpen c keys.suite key iv w.aad (w.cipher ++ mac.val) =
        .ok (gather plain (encrypted ct)) := by
  obtain ⟨w', hw', hregions, hcipher⟩ := walkBlock_spec keys.version endian ct
  obtain rfl := Option.some.inj (hw'.symm.trans hw)
  have hwritten : ∀ opened, aeadOpen c keys.suite key iv w'.aad (w'.cipher ++ mac.val) =
      .ok opened → ∃ out, decryptDnodeBlock c keys endian ct key iv mac = some (.ok out) ∧
        Alike ct out ∧ gather out (encrypted ct) = opened := by
    intro opened hopen
    have hlength := aeadOpen_length hc hopen
    rw [decryptDnodeBlock, hw]
    dsimp only [Option.bind_eq_bind, Option.bind_some]
    rw [hopen]
    dsimp only
    by_cases hempty : w'.cipher.isEmpty = true
    · have hnil := List.isEmpty_iff.mp hempty
      rw [hnil] at hlength hcipher
      rw [if_pos hempty]
      refine ⟨ct, rfl, ⟨rfl, fun _ _ => rfl⟩, ?_⟩
      rw [← hcipher, List.eq_nil_of_length_eq_zero hlength]
    · have hfills : opened.length = 0 + ((encrypted ct).map Prod.snd).sum := by
        rw [hlength, hcipher, gather_length (encrypted_apart ct).inside, Nat.zero_add]
      obtain ⟨out, hout, hsame, houtside, hinside⟩ := scatter_spec (encrypted_apart ct) hfills
      rw [if_neg hempty, hregions, hout]
      exact ⟨out, rfl, ⟨hsame, houtside⟩, hinside⟩
  constructor
  · intro h
    cases hopen : aeadOpen c keys.suite key iv w'.aad (w'.cipher ++ mac.val) with
    | error e =>
      rw [decryptDnodeBlock, hw] at h
      dsimp only [Option.bind_eq_bind, Option.bind_some] at h
      rw [hopen] at h
      cases h
    | ok opened =>
      obtain ⟨out, hout, halike, hgather⟩ := hwritten opened hopen
      obtain rfl := Except.ok.inj (Option.some.inj (hout.symm.trans h))
      exact ⟨halike, congrArg Except.ok hgather.symm⟩
  · rintro ⟨halike, hopen⟩
    obtain ⟨out, hout, halike', hgather⟩ := hwritten _ hopen
    have hsame : Alike plain out := by
      refine ⟨halike'.length.trans halike.length.symm, fun k hk => ?_⟩
      rw [halike.encrypted] at hk
      rw [halike'.outside k hk, halike.outside k hk]
    rw [hout, hsame.eq_of_gather (by rw [halike.encrypted, hgather])]

/-- A block of dnodes decrypts to what it is the encryption of. -/
theorem decryptDnodeBlock_sealed : decryptDnodeBlock c keys endian ct key iv mac =
    some (.ok plain) ↔ SealsDnodes s keys endian key iv plain ct mac := by
  obtain ⟨w, hw, -, hcipher⟩ := walkBlock_spec keys.version endian ct
  obtain ⟨w', hw', -, hcipher'⟩ := walkBlock_spec keys.version endian plain
  rw [decryptDnodeBlock_ok s.keepsLength hw, s.aeadOpen_iff, hcipher]
  have haad : Alike ct plain → w'.aad = w.aad := by
    intro halike
    have hsame := walkBlock_alike halike keys.version endian
    rwa [hw, hw', Option.map_some, Option.map_some, Option.some.injEq] at hsame
  constructor
  · rintro ⟨halike, hkey, hclosed⟩
    refine ⟨hkey, halike.symm, w', hw', ?_⟩
    rw [haad halike, hcipher', halike.encrypted]
    exact hclosed
  · rintro ⟨hkey, halike, w₁, hw₁, hclosed⟩
    obtain rfl := Option.some.inj (hw'.symm.trans hw₁)
    refine ⟨halike.symm, hkey, ?_⟩
    rw [← haad halike.symm, halike.encrypted, ← hcipher']
    exact hclosed

/-- A block decrypts to what it is the encryption of under the key and the parameters that its
pointer gives, and to nothing else; the blocks of the intent log are never decrypted. -/
theorem decryptBlock_sealed (s : Sealing c) (keys : DatasetKeys) (bp : BlkPtr)
    (ct plain : List UInt8) : decryptBlock c keys bp ct = some (.ok plain) ↔
      ∃ salt iv mac, blockParams bp = some (salt, iv, mac) ∧
        (bp.objectType = 10 ∧
            SealsDnodes s keys bp.endian (deriveBlockKey c keys salt) iv plain ct mac ∨
          bp.objectType ≠ 10 ∧ bp.objectType ≠ 9 ∧ KeyFits (deriveBlockKey c keys salt) ∧
            s.close (suiteIsCcm keys.suite) (deriveBlockKey c keys salt) iv [] plain =
              some (ct ++ mac.val)) := by
  rw [decryptBlock]
  cases hparams : blockParams bp with
  | none => simp
  | some params =>
    obtain ⟨salt, iv, mac⟩ := params
    simp only [Option.some.injEq, Prod.mk.injEq]
    by_cases hdnode : bp.objectType = 10
    · rw [if_pos hdnode, decryptDnodeBlock_sealed (s := s)]
      constructor
      · exact fun h => ⟨salt, iv, mac, ⟨rfl, rfl, rfl⟩, Or.inl ⟨hdnode, h⟩⟩
      · rintro ⟨_, _, _, ⟨rfl, rfl, rfl⟩, ⟨-, h⟩ | ⟨hnot, -⟩⟩
        · exact h
        · exact absurd hdnode hnot
    · rw [if_neg hdnode]
      by_cases hlog : bp.objectType = 9
      · rw [if_pos hlog]
        constructor
        · intro h
          cases h
        · rintro ⟨_, _, _, ⟨rfl, rfl, rfl⟩, ⟨hyes, -⟩ | ⟨-, hnot, -⟩⟩
          · exact absurd hyes hdnode
          · exact absurd hlog hnot
      · rw [if_neg hlog, Option.some.injEq, s.aeadOpen_iff]
        constructor
        · exact fun h => ⟨salt, iv, mac, ⟨rfl, rfl, rfl⟩, Or.inr ⟨hdnode, hlog, h⟩⟩
        · rintro ⟨_, _, _, ⟨rfl, rfl, rfl⟩, ⟨hyes, -⟩ | ⟨-, -, h⟩⟩
          · exact absurd hyes hdnode
          · exact h

end Encryption

/-- Ciphers that only append a tag of zeros. -/
def tagged : Ciphers where
  open_ _ _ _ _ msg :=
    if msg.drop (msg.length - macLen) = List.replicate macLen 0 then
      some (msg.take (msg.length - macLen))
    else none
  expand _ _ := List.replicate 32 0

def taggedSealing : Sealing tagged where
  close _ _ _ _ plain := some (plain ++ List.replicate macLen 0)
  opens := by
    intro ccm key nonce aad plain msg
    show (if _ then _ else _) = _ ↔ _
    constructor
    · intro h
      split at h
      · rename_i htag
        rw [← Option.some.inj h, ← htag, List.take_append_drop]
      · cases h
    · intro h
      have hlength : (plain ++ List.replicate macLen (0 : UInt8)).length - macLen =
          plain.length := by
        rw [List.length_append, List.length_replicate, Nat.add_sub_cancel]
      rw [← Option.some.inj h, hlength, List.drop_left, if_pos rfl, List.take_left]
  length := by
    intro ccm key nonce aad plain msg h
    rw [← Option.some.inj h, List.length_append, List.length_replicate]

/-- The pointer of an encrypted block of dnodes. -/
def dnodesPointer : BlkPtr :=
  { dva0 := { vdev := 0, offset := 0, asize := 512, gang := false }, dva1 := Dva.empty
    dva2 := Dva.empty, lsize := 512, psize := 512, compression := .off, checksum := .fletcher4
    objectType := 10, level := 0, endian := .little, encrypted := true, embedded := false
    physicalBirth := 1, birth := 1
    cksum := { w0 := 0, w1 := 0, w2 := 0, w3 := 0 }, raw := List.replicate 128 0 }

theorem decryptBlock_sealed_file :
    decryptBlock tagged someKeys dnodesPointer fileBlock = some (.ok fileBlock) := by
  obtain ⟨w, hw, -, hcipher⟩ := walkBlock_spec 1 .little fileBlock
  refine (decryptBlock_sealed taggedSealing someKeys dnodesPointer fileBlock fileBlock).mpr
    ⟨_, _, _, rfl, Or.inl ⟨rfl, Or.inr (Or.inr rfl), ⟨rfl, fun _ _ => rfl⟩, w, hw, ?_⟩⟩
  rw [hcipher]
  rfl

end Crypt
end ZvolRescue
