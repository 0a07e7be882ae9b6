import ZvolRescue.Ondisk.Utf8
import ZvolRescue.Zpl.Opened

/-!
# The extended attributes of a file

A file has the attributes that are packed in its system attributes, and of its hidden directory
those whose names are not packed.  What is told of them is the first of each name
(`mem_xattrs`), with no more of a value than `maxXattr` bytes.
-/

namespace ZvolRescue
namespace Zpl
namespace Opened

open Lib Ondisk Zio Dmu

variable (o : Opened) (texts : Texts)

/-! ## The attributes that a file has -/

/-- The pairs that are packed. -/
def packedPairs (z : Znode) : List (String × Value) :=
  ((z.dxattr.bind (fun packed => (parsePacked packed).toOption)).map NvList.pairs).getD []

/-- The names in the hidden directory. -/
def hiddenEntries (z : Znode) : List DirEntry :=
  if z.xattr = 0 then [] else (o.readDir z.xattr).toOption.getD []

/-- A packed value that is bytes. -/
def byteArray : Value → Option (List UInt8)
  | .bytes b => some b
  | _ => none

/-- The whole value of an attribute that is an object. -/
def wholeXattr (object : Nat) : Except ReadError (List UInt8) :=
  match o.znode object with
  | .error e => .error e
  | .ok vz =>
    match o.object object with
    | .error e => .error e
    | .ok obj => (obj.readRange 0 vz.size).run

/-- The file has an attribute of this name, whose value is this or cannot be read. -/
inductive Has (z : Znode) : String → Option (List UInt8) → Prop
  | packed {p : String × Value} : p ∈ packedPairs z → Has z p.1 (byteArray p.2)
  | hidden {d : DirEntry} : d ∈ o.hiddenEntries z → d.name ∉ (packedPairs z).map Prod.fst →
    Has z d.name (o.wholeXattr d.object).toOption

/-- A place of attributes cannot be read. -/
def Unread (z : Znode) : Prop :=
  (∃ packed e, z.dxattr = some packed ∧ parsePacked packed = .error e) ∨
    z.xattr ≠ 0 ∧ ∃ e, o.readDir z.xattr = .error e

/-- In each of the two places the names are apart, and they are text. -/
structure NamesApart (z : Znode) : Prop where
  packed : ((packedPairs z).map Prod.fst).Nodup
  hidden : ((o.hiddenEntries z).map DirEntry.raw).Nodup
  text : ∀ d ∈ o.hiddenEntries z, fromUtf8 d.raw = some d.name

/-- Each place of attributes reads, the packed values are bytes, and of each name in the hidden
directory that is not packed the value reads and has no more than `maxXattr` bytes. -/
structure AllRead (z : Znode) : Prop where
  places : ¬ o.Unread z
  packed : ∀ p ∈ packedPairs z, ∃ b, byteArray p.2 = some b
  hidden : ∀ d ∈ o.hiddenEntries z, d.name ∉ (packedPairs z).map Prod.fst →
    ∃ vz bytes, o.znode d.object = .ok vz ∧ vz.size ≤ maxXattr ∧
      o.wholeXattr d.object = .ok bytes

/-! ## What is told of them -/

theorem packedXattrs_eq (z : Znode) :
    packedXattrs texts z = (packedPairs z).map (fun p => (p.1, packedValue texts p.2)) := by
  rw [packedXattrs, packedPairs]
  cases z.dxattr with
  | none => rfl
  | some packed =>
    simp only [Option.bind_some]
    cases parsePacked packed with
    | error e => rfl
    | ok nv => rfl

theorem hiddenXattrs_eq (z : Znode) :
    o.hiddenXattrs z = (o.hiddenEntries z).map
      (fun d => (d.name, (o.readXattr d.object).toOption.getD [])) := by
  rw [hiddenXattrs, hiddenEntries]
  by_cases hnone : z.xattr = 0
  · rw [if_pos hnone, if_pos hnone]
    rfl
  · rw [if_neg hnone, if_neg hnone]
    cases o.readDir z.xattr with
    | error e => rfl
    | ok entries => rfl

/-- What is told is the first of each name, the packed ones before the hidden ones. -/
theorem mem_xattrs {z : Znode} {p : String × List UInt8} :
    p ∈ o.xattrs texts z ↔ IsFirst Prod.fst (packedXattrs texts z ++ o.hiddenXattrs z) p :=
  mem_dedup_mergeSort (ordered_key Prod.fst)

theorem xattrs_nodup (z : Znode) : ((o.xattrs texts z).map Prod.fst).Nodup := by
  have hle : Ordered (Prod.fst : String × List UInt8 → String) _ := ordered_key Prod.fst
  exact dedup_nodup hle (List.pairwise_mergeSort hle.trans hle.total _)

variable {o texts} {z : Znode}

/-- Text is told apart as its bytes are. -/
theorem NamesApart.names (h : o.NamesApart z) : ((o.hiddenEntries z).map DirEntry.name).Nodup := by
  refine List.Nodup.map_on (fun d hd d' hd' heq => ?_) (List.Nodup.of_map _ h.hidden)
  have hraw : d.raw = d'.raw := by
    rw [← asBytes_of_fromUtf8 (h.text d hd), heq, asBytes_of_fromUtf8 (h.text d' hd')]
  exact List.inj_on_of_nodup_map h.hidden hd hd' hraw

variable (texts) in
theorem mem_xattrs_packed (h : o.NamesApart z) {p : String × Value} (hp : p ∈ packedPairs z) :
    (p.1, packedValue texts p.2) ∈ o.xattrs texts z := by
  have hmem : (p.1, packedValue texts p.2) ∈ packedXattrs texts z := by
    rw [packedXattrs_eq]
    exact List.mem_map_of_mem hp
  have hnodup : ((packedXattrs texts z).map Prod.fst).Nodup := by
    rw [packedXattrs_eq, List.map_map]
    exact h.packed
  rw [mem_xattrs, IsFirst.append_iff]
  exact Or.inl (IsFirst.of_nodup hnodup hmem)

variable (texts) in
/-- A name that is not packed is told with what is read of its object. -/
theorem mem_xattrs_hidden (h : o.NamesApart z) {d : DirEntry} (hd : d ∈ o.hiddenEntries z)
    (hname : d.name ∉ (packedPairs z).map Prod.fst) :
    (d.name, (o.readXattr d.object).toOption.getD []) ∈ o.xattrs texts z := by
  have hmem : (d.name, (o.readXattr d.object).toOption.getD []) ∈ o.hiddenXattrs z := by
    rw [hiddenXattrs_eq]
    exact List.mem_map_of_mem hd
  have hnodup : ((o.hiddenXattrs z).map Prod.fst).Nodup := by
    rw [hiddenXattrs_eq, List.map_map]
    exact h.names
  rw [mem_xattrs, IsFirst.append_iff]
  refine Or.inr ⟨fun p hp heq => hname ?_, IsFirst.of_nodup hnodup hmem⟩
  rw [packedXattrs_eq] at hp
  obtain ⟨q, hq, rfl⟩ := List.mem_map.mp hp
  exact List.mem_map.mpr ⟨q, hq, heq⟩

/-! ## Values -/

variable (texts) in
theorem packedValue_of_byteArray {v : Value} {b : List UInt8} (h : byteArray v = some b) :
    packedValue texts v = b := by
  cases v with
  | bytes b' => exact Option.some.inj h
  | _ => cases h

theorem readXattr_of_le {object : Nat} {vz : Znode} (hz : o.znode object = .ok vz)
    (h : vz.size ≤ maxXattr) : o.readXattr object = o.wholeXattr object := by
  cases hobj : o.object object with
  | error e => simp only [readXattr, wholeXattr, hz, hobj]
  | ok obj => simp only [readXattr, wholeXattr, hz, hobj, Nat.min_eq_left h]

theorem readXattr_length {object : Nat} {bytes : List UInt8}
    (h : o.readXattr object = .ok bytes) : bytes.length ≤ maxXattr := by
  rw [readXattr] at h
  cases hz : o.znode object with
  | error e =>
    rw [hz] at h
    cases h
  | ok vz =>
    cases hobj : o.object object with
    | error e =>
      simp only [hz, hobj] at h
      cases h
    | ok obj =>
      simp only [hz, hobj] at h
      have hlt : 0 + min vz.size maxXattr < word :=
        Nat.lt_of_le_of_lt (by omega) (o.size_lt object vz hz)
      rw [ObjectReader.readRange_length hlt h]
      exact Nat.min_le_right _ _

theorem wholeXattr_length {object : Nat} {vz : Znode} (hz : o.znode object = .ok vz)
    {bytes : List UInt8} (h : o.wholeXattr object = .ok bytes) : bytes.length = vz.size := by
  simp only [wholeXattr, hz] at h
  cases hobj : o.object object with
  | error e =>
    rw [hobj] at h
    cases h
  | ok obj =>
    rw [hobj] at h
    have hlt : 0 + vz.size < word := by
      rw [Nat.zero_add]
      exact o.size_lt object vz hz
    exact ObjectReader.readRange_length hlt h

theorem znode_of_wholeXattr {object : Nat} {bytes : List UInt8}
    (h : o.wholeXattr object = .ok bytes) : ∃ vz, o.znode object = .ok vz := by
  cases hz : o.znode object with
  | error e =>
    rw [wholeXattr, hz] at h
    cases h
  | ok vz => exact ⟨vz, rfl⟩

/-- Nothing longer than `maxXattr` is told of a name in the hidden directory. -/
theorem length_of_mem_xattrs {name : String} {bytes : List UInt8}
    (hname : name ∉ (packedPairs z).map Prod.fst) (h : (name, bytes) ∈ o.xattrs texts z) :
    bytes.length ≤ maxXattr := by
  have hmem := ((o.mem_xattrs texts).mp h).mem
  rw [packedXattrs_eq, hiddenXattrs_eq] at hmem
  rcases List.mem_append.mp hmem with hmem | hmem
  · obtain ⟨p, hp, heq⟩ := List.mem_map.mp hmem
    exact absurd (List.mem_map.mpr ⟨p, hp, (Prod.mk.inj heq).1⟩) hname
  · obtain ⟨d, -, heq⟩ := List.mem_map.mp hmem
    rw [← (Prod.mk.inj heq).2]
    cases hread : o.readXattr d.object with
    | error e => exact Nat.zero_le _
    | ok value => exact readXattr_length hread

end Opened
end Zpl
end ZvolRescue
