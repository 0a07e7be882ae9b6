import ZvolRescue.Extract.Sink
import ZvolRescue.Files.Extract
import ZvolRescue.Zpl.Xattrs

/-!
# Extended attributes in the manifest

The record of a file has what is told of its attributes, and no error.  So it is true just where
everything about them reads, and no value in a hidden directory is longer than what is read of it
(`recordedTruly_iff`).
-/

namespace ZvolRescue
namespace Files

open Zpl
open Ondisk (asBytes_of_fromUtf8 fromUtf8 hexDigits)
open Ondisk.Encode (asBytes)

/-! ## Values in the manifest -/

/-- The value of an attribute is these bytes, as text or in hexadecimal. -/
def Xattr.Holds (x : Xattr) (bytes : List UInt8) : Prop :=
  x.bytes = bytes.length ∧
    ((∃ text, x.value = some text ∧ x.valueHex = none ∧ asBytes text = bytes) ∨
      x.value = none ∧ x.valueHex = some (hexBytes bytes))

theorem hexDigits_two {n : Nat} (h : n < 256) :
    (hexDigits 2 n).toList = [Nat.digitChar (n / 16), Nat.digitChar (n % 16)] := by
  have hall : ∀ b : Fin 256, (hexDigits 2 b).toList =
      [Nat.digitChar (b / 16), Nat.digitChar (b % 16)] := by decide +kernel
  exact hall ⟨n, h⟩

theorem hexBytes_eq (bytes : List UInt8) : hexBytes bytes = Extract.hexBytes bytes := by
  apply String.toList_injective
  rw [hexBytes, Extract.hexBytes, String.toList_join, String.toList_ofList, List.flatMap_map]
  exact List.flatMap_congr (fun b _ => hexDigits_two b.toNat_lt)

/-- The bytes of a value are told by the manifest. -/
theorem Xattr.Holds.unique {x : Xattr} {bytes bytes' : List UInt8} (h : x.Holds bytes)
    (h' : x.Holds bytes') : bytes = bytes' := by
  rcases h.2 with ⟨text, hvalue, -, htext⟩ | ⟨hvalue, hhex⟩
  · rcases h'.2 with ⟨text', hvalue', -, htext'⟩ | ⟨hvalue', -⟩
    · rw [hvalue] at hvalue'
      rw [← htext, ← htext', Option.some.inj hvalue']
    · rw [hvalue] at hvalue'
      cases hvalue'
  · rcases h'.2 with ⟨text', hvalue', -, -⟩ | ⟨-, hhex'⟩
    · rw [hvalue] at hvalue'
      cases hvalue'
    · rw [hhex, hexBytes_eq, hexBytes_eq] at hhex'
      exact Extract.hexBytes_inj (Option.some.inj hhex')

/-- What the manifest has of one attribute. -/
def xattrOf (p : String × List UInt8) : Xattr :=
  match fromUtf8 p.2 with
  | some text =>
    if (0 : UInt8) ∈ p.2 then
      { name := p.1, value := none, valueHex := some (hexBytes p.2), bytes := p.2.length }
    else { name := p.1, value := some text, valueHex := none, bytes := p.2.length }
  | none => { name := p.1, value := none, valueHex := some (hexBytes p.2), bytes := p.2.length }

theorem xattrsOf_eq (fs : Filesystem) (z : Znode) : xattrsOf fs z = (fs.xattrs z).map xattrOf := rfl

/-- The name and the bytes of an attribute are those in the manifest. -/
theorem xattrOf_holds (p : String × List UInt8) :
    (xattrOf p).name = p.1 ∧ (xattrOf p).Holds p.2 := by
  rw [xattrOf]
  cases htext : fromUtf8 p.2 with
  | none => exact ⟨rfl, rfl, Or.inr ⟨rfl, rfl⟩⟩
  | some text =>
    simp only
    split
    · exact ⟨rfl, rfl, Or.inr ⟨rfl, rfl⟩⟩
    · exact ⟨rfl, rfl, Or.inl ⟨text, rfl, rfl, asBytes_of_fromUtf8 htext⟩⟩

/-! ## True records -/

/-- The record has this name once, with exactly these bytes. -/
def RecordedOnce (record : Extracted) (name : String) (bytes : List UInt8) : Prop :=
  (record.xattrs.map Xattr.name).count name = 1 ∧
    ∃ x ∈ record.xattrs, x.name = name ∧ x.Holds bytes

/-- The record has every attribute that reads, and tells of an error where one does not. -/
structure RecordedTruly (o : Opened) (z : Znode) (record : Extracted) : Prop where
  recorded : ∀ name bytes, o.Has z name (some bytes) → RecordedOnce record name bytes
  value : ∀ name, o.Has z name none →
    record.error ≠ none ∧ name ∉ record.xattrs.map Xattr.name
  place : o.Unread z → record.error ≠ none

variable {o : Opened} {texts : Texts} {e : Entry} {z : Znode}

theorem recorded_of_mem {name : String} {bytes : List UInt8}
    (h : (name, bytes) ∈ o.xattrs texts z) :
    RecordedOnce (recordOf (o.filesystem texts) e z) name bytes := by
  have hnames : (recordOf (o.filesystem texts) e z).xattrs.map Xattr.name =
      (o.xattrs texts z).map Prod.fst := by
    rw [recordOf, xattrsOf_eq, List.map_map]
    exact List.map_congr_left (fun p _ => (xattrOf_holds p).1)
  refine ⟨?_, xattrOf (name, bytes), List.mem_map_of_mem h, xattrOf_holds (name, bytes)⟩
  rw [hnames]
  exact List.count_eq_one_of_mem (o.xattrs_nodup texts z) (List.mem_map_of_mem h)

theorem mem_of_recorded {name : String} {bytes : List UInt8}
    (h : RecordedOnce (recordOf (o.filesystem texts) e z) name bytes) :
    (name, bytes) ∈ o.xattrs texts z := by
  obtain ⟨-, x, hx, rfl, hbytes⟩ := h
  have hmem : x ∈ (o.xattrs texts z).map xattrOf := hx
  obtain ⟨p, hp, rfl⟩ := List.mem_map.mp hmem
  obtain ⟨hname, hholds⟩ := xattrOf_holds p
  have hsame : p = ((xattrOf p).name, bytes) := Prod.ext hname.symm (hholds.unique hbytes)
  rw [← hsame]
  exact hp

/-- The attributes of a file whose names are apart are recorded truly just where all of them
read. -/
theorem recordedTruly_iff (o : Opened) (texts : Texts) (e : Entry) (z : Znode)
    (hnames : o.NamesApart z) :
    RecordedTruly o z (recordOf (o.filesystem texts) e z) ↔ o.AllRead z := by
  have hnone : (recordOf (o.filesystem texts) e z).error = none := rfl
  constructor
  · intro h
    have hreads : ∀ name value, o.Has z name value → ∃ bytes, value = some bytes := by
      intro name value hhas
      cases value with
      | none => exact absurd hnone (h.value name hhas).1
      | some bytes => exact ⟨bytes, rfl⟩
    refine ⟨fun hunread => h.place hunread hnone, fun p hp => ?_, fun d hd hname => ?_⟩
    · exact hreads _ _ (.packed hp)
    · obtain ⟨bytes, hbytes⟩ := hreads _ _ (.hidden hd hname)
      have hwhole : o.wholeXattr d.object = .ok bytes := by
        cases hread : o.wholeXattr d.object with
        | error err =>
          rw [hread] at hbytes
          cases hbytes
        | ok whole =>
          rw [hread] at hbytes
          rw [Option.some.inj hbytes]
      obtain ⟨vz, hvz⟩ := Opened.znode_of_wholeXattr hwhole
      have hhas : o.Has z d.name (some bytes) := by
        rw [← hbytes]
        exact .hidden hd hname
      -- What is told is no longer than what is read of a value.
      have hlen := Opened.length_of_mem_xattrs hname (mem_of_recorded (h.recorded _ _ hhas))
      rw [Opened.wholeXattr_length hvz hwhole] at hlen
      exact ⟨vz, bytes, hvz, hlen, hwhole⟩
  · intro h
    have hhas : ∀ name value, o.Has z name value →
        ∃ bytes, value = some bytes ∧ (name, bytes) ∈ o.xattrs texts z := by
      intro name value hhas
      cases hhas with
      | @packed p hp =>
        obtain ⟨bytes, hbytes⟩ := h.packed p hp
        have hmem := Opened.mem_xattrs_packed texts hnames hp
        rw [Opened.packedValue_of_byteArray texts hbytes] at hmem
        exact ⟨bytes, hbytes, hmem⟩
      | @hidden d hd hname =>
        obtain ⟨vz, bytes, hvz, hsize, hwhole⟩ := h.hidden d hd hname
        have hmem := Opened.mem_xattrs_hidden texts hnames hd hname
        rw [Opened.readXattr_of_le hvz hsize, hwhole] at hmem
        rw [hwhole]
        exact ⟨bytes, rfl, hmem⟩
    refine ⟨fun name bytes hname => ?_, fun name hname => ?_, fun hunread => ?_⟩
    · obtain ⟨value, hvalue, hmem⟩ := hhas name _ hname
      rw [Option.some.inj hvalue]
      exact recorded_of_mem hmem
    · obtain ⟨value, hvalue, -⟩ := hhas name _ hname
      cases hvalue
    · exact absurd hunread h.places

/-! ## A file with a hidden directory -/

/-- Object 7 is a hidden directory of two names: the value of the first is three bytes, unless
its metadata is `lost`, and that of the second does not read. -/
def attributed (lost : Bool) : Opened where
  object n :=
    if n = 7 then .ok (smallDir [([97], 8, 8), ([98], 9, 8)])
    else if n = 8 then .ok (oneBlock (.ok [1, 2, 3]))
    else .ok (oneBlock (.error .noMember))
  root := 1
  properties _ := none
  znode n := if n = 8 ∧ lost then .error .noMember else .ok (smallZnode 8 3 0 none)
  size_lt n z h := by
    split at h
    · cases h
    · cases h
      decide
  symlinkTarget _ _ := .error .noMember

/-- The second name is packed, with one byte for its value. -/
def packedB : List UInt8 :=
  [1, 1, 0, 0, 0, 0, 0, 0, 0, 0, 0, 1, 0, 0, 0, 28, 0, 0, 0, 28, 0, 0, 0, 1, 98, 0, 0, 0,
    0, 0, 0, 10, 0, 0, 0, 1, 9, 0, 0, 0, 0, 0, 0, 0, 0, 0, 0, 0]

def someEntry : Entry :=
  { path := "f", rawPath := [102], object := 6, znode := none, error := none }

theorem packedB_names :
    (Opened.packedPairs (smallZnode 8 0 7 (some packedB))).map Prod.fst = ["b"] := by
  decide +kernel

theorem attributed_hidden (lost : Bool) (dxattr : Option (List UInt8)) :
    (attributed lost).hiddenEntries (smallZnode 8 0 7 dxattr) =
      [{ name := "a", raw := [97], object := 8, fileType := .regular },
        { name := "b", raw := [98], object := 9, fileType := .regular }] := by
  have hread : (attributed lost).hiddenEntries (smallZnode 8 0 7 dxattr) =
      ((attributed false).readDir 7).toOption.getD [] := rfl
  rw [hread]
  decide +kernel

theorem attributed_apart (lost : Bool) {dxattr : Option (List UInt8)}
    (hpacked : ((Opened.packedPairs (smallZnode 8 0 7 dxattr)).map Prod.fst).Nodup) :
    (attributed lost).NamesApart (smallZnode 8 0 7 dxattr) := by
  have hhidden := attributed_hidden lost dxattr
  refine ⟨hpacked, ?_, ?_⟩
  · rw [hhidden]
    decide
  · rw [hhidden]
    decide

/-- An attribute whose metadata does not read is recorded as if it were empty, and no error is
recorded. -/
theorem lost_recorded_empty :
    RecordedOnce (recordOf ((attributed true).filesystem smallTexts) someEntry (smallZnode 8 0 7 none))
      "a" [] ∧
    ¬ ∀ (o : Opened) (texts : Texts) (e : Entry) (z : Znode), o.NamesApart z →
      RecordedTruly o z (recordOf (o.filesystem texts) e z) := by
  have hapart : (attributed true).NamesApart (smallZnode 8 0 7 none) :=
    attributed_apart true List.nodup_nil
  have hmem : { name := "a", raw := [97], object := 8, fileType := .regular } ∈
      (attributed true).hiddenEntries (smallZnode 8 0 7 none) := by
    rw [attributed_hidden]
    exact List.mem_cons_self
  refine ⟨recorded_of_mem (Opened.mem_xattrs_hidden smallTexts hapart hmem List.not_mem_nil),
    fun h => ?_⟩
  have htruly := h (attributed true) smallTexts someEntry (smallZnode 8 0 7 none) hapart
  exact (htruly.value "a" (.hidden hmem List.not_mem_nil)).1 rfl

theorem attributed_allRead : (attributed false).AllRead (smallZnode 8 0 7 (some packedB)) := by
  have hbytes : ∀ p ∈ Opened.packedPairs (smallZnode 8 0 7 (some packedB)),
      (Opened.byteArray p.2).isSome = true := by
    decide +kernel
  have hparses : (Ondisk.parsePacked packedB).toOption.isSome = true := by decide +kernel
  have hopens : ((attributed false).readDir 7).toOption.isSome = true := by decide +kernel
  refine ⟨?_, fun p hp => Option.isSome_iff_exists.mp (hbytes p hp), fun d hd hname => ?_⟩
  · rintro (⟨packed, e, hpacked, herror⟩ | ⟨-, e, herror⟩)
    · rw [← Option.some.inj hpacked] at herror
      rw [herror] at hparses
      cases hparses
    · have herror' : (attributed false).readDir 7 = .error e := herror
      rw [herror'] at hopens
      cases hopens
  · rw [attributed_hidden] at hd
    rw [packedB_names] at hname
    rcases List.mem_cons.mp hd with rfl | hd
    · have hwhole : ((attributed false).wholeXattr 8).toOption = some [1, 2, 3] := by
        decide +kernel
      cases hread : (attributed false).wholeXattr 8 with
      | error err =>
        rw [hread] at hwhole
        cases hwhole
      | ok bytes => exact ⟨smallZnode 8 3 0 none, bytes, rfl, by decide, rfl⟩
    · rw [List.mem_singleton.mp hd] at hname
      exact absurd (List.mem_singleton_self _) hname

/-- A name that reads is recorded, and a packed one in place of one that does not read. -/
theorem recordedTruly_iff_packed :
    RecordedTruly (attributed false) (smallZnode 8 0 7 (some packedB))
      (recordOf ((attributed false).filesystem smallTexts) someEntry
        (smallZnode 8 0 7 (some packedB))) := by
  have hapart : (attributed false).NamesApart (smallZnode 8 0 7 (some packedB)) := by
    apply attributed_apart
    rw [packedB_names]
    exact List.nodup_singleton "b"
  exact (recordedTruly_iff (attributed false) smallTexts someEntry
    (smallZnode 8 0 7 (some packedB)) hapart).mpr attributed_allRead

end Files
end ZvolRescue
