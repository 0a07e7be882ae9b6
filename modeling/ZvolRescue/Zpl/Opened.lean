import Mathlib.Data.List.Lex
import Mathlib.Data.String.Basic
import ZvolRescue.Dmu.Range
import ZvolRescue.Dmu.Zap
import ZvolRescue.Lib.Firsts
import ZvolRescue.Lib.Ranked
import ZvolRescue.Zpl.Tree

/-!
# Datasets opened as filesystems

A dataset is opened by its objects and by what its master node says.  Its directories are maps of
names, a path is looked up name by name, and the extended attributes of a file are packed in its
system attributes or the objects of a hidden directory.
-/

namespace ZvolRescue
namespace Zpl

open Lib Ondisk Zio Dmu

/-- A Unicode normalization that names are matched under. -/
inductive Normalization where
  | d
  | c
  | kd
  | kc
  deriving DecidableEq, Repr

/-- The form whose bits the property has: `0x10` decomposes, `0x20` does so by compatibility,
`0x40` composes again. -/
def Normalization.fromProperty (value : Nat) : Option Normalization :=
  if !value.testBit 4 then none
  else
    match value.testBit 5, value.testBit 6 with
    | false, false => some d
    | false, true => some c
    | true, false => some kd
    | true, true => some kc

/-- What the program is built with: its tables of characters, and how a value is shown. -/
structure Texts where
  toLowercase : String → String
  apply : Normalization → String → String
  debug : Value → String

/-- The object that an entry of a directory names, and its kind. -/
def dirent (value : Nat) : Nat × FileType :=
  (value % 2 ^ 48, FileType.fromDt (value / 2 ^ 60 % 256))

def dirEntry (e : Zap.Entry) : Option DirEntry :=
  match e.value.asU64 with
  | none => none
  | some v =>
    if (dirent v).1 ≠ 0 then
      some { name := e.name, raw := e.raw, object := (dirent v).1, fileType := (dirent v).2 }
    else none

/-- The parts of a path that name something. -/
def parts (path : List UInt8) : List (List UInt8) :=
  (path.splitOn 47).filter (fun part => part ≠ [] ∧ part ≠ [46])

/-- A dataset opened as a filesystem. -/
structure Opened where
  object : Nat → Except ReadError (ObjectReader Id)
  root : Nat
  /-- The properties in the master node. -/
  properties : String → Option Nat
  znode : Nat → Except ReadError Znode
  /-- A size is a number of 64 bits. -/
  size_lt : ∀ object z, znode object = .ok z → z.size < word
  symlinkTarget : Nat → Znode → Except ReadError (List UInt8)

namespace Opened

variable (o : Opened) (texts : Texts)

/-! ## Directories -/

def readZap (object : Nat) : Except ReadError (List Zap.Entry) :=
  match o.object object with
  | .error e => .error e
  | .ok obj => (Dmu.readZap obj).run

/-- The names of a directory in the order of their bytes. -/
def readDir (object : Nat) : Except ReadError (List DirEntry) :=
  (o.readZap object).map (fun entries =>
    sortByKey (fun e : DirEntry => e.raw.map UInt8.toNat) (entries.filterMap dirEntry))

/-! ## Paths -/

def normalization : Option Normalization :=
  (o.properties "normalization").bind Normalization.fromProperty

/-- Names are matched without regard to case, always or where the bytes do not match. -/
def caseInsensitive : Bool :=
  o.properties "casesensitivity" = some 1 || o.properties "casesensitivity" = some 2

/-- A text folded and normalized, as far as names are. -/
def prepare (form : Normalization) (s : String) : String :=
  if o.caseInsensitive then texts.toLowercase (texts.apply form s) else texts.apply form s

/-- The name that is the same folded, or else normalized. -/
def matchedAsText (entries : List DirEntry) (part : List UInt8) : Option DirEntry :=
  match fromUtf8 part with
  | none => none
  | some part =>
    let folded :=
      if o.caseInsensitive then
        entries.find? (fun e => texts.toLowercase e.name = texts.toLowercase part)
      else none
    match folded, o.normalization with
    | some e, _ => some e
    | none, none => none
    | none, some form =>
      entries.find? (fun e => o.prepare texts form e.name = o.prepare texts form part)

/-- The name that a part of a path is: by its bytes, or else as text. -/
def found (entries : List DirEntry) (part : List UInt8) : Option DirEntry :=
  (entries.find? (fun e => e.raw = part)).or (o.matchedAsText texts entries part)

/-- Follow the parts of a path from a directory on. -/
def lookupParts (shown : String) : Nat → List (List UInt8) → Except ReadError Nat
  | at_, [] => .ok at_
  | at_, part :: rest =>
    match o.readDir at_ with
    | .error e => .error e
    | .ok entries =>
      match o.found texts entries part with
      | none => .error (.io s!"{shown}: no such file or directory")
      | some e => lookupParts shown e.object rest

/-- The object of a path from the root. -/
def lookupBytes (path : List UInt8) : Except ReadError Nat :=
  o.lookupParts texts (fromUtf8Lossy path) o.root (parts path)

/-! ## Extended attributes -/

/-- The bytes of a packed value; of one that is not bytes, how it is shown. -/
def packedValue (texts : Texts) : Value → List UInt8
  | .bytes b => b
  | other => (texts.debug other).toUTF8.data.toList

/-- The attributes in the system attributes. -/
def packedXattrs (texts : Texts) (z : Znode) : List (String × List UInt8) :=
  match z.dxattr with
  | none => []
  | some packed =>
    match parsePacked packed with
    | .error _ => []
    | .ok nv => nv.pairs.map (fun p => (p.1, packedValue texts p.2))

/-- The longest value that is read. -/
def maxXattr : Nat := 64 * 1024

/-- The value of an attribute that is an object, no longer than what is read of one. -/
def readXattr (object : Nat) : Except ReadError (List UInt8) :=
  match o.znode object with
  | .error e => .error e
  | .ok vz =>
    match o.object object with
    | .error e => .error e
    | .ok obj => (obj.readRange 0 (min vz.size maxXattr)).run

/-- The attributes in the hidden directory. -/
def hiddenXattrs (z : Znode) : List (String × List UInt8) :=
  if z.xattr = 0 then []
  else
    match o.readDir z.xattr with
    | .error _ => []
    | .ok entries => entries.map (fun e => (e.name, (o.readXattr e.object).toOption.getD []))

/-- The extended attributes of a file, by their names. -/
def xattrs (z : Znode) : List (String × List UInt8) :=
  dedup Prod.fst ((packedXattrs texts z ++ o.hiddenXattrs z).mergeSort (fun a b => a.1 ≤ b.1))

/-! ## The filesystem -/

/-- What can be read of the dataset. -/
def filesystem : Filesystem where
  root := o.root
  readDir := o.readDir
  znode := o.znode
  object := o.object
  symlinkTarget := o.symlinkTarget
  xattrs := o.xattrs texts
  lookupBytes := o.lookupBytes texts

/-- A part that is a name by its bytes is that name, whatever the properties are. -/
theorem found_of_nodup {entries : List DirEntry} (hnodup : (entries.map DirEntry.raw).Nodup)
    {e : DirEntry} (he : e ∈ entries) : o.found texts entries e.raw = some e := by
  have hfirst : IsFirst DirEntry.raw entries e := IsFirst.of_nodup hnodup he
  rw [IsFirst] at hfirst
  rw [found, hfirst]
  rfl

theorem lookupParts_eq (shown : String) (parts : List (List UInt8)) : ∀ at_,
    o.lookupParts texts shown at_ parts =
      (o.filesystem texts).lookupFrom (o.matchedAsText texts) shown at_ parts := by
  induction parts with
  | nil =>
    intro at_
    rfl
  | cons part rest ih =>
    intro at_
    rw [lookupParts, Filesystem.lookupFrom]
    cases hread : o.readDir at_ with
    | error err =>
      have hread' : (o.filesystem texts).readDir at_ = .error err := hread
      rw [hread']
      rfl
    | ok entries =>
      have hread' : (o.filesystem texts).readDir at_ = .ok entries := hread
      rw [hread']
      simp only [bind, Except.bind, found]
      cases (entries.find? (fun e => e.raw = part)).or (o.matchedAsText texts entries part) with
      | none => rfl
      | some e => exact ih e.object

theorem filesystem_looksUp : (o.filesystem texts).LooksUp :=
  ⟨o.matchedAsText texts, fun path => o.lookupParts_eq texts (fromUtf8Lossy path) _ o.root⟩

end Opened

/-! ## A small dataset -/

/-- An object of one block of 512 bytes. -/
def oneBlock (block : Except ReadError (List UInt8)) : ObjectReader Id where
  reader :=
    { readBlock := fun _ => block.map (fun data => { data, verify := .ok, attempts := [] })
      verify := fun _ _ => Verify.ok
      salvageDva := fun _ _ => .error .noMember }
  dnode :=
    { objectType := 20, indblkshift := 17, nlevels := 1, nblkptr := 1, bonusType := 0
      checksum := 0, compress := 0, flags := 0, datablkszsec := 1, bonuslen := 0, extraSlots := 0
      maxblkid := 0, used := 0
      blkptr :=
        [{ dva0 := { vdev := 0, offset := 0, asize := 512, gang := false }, dva1 := Dva.empty
           dva2 := Dva.empty, lsize := 512, psize := 512, compression := .off, checksum := .off
           objectType := 20, level := 0, endian := .little, encrypted := false, embedded := false
           physicalBirth := 0, birth := 1, cksum := { w0 := 0, w1 := 0, w2 := 0, w3 := 0 }
           raw := [] }]
      bonus := [], spill := none }
  endian := .little

/-- A directory of these names, objects and kinds. -/
def smallDir (names : List (List UInt8 × Nat × Nat)) : ObjectReader Id :=
  let wordBytes := fun n : Nat => Endian.little.bytes (UInt64.ofNat n)
  oneBlock (.ok (setLen (wordBytes Zap.zbtMicro) 64 ++ names.flatMap (fun name =>
    setLen (wordBytes (name.2.1 + name.2.2 * 2 ^ 60) ++ List.replicate 6 0 ++ name.1) 64)))

/-- A file of this kind and size, with its hidden directory and its packed attributes. -/
def smallZnode (kind size xattr : Nat) (dxattr : Option (List UInt8)) : Znode where
  mode := kind * 2 ^ 12 + 0o644
  size := size
  links := 1
  uid := 0
  gid := 0
  mtime := 0
  xattr := xattr
  symlink := none
  dxattr := dxattr
  projid := none

/-- Texts that are as they are, but for capital letters. -/
def smallTexts : Texts where
  toLowercase s := s.toLower
  apply _ s := s
  debug _ := ""

end Zpl
end ZvolRescue
