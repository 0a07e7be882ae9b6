import ZvolRescue.Lib.Disk
import ZvolRescue.Ondisk.Nvlist
import ZvolRescue.Zpl.Filesystem

/-!
# A tree of files, written out

Every entry of a walk is written below the output directory, and recorded.  An object that has
more names is written under the first and linked under the others.  The records are written last,
into the same directory.
-/

namespace ZvolRescue
namespace Files

open Lib Dmu Zpl
open Ondisk (fromUtf8 fromUtf8Lossy hexDigits)

/-- A path below the output directory. -/
abbrev Path := List (List UInt8)

/-- What does not come from the dataset. -/
structure Setting where
  /-- The output directory, as it was given. -/
  output : String
  strict : Bool
  /-- What to preserve. -/
  preserve : List String
  /-- What the system refuses, by the number of entries before. -/
  refuses : Nat → Refusals (List UInt8)
  /-- The SHA-256 of some bytes, in hexadecimal. -/
  sha256 : List UInt8 → String

/-- One extended attribute; its value is text, or else the bytes in hexadecimal. -/
structure Xattr where
  name : String
  value : Option String
  valueHex : Option String
  bytes : Nat
  deriving DecidableEq, Repr

/-- One line of the manifest. -/
structure Extracted where
  path : String
  /-- The bytes of a path that is no text. -/
  pathHex : Option String
  object : Nat
  kind : String
  mode : String
  size : Nat
  uid : Nat
  gid : Nat
  projid : Option Nat
  mtime : Nat
  sha256 : Option String
  target : Option String
  /-- The path of which this is another name. -/
  hardlinkTo : Option String
  xattrs : List Xattr
  /-- Blocks that could not be read and were written as zeros. -/
  errors : Nat
  error : Option String
  deriving DecidableEq, Repr

/-- The first name of an object that has more. -/
structure Written where
  path : String
  rawPath : List UInt8
  sha256 : Option String
  deriving DecidableEq, Repr

/-! ## Paths -/

/-- The components of a path but for those that are empty or a dot. -/
def components (path : List UInt8) : Path :=
  (path.splitOn 47).filter (fun part => part ≠ [] ∧ part ≠ [46])

/-- Where a path of the dataset lies below the output directory; none where it would climb out of
it, is no name there or is the directory itself. -/
def safeJoin (path : List UInt8) : Option Path :=
  if path.head? = some 47 then none
  else if (components path).any (fun part => part = [46, 46] ∨ (0 : UInt8) ∈ part) then none
  else if components path = [] then none
  else some (components path)

theorem safeJoin_eq {path : List UInt8} {p : Path} (h : safeJoin path = some p) :
    components path = p := by
  rw [safeJoin] at h
  split at h
  · cases h
  · split at h
    · cases h
    · split at h
      · cases h
      · exact Option.some.inj h

theorem safeJoin_ne_nil {path : List UInt8} {p : Path} (h : safeJoin path = some p) : p ≠ [] := by
  rw [safeJoin] at h
  split at h
  · cases h
  · split at h
    · cases h
    · split at h
      · cases h
      · rename_i hne
        rw [← Option.some.inj h]
        exact hne

def hexBytes (bytes : List UInt8) : String := String.join (bytes.map (fun b => hexDigits 2 b.toNat))

def pathHex (e : Entry) : Option String :=
  if e.pathIsText then none else some (hexBytes e.rawPath)

/-- A path below the output directory, as it is shown. -/
def shown (output : String) (p : Path) : String :=
  "/".intercalate (output :: p.map fromUtf8Lossy)

/-- Four octal digits at least. -/
def octal (n : Nat) : String :=
  let digits := Nat.toDigits 8 n
  String.ofList (List.replicate (4 - digits.length) '0' ++ digits)

/-! ## Copying -/

/-- Read the blocks of a file, in so many pieces at most; zeros stand for a block that cannot be
read, unless that ends it. -/
def copyBlocks (obj : ObjectReader Id) (bs size : Nat) (strict : Bool) :
    (pieces : Nat) → List UInt8 → (errors : Nat) → List UInt8 × Except String Nat
  | 0, written, errors => (written, .ok errors)
  | pieces + 1, written, errors =>
    if size ≤ written.length then (written, .ok errors)
    else
      let want := min (size - written.length) bs
      let blkid := written.length / bs
      match (obj.readBlkid blkid).run with
      | .ok chunk =>
        let piece := chunk.take want
        if piece = [] then (written, .ok errors)
        else copyBlocks obj bs size strict pieces (written ++ piece) errors
      | .error e =>
        if strict then (written, .error s!"block {blkid}: {e.text}")
        else copyBlocks obj bs size strict pieces (written ++ List.replicate want 0) (errors + 1)

/-- The size of the pieces that a file is copied in. -/
def blockSize (obj : ObjectReader Id) : Nat := max obj.dnode.datablksz 512

/-- What a copy of a file writes, and how it ends; each piece is a byte at least. -/
def copied (obj : ObjectReader Id) (size : Nat) (strict : Bool) : List UInt8 × Except String Nat :=
  copyBlocks obj (blockSize obj) size strict size [] 0

/-- Copy a file: what the disk is then, and the digest and the unreadable blocks. -/
def copyFile (s : Setting) (fs : Filesystem) (time object size : Nat) (dest : Path)
    (disk : Disk (List UInt8)) : Disk (List UInt8) × Except String (String × Nat) :=
  match fs.object object with
  | .error e => (disk, .error e.text)
  | .ok obj =>
    match disk.create (s.refuses time) dest with
    | .error e => (disk, .error s!"{shown s.output dest}: {e.text}")
    | .ok (file, opened) =>
      let bytes := (copied obj size s.strict).1
      (opened.store file bytes,
        (copied obj size s.strict).2.map (fun errors => (s.sha256 bytes, errors)))

/-- Write a file of these bytes. -/
def write (refuses : Refusals (List UInt8)) (dest : Path) (bytes : List UInt8)
    (disk : Disk (List UInt8)) : Disk (List UInt8) × Option String :=
  match disk.create refuses dest with
  | .error e => (disk, some e.text)
  | .ok (file, opened) => (opened.store file bytes, none)

/-! ## One entry -/

/-- The run so far. -/
structure State where
  disk : Disk (List UInt8)
  files : List Extracted
  directories : Nat
  /-- The objects that were written and have more names. -/
  writtenObjects : List (Nat × Written)

def failed (e : Entry) (why : String) : Extracted :=
  { path := e.path, pathHex := pathHex e, object := e.object, kind := "?", mode := "????", size := 0
    uid := 0, gid := 0, projid := none, mtime := 0, sha256 := none, target := none
    hardlinkTo := none, xattrs := [], errors := 0, error := some why }

def xattrsOf (fs : Filesystem) (z : Znode) : List Xattr :=
  (fs.xattrs z).map (fun x =>
    match fromUtf8 x.2 with
    | some text =>
      if (0 : UInt8) ∈ x.2 then
        { name := x.1, value := none, valueHex := some (hexBytes x.2), bytes := x.2.length }
      else { name := x.1, value := some text, valueHex := none, bytes := x.2.length }
    | none => { name := x.1, value := none, valueHex := some (hexBytes x.2), bytes := x.2.length })

/-- The record of an entry before it is written. -/
def recordOf (fs : Filesystem) (e : Entry) (z : Znode) : Extracted :=
  { path := e.path, pathHex := pathHex e, object := e.object, kind := z.fileType.asChar.toString
    mode := octal z.permissions, size := z.size, uid := z.uid, gid := z.gid, projid := z.projid
    mtime := z.mtime, sha256 := none, target := none, hardlinkTo := none
    xattrs := xattrsOf fs z, errors := 0, error := none }

section Extract

variable (s : Setting) (fs : Filesystem)

/-- Set the permissions of what was written, if they are to be preserved. -/
def preserveMode (z : Znode) (dest : Path) (record : Extracted) (disk : Disk (List UInt8)) :
    Disk (List UInt8) :=
  if record.error = none ∧ "mode" ∈ s.preserve then disk.setMode dest z.permissions else disk

def extractDir (z : Znode) (dest : Path) (record : Extracted) (t : State) : State :=
  let made := t.disk.mkdirAll (s.refuses t.files.length) dest
  let record := { record with error := made.2.map DiskError.text }
  { t with
    disk := preserveMode s z dest record made.1
    files := t.files ++ [record]
    directories := t.directories + 1 }

/-- A symbolic link is written as a file that holds the target. -/
def extractSymlink (e : Entry) (z : Znode) (dest : Path) (record : Extracted) (t : State) : State :=
  match fs.symlinkTarget e.object z with
  | .error err => { t with files := t.files ++ [{ record with error := some err.text }] }
  | .ok target =>
    let done := write (s.refuses t.files.length) dest target t.disk
    let record := { record with target := some (fromUtf8Lossy target), error := done.2 }
    { t with
      disk := preserveMode s z dest record done.1
      files := t.files ++ [record] }

/-- Another name of an object that was written already. -/
def linkRegular (dest : Path) (first : Written) (record : Extracted) (disk : Disk (List UInt8))
    (t : State) : State :=
  match safeJoin first.rawPath with
  | none =>
    { t with
      disk
      files := t.files ++
        [{ record with error := some "the first name is not one this platform can write" }] }
  | some source =>
    match disk.hardLink (s.refuses t.files.length) source dest with
    | .error e => { t with disk, files := t.files ++ [{ record with error := some e.text }] }
    | .ok linked =>
      { t with
        disk := linked
        files := t.files ++
          [{ record with hardlinkTo := some first.path, sha256 := first.sha256 }] }

/-- The first name of an object, or its only one. -/
def copyRegular (e : Entry) (z : Znode) (dest : Path) (record : Extracted)
    (disk : Disk (List UInt8)) (t : State) : State :=
  match copyFile s fs t.files.length e.object z.size dest disk with
  | (disk, .error err) => { t with disk, files := t.files ++ [{ record with error := some err }] }
  | (disk, .ok (hash, errors)) =>
    { t with
      disk := preserveMode s z dest record disk
      files := t.files ++ [{ record with sha256 := some hash, errors }]
      writtenObjects :=
        if z.links > 1 then
          (e.object, { path := e.path, rawPath := e.rawPath, sha256 := some hash }) ::
            t.writtenObjects
        else t.writtenObjects }

def extractRegular (e : Entry) (z : Znode) (dest : Path) (record : Extracted) (t : State) : State :=
  -- What becomes of the parent shows when the file is made.
  let disk :=
    if dest.dropLast = [] then t.disk
    else (t.disk.mkdirAll (s.refuses t.files.length) dest.dropLast).1
  match t.writtenObjects.lookup e.object with
  | some first => linkRegular s dest first record disk t
  | none => copyRegular s fs e z dest record disk t

/-- Write one entry out and record what happened to it. -/
def extractEntry (t : State) (e : Entry) : State :=
  match e.znode with
  | none => { t with files := t.files ++ [failed e "metadata unreadable"] }
  | some z =>
    match safeJoin e.rawPath with
    | none =>
      { t with files := t.files ++ [failed e "name would climb out of the output directory"] }
    | some dest =>
      let record := recordOf fs e z
      match z.fileType with
      | .dir => extractDir s z dest record t
      | .symlink => extractSymlink s fs e z dest record t
      | .regular => extractRegular s fs e z dest record t
      | other =>
        { t with files := t.files ++ [{ record with error := some s!"not written: {other.debug}" }] }

end Extract

/-! ## The run -/

/-- What is written into the manifest. -/
structure ManifestOut where
  dataset : String
  txg : Nat
  output : String
  files : List Extracted
  directories : Nat
  /-- Files with a block that was written as zeros. -/
  incomplete : Nat
  /-- Entries that could not be written. -/
  failed : Nat
  hardlinks : Nat

/-- The objects to begin with, each with its path. -/
def rootsOf (fs : Filesystem) : List (List UInt8) → Except String (List (Nat × List UInt8))
  | [] => .ok []
  | asked :: rest =>
    match fs.lookupBytes asked with
    | .error e => .error s!"{fromUtf8Lossy asked}: {e.text}"
    | .ok object =>
      let trimmed := [47].intercalate ((asked.splitOn 47).filter (fun c => c ≠ []))
      (rootsOf fs rest).map ((object, trimmed) :: ·)

/-- What one of them gives: what lies below a directory, or what it is itself. -/
def entriesOf (fs : Filesystem) (root : Nat × List UInt8) : List Entry :=
  let path := fromUtf8Lossy root.2
  let znode := (fs.znode root.1).toOption
  if znode.map Znode.fileType = some .dir then fs.walkFrom root.1 path root.2 true
  else [{ path, rawPath := root.2, object := root.1, znode, error := none }]

/-- The entries to extract; those of the whole dataset where no path is given. -/
def entries (fs : Filesystem) (paths : List (List UInt8)) : Except String (List Entry) :=
  if paths = [] then .ok (entriesOf fs (fs.root, []))
  else (rootsOf fs paths).map (fun roots => roots.flatMap (entriesOf fs))

def manifestPath : Path := ["manifest.json".toUTF8.data.toList]

/-- What a run leaves behind. -/
structure Output where
  disk : Disk (List UInt8)
  manifest : ManifestOut

def start (disk : Disk (List UInt8)) : State :=
  { disk, files := [], directories := 0, writtenObjects := [] }

def manifestOf (s : Setting) (dataset : String) (txg : Nat) (t : State) : ManifestOut :=
  { dataset, txg
    output := s.output
    files := t.files
    directories := t.directories
    incomplete := t.files.countP (fun f => f.errors > 0)
    failed := t.files.countP (fun f => f.error.isSome)
    hardlinks := t.files.countP (fun f => f.hardlinkTo.isSome) }

/-- Extract the paths that are asked for, and write the manifest as `render` spells it. -/
def run (s : Setting) (fs : Filesystem) (render : ManifestOut → List UInt8) (dataset : String)
    (txg : Nat) (paths : List (List UInt8)) (disk : Disk (List UInt8)) : Except String Output :=
  match entries fs paths with
  | .error e => .error e
  | .ok es =>
    let t := es.foldl (extractEntry s fs) (start disk)
    let manifest := manifestOf s dataset txg t
    match write (s.refuses es.length) manifestPath (render manifest) t.disk with
    | (_, some e) => .error s!"{shown s.output manifestPath}: {e}"
    | (disk, none) => .ok { disk, manifest }

end Files
end ZvolRescue
