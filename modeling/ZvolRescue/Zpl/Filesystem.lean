import ZvolRescue.Dmu.Object

/-!
# Filesystems

What a dataset that is a filesystem gives: directories, the metadata of files and their blocks.
`walkFrom` lists what lies below a directory, each directory once and no deeper than `maxDepth`.
-/

namespace ZvolRescue
namespace Zpl

open Ondisk Zio Dmu

/-! ## Files -/

/-- The kind of a file, by its `DT_*` number. -/
inductive FileType where
  | dir
  | regular
  | symlink
  | charDevice
  | blockDevice
  | fifo
  | socket
  | other (raw : Nat)
  deriving DecidableEq, Repr

namespace FileType

def fromDt (dt : Nat) : FileType :=
  if dt = 1 then fifo
  else if dt = 2 then charDevice
  else if dt = 4 then dir
  else if dt = 6 then blockDevice
  else if dt = 8 then regular
  else if dt = 10 then symlink
  else if dt = 12 then socket
  else other dt

/-- From the bits of a mode that tell the kind. -/
def fromMode (mode : Nat) : FileType := fromDt (mode / 2 ^ 12 % 16)

def asChar : FileType → Char
  | dir => 'd'
  | regular => '-'
  | symlink => 'l'
  | charDevice => 'c'
  | blockDevice => 'b'
  | fifo => 'p'
  | socket => 's'
  | other _ => '?'

/-- The kind as it is in the source. -/
def debug : FileType → String
  | dir => "Dir"
  | regular => "Regular"
  | symlink => "Symlink"
  | charDevice => "CharDevice"
  | blockDevice => "BlockDevice"
  | fifo => "Fifo"
  | socket => "Socket"
  | other raw => s!"Other({raw})"

theorem asChar_eq_regular {t : FileType} : t.asChar = '-' ↔ t = .regular := by
  cases t <;> simp [asChar]

end FileType

/-- The metadata of one file. -/
structure Znode where
  /-- The permissions, with the bits that tell the kind. -/
  mode : Nat
  size : Nat
  /-- The number of its names. -/
  links : Nat
  uid : Nat
  gid : Nat
  mtime : Nat
  /-- The object of the extended attributes. -/
  xattr : Nat
  /-- The target of a symbolic link that is kept in the attributes. -/
  symlink : Option (List UInt8)
  /-- Extended attributes that are kept in the attributes. -/
  dxattr : Option (List UInt8)
  projid : Option Nat
  deriving DecidableEq, Repr

namespace Znode

def fileType (z : Znode) : FileType := FileType.fromMode z.mode

/-- The permissions alone. -/
def permissions (z : Znode) : Nat := z.mode % 4096

end Znode

/-- One name in a directory. -/
structure DirEntry where
  name : String
  raw : List UInt8
  object : Nat
  fileType : FileType
  deriving DecidableEq, Repr

/-- What a walk met. -/
structure Entry where
  /-- The path as text, to be printed. -/
  path : String
  /-- The path as it is, to be written. -/
  rawPath : List UInt8
  object : Nat
  /-- None where the metadata could not be read. -/
  znode : Option Znode
  error : Option String
  deriving DecidableEq, Repr

/-- The path is text. -/
def Entry.pathIsText (e : Entry) : Bool := e.path.toUTF8.data.toList = e.rawPath

/-- A dataset opened as a filesystem, by what can be read of it. -/
structure Filesystem where
  root : Nat
  readDir : Nat → Except ReadError (List DirEntry)
  znode : Nat → Except ReadError Znode
  object : Nat → Except ReadError (ObjectReader Id)
  symlinkTarget : Nat → Znode → Except ReadError (List UInt8)
  xattrs : Znode → List (String × List UInt8)
  lookupBytes : List UInt8 → Except ReadError Nat

/-! ## The walk -/

/-- The deepest directory that is walked. -/
def maxDepth : Nat := 64

def joinRaw (rawPrefix name : List UInt8) : List UInt8 :=
  if rawPrefix = [] then name else rawPrefix ++ 47 :: name

def joinPath (pathPrefix name : String) : String :=
  if pathPrefix = "" then name else s!"{pathPrefix}/{name}"

/-- The directories that were read, and what was met. -/
structure Walked where
  seenDirs : List Nat
  out : List Entry

namespace Filesystem

variable (fs : Filesystem)

/-- A name in a directory, with the metadata of what it names. -/
def entryOf (pathPrefix : String) (rawPrefix : List UInt8) (e : DirEntry) : Entry :=
  { path := joinPath pathPrefix e.name
    rawPath := joinRaw rawPrefix e.raw
    object := e.object
    znode := (fs.znode e.object).toOption
    error :=
      match fs.znode e.object with
      | .ok _ => none
      | .error err => some err.text }

/-- By its metadata or else by the name, the name is one of a directory. -/
def isDir (e : DirEntry) : Bool :=
  match fs.znode e.object with
  | .ok z => z.fileType = .dir
  | .error _ => e.fileType = .dir

/-- The names of a directory, one by one. -/
def visitEntries (visit : Nat → String → List UInt8 → Walked → Walked) (pathPrefix : String)
    (rawPrefix : List UInt8) (recursive : Bool) : List DirEntry → Walked → Walked
  | [], w => w
  | e :: rest, w =>
    let entry := fs.entryOf pathPrefix rawPrefix e
    let w : Walked := { w with out := w.out ++ [entry] }
    let w := if fs.isDir e && recursive then visit e.object entry.path entry.rawPath w else w
    visitEntries visit pathPrefix rawPrefix recursive rest w

/-- Walk a directory, so many levels deep. -/
def walkInto (recursive : Bool) : (levels object : Nat) → String → List UInt8 → Walked → Walked
  | 0, _, _, _, w => w
  | levels + 1, object, pathPrefix, rawPrefix, w =>
    if object ∈ w.seenDirs then w
    else
      let w : Walked := { w with seenDirs := w.seenDirs ++ [object] }
      match fs.readDir object with
      | .error e =>
        { w with
          out := w.out ++
            [{ path := pathPrefix, rawPath := rawPrefix, object, znode := none
               error := some s!"directory: {e.text}" }] }
      | .ok entries =>
        fs.visitEntries (walkInto recursive levels) pathPrefix rawPrefix recursive entries w

def walkFrom (object : Nat) (pathPrefix : String) (rawPrefix : List UInt8) (recursive : Bool) :
    List Entry :=
  (fs.walkInto recursive (maxDepth + 1) object pathPrefix rawPrefix
    { seenDirs := [], out := [] }).out

/-- What is met has the metadata of its object, or none. -/
def Read (e : Entry) : Prop := e.znode = none ∨ e.znode = (fs.znode e.object).toOption

variable {fs}

theorem visitEntries_read {visit : Nat → String → List UInt8 → Walked → Walked}
    (hvisit : ∀ object pathPrefix rawPrefix w, (∀ e ∈ w.out, fs.Read e) →
      ∀ e ∈ (visit object pathPrefix rawPrefix w).out, fs.Read e)
    (pathPrefix : String) (rawPrefix : List UInt8) (recursive : Bool) (entries : List DirEntry) :
    ∀ w : Walked, (∀ e ∈ w.out, fs.Read e) →
      ∀ e ∈ (fs.visitEntries visit pathPrefix rawPrefix recursive entries w).out, fs.Read e := by
  induction entries with
  | nil =>
    intro w h
    exact h
  | cons d rest ih =>
    intro w h
    have hone : ∀ e ∈ w.out ++ [fs.entryOf pathPrefix rawPrefix d], fs.Read e := by
      intro e he
      rcases List.mem_append.mp he with he | he
      · exact h e he
      · rw [List.mem_singleton.mp he]
        exact Or.inr rfl
    rw [visitEntries]
    refine ih _ ?_
    split
    · exact hvisit _ _ _ _ hone
    · exact hone

theorem walkInto_read (recursive : Bool) (levels : Nat) :
    ∀ (object : Nat) (pathPrefix : String) (rawPrefix : List UInt8) (w : Walked),
      (∀ e ∈ w.out, fs.Read e) →
        ∀ e ∈ (fs.walkInto recursive levels object pathPrefix rawPrefix w).out, fs.Read e := by
  induction levels with
  | zero =>
    intro object pathPrefix rawPrefix w h
    exact h
  | succ levels ih =>
    intro object pathPrefix rawPrefix w h
    rw [walkInto]
    by_cases hseen : object ∈ w.seenDirs
    · rw [if_pos hseen]
      exact h
    · rw [if_neg hseen]
      cases fs.readDir object with
      | error err =>
        intro e he
        rcases List.mem_append.mp he with he | he
        · exact h e he
        · rw [List.mem_singleton.mp he]
          exact Or.inl rfl
      | ok entries => exact visitEntries_read ih pathPrefix rawPrefix recursive entries _ h

theorem walkFrom_read {object : Nat} {pathPrefix : String} {rawPrefix : List UInt8}
    {recursive : Bool} : ∀ e ∈ fs.walkFrom object pathPrefix rawPrefix recursive, fs.Read e :=
  walkInto_read recursive (maxDepth + 1) object pathPrefix rawPrefix _ (fun e he => by cases he)

end Filesystem

end Zpl
end ZvolRescue
