import ZvolRescue.Ondisk.Checksum
import ZvolRescue.Ondisk.Compress
import ZvolRescue.Ondisk.Indirect

/-!
# Why a block could not be read
-/

namespace ZvolRescue
namespace Zio

open Ondisk

inductive CryptError where
  | spec (what : String)
  | formatMismatch (expected got : String)
  | metadata (what : String)
  | suite (code : Nat)
  | wrongKey
  deriving DecidableEq, Repr

def CryptError.text : CryptError → String
  | spec s => s!"key: {s}"
  | formatMismatch expected got =>
    s!"dataset expects a {expected} key, a {got} key was supplied"
  | metadata s => s!"encryption metadata: {s}"
  | suite c => s!"unsupported encryption suite {c}"
  | wrongKey => "MAC does not verify: wrong key or damaged data"

inductive ReadError where
  /-- The DVA names a top-level vdev the labels do not describe. -/
  | unknownVdev (vdev : Nat)
  /-- The mapping of a removed vdev does not account for this range. -/
  | unmapped (vdev : Nat) (gap : Unmapped)
  /-- Every leaf that could hold the copy is missing. -/
  | noMember
  | unsupported (kind : String)
  | gang (what : String)
  /-- Redundancy exhausted. -/
  | unrecoverable (what : String)
  | io (what : String)
  /-- A device refused a read; `stop` says whether the run's medium policy stops here. -/
  | medium (stop : Bool) (what : String)
  /-- All copies were read but none passed its checksum. -/
  | allCopiesBad
  | hole
  | decompress (e : DecompressError)
  | checksumUnsupported
  /-- Verified, but ciphertext of an encrypted dataset, and no key is installed. -/
  | encrypted
  | crypt (e : CryptError)
  deriving DecidableEq, Repr

namespace ReadError

def text : ReadError → String
  | unknownVdev v => s!"DVA names unknown top-level vdev {v}"
  | unmapped v gap => s!"removed top-level vdev {v}: {gap.text}"
  | noMember => "no present member holds this copy"
  | unsupported k => s!"top-level vdev type {k} not supported yet"
  | gang e => s!"gang block: {e}"
  | unrecoverable e => s!"not recoverable: {e}"
  | io e => s!"I/O error: {e}"
  | medium _ what => what
  | allCopiesBad => "every copy failed its checksum"
  | hole => "block pointer is a hole"
  | decompress e => e.text
  | checksumUnsupported => "checksum algorithm not supported yet"
  | encrypted => "encrypted block: no key"
  | crypt e => s!"decrypt: {e.text}"

def ofParse (e : ParseError) : ReadError := io s!"parse: {e.text}"

/-- Of two reasons a copy could not be had, the one worth reporting. -/
def moreTelling (soFar next : ReadError) : ReadError :=
  match soFar, next with
  | medium stop what, _ => medium stop what
  | _, medium stop what => medium stop what
  | noMember, _ => next
  | _, noMember => soFar
  | _, _ => next

end ReadError

/-- The first success, or else the last error. -/
def firstOk {α : Type} (last : ReadError) : List (Except ReadError α) → Except ReadError α
  | [] => .error last
  | .ok a :: _ => .ok a
  | .error e :: rest => firstOk e rest

end Zio
end ZvolRescue
