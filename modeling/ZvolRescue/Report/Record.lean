import Mathlib.Data.List.Basic
import Mathlib.Data.String.Basic

/-!
# Evidence records

A run that is asked to leaves one record of what it did, with the document it printed.
-/

namespace ZvolRescue
namespace Report

/-! ## Loosely typed documents -/

/-- A value of `serde_json`. -/
inductive Json where
  | null
  | bool (b : Bool)
  | u64 (n : Nat)
  /-- A negative number, or one with a fraction. -/
  | other (text : String)
  | str (s : String)
  | arr (items : List Json)
  | obj (fields : List (String × Json))

namespace Json

def get (key : String) : Json → Option Json
  | obj fields => fields.lookup key
  | _ => none

def asU64 : Json → Option Nat
  | u64 n => some n
  | _ => none

def asStr : Json → Option String
  | str s => some s
  | _ => none

def asBool : Json → Option Bool
  | bool b => some b
  | _ => none

def asArray : Json → Option (List Json)
  | arr items => some items
  | _ => none

/-- `u64_at`. -/
def u64At (key : String) (v : Json) : Option Nat := (v.get key).bind asU64

/-- `str_at`. -/
def strAt (key : String) (v : Json) : Option String := (v.get key).bind asStr

def boolAt (key : String) (v : Json) : Option Bool := (v.get key).bind asBool

def arrayAt (key : String) (v : Json) : Option (List Json) := (v.get key).bind asArray

end Json

/-! ## Records -/

inductive Kind where
  | file
  | device
  | other
  deriving DecidableEq, Repr

/-- A file a run read or wrote. -/
structure FileRef where
  path : String
  kind : Option Kind
  size : Nat
  sha256 : Option String
  sha1 : Option String
  md5 : Option String
  deriving DecidableEq, Repr

def formatVersion : Nat := 1

structure Record where
  v : Nat
  ts : Nat
  tool : String
  version : String
  host : Option String
  argv : List String
  inputs : List FileRef
  outputs : List FileRef
  /-- The document the run printed. -/
  result : Json
  incidents : List Json
  status : Nat

end Report
end ZvolRescue
