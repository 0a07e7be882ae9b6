import ZvolRescue.Dmu.Zap
import ZvolRescue.Ondisk.Dsl
import ZvolRescue.Ondisk.Objset

/-!
# Datasets

What is read of one dataset: its own numbers, the type of its object set, the size of a volume
and what its encryption metadata says without a key.  What cannot be read besides the dataset
itself is a warning.
-/

namespace ZvolRescue
namespace Dsl

open Ondisk Zio Dmu

/-- The data object of a volume. -/
def zvolObj : Nat := 1

/-- The properties of a volume. -/
def zvolZapObj : Nat := 2

/-- The attribute of a directory that names its key. -/
def cryptoKeyObj : String := "com.datto:crypto_key_obj"

/-- What an encrypted dataset says about its key. -/
structure Encryption where
  cryptoKeyObj : Nat
  suite : Nat
  keyGuid : Nat
  keyVersion : Nat
  /-- The directory of the encryption root. -/
  rootDdobj : Nat
  keyformat : Option Nat
  keylocation : Option String
  pbkdf2Iters : Option Nat
  pbkdf2Salt : Option Nat
  iv : List UInt8
  mac : List UInt8
  wrappedMasterKey : List UInt8
  wrappedHmacKey : List UInt8
  deriving DecidableEq, Repr

def Encryption.suiteName (e : Encryption) : String :=
  match e.suite with
  | 3 => "aes-128-ccm"
  | 4 => "aes-192-ccm"
  | 5 => "aes-256-ccm"
  | 6 => "aes-128-gcm"
  | 7 => "aes-192-gcm"
  | 8 => "aes-256-gcm"
  | other => s!"suite-{other}"

/-- A dataset as it is at one transaction group. -/
structure Dataset where
  name : String
  /-- The object that holds the dataset. -/
  object : Nat
  dirObject : Nat
  guid : Nat
  /-- None where the object set could not be read. -/
  kind : Option ObjsetType
  snapshot : Bool
  creationTxg : Nat
  creationTime : Nat
  referencedBytes : Nat
  prevSnapObj : Nat
  originObj : Nat
  /-- The origin is a snapshot of another dataset, not the one that all descend from. -/
  clone : Bool
  propsZapobj : Nat
  volsize : Option Nat
  volblocksize : Option Nat
  encryption : Option Encryption
  phys : DslDatasetPhys
  warnings : List String
  deriving DecidableEq, Repr

/-- The value of the first entry of this name. -/
def valueOf (entries : List Zap.Entry) (name : String) : Option Zap.Value :=
  (entries.find? (fun e => e.name = name)).map Zap.Entry.value

def u64Of (entries : List Zap.Entry) (name : String) : Option Nat :=
  (valueOf entries name).bind Zap.Value.asU64

def bytesOf (entries : List Zap.Entry) (name : String) : List UInt8 :=
  match valueOf entries name with
  | some (.bytes b) => b
  | some (.ints _ raw) => raw
  | _ => []

section Read

variable {m : Type → Type} [Monad m] (mos : DnodeArray m)

def readDir (obj : Nat) : m (Except ReadError DslDirPhys) := do
  match ← mos.get obj with
  | .error e => pure (.error e)
  | .ok d => pure ((DslDirPhys.parse d.bonus mos.endian).mapError .ofParse)

def readDataset (obj : Nat) : m (Except ReadError DslDatasetPhys) := do
  match ← mos.get obj with
  | .error e => pure (.error e)
  | .ok d => pure ((DslDatasetPhys.parse d.bonus mos.endian).mapError .ofParse)

/-- What the entries of a key say, but for where it is kept. -/
def Encryption.ofEntries (dirObj keyObj : Nat) (entries : List Zap.Entry) : Encryption :=
  { cryptoKeyObj := keyObj
    suite := (u64Of entries "DSL_CRYPTO_SUITE").getD 0
    keyGuid := (u64Of entries "DSL_CRYPTO_GUID").getD 0
    keyVersion := (u64Of entries "DSL_CRYPTO_VERSION").getD 0
    rootDdobj := (u64Of entries "DSL_CRYPTO_ROOT_DDOBJ").getD dirObj
    keyformat := u64Of entries "keyformat"
    keylocation := none
    pbkdf2Iters := u64Of entries "pbkdf2iters"
    pbkdf2Salt := u64Of entries "pbkdf2salt"
    iv := bytesOf entries "DSL_CRYPTO_IV"
    mac := bytesOf entries "DSL_CRYPTO_MAC"
    wrappedMasterKey := bytesOf entries "DSL_CRYPTO_MASTER_KEY_1"
    wrappedHmacKey := bytesOf entries "DSL_CRYPTO_HMAC_KEY_1" }

/-- The location of the key is a property of the encryption root. -/
def withKeylocation (enc : Encryption) : m (Except ReadError Encryption) := do
  match ← readDir mos enc.rootDdobj with
  | .error e => pure (.error e)
  | .ok root =>
    if root.propsZapobj = 0 then pure (.ok enc)
    else do
      match ← mos.zap root.propsZapobj with
      | .error e => pure (.error e)
      | .ok props =>
        pure (.ok { enc with keylocation := (valueOf props "keylocation").bind Zap.Value.asStr })

/-- The encryption of a directory; none where it has no attributes, or none that names a key. -/
def readEncryption (dirObj : Nat) : m (Except ReadError (Option Encryption)) := do
  match ← mos.get dirObj with
  | .error e => pure (.error e)
  | .ok dn =>
    -- A directory with attributes is a ZAP of a new-style type.
    if dn.objectType.testBit 7 = false ∨ dn.objectType % 32 ≠ 4 then pure (.ok none)
    else do
      match ← mos.zap dirObj with
      | .error e => pure (.error e)
      | .ok attrs =>
        match u64Of attrs cryptoKeyObj with
        | none => pure (.ok none)
        | some keyObj => do
          match ← mos.zap keyObj with
          | .error e => pure (.error e)
          | .ok entries =>
            Except.map some <$> withKeylocation mos (Encryption.ofEntries dirObj keyObj entries)

/-- What the object set of a dataset tells. -/
structure Contents where
  kind : Option ObjsetType
  volsize : Option Nat
  volblocksize : Option Nat
  warnings : List String

/-- The block size and the size of a volume. -/
def zvolContents (objs : DnodeArray m) : m Contents := do
  let data ← objs.get zvolObj
  let (volblocksize, dataWarnings) : Option Nat × List String :=
    match data with
    | .ok d => if d.isFree then (none, ["zvol data object is free"]) else (some d.datablksz, [])
    | .error e => (none, [s!"zvol data object: {e.text}"])
  let props ← objs.zap zvolZapObj
  let (volsize, propWarnings) : Option Nat × List String :=
    match props with
    | .ok entries =>
      match u64Of entries "size" with
      | some size => (some size, [])
      | none => (none, ["zvol properties have no size"])
    | .error e => (none, [s!"zvol properties: {e.text}"])
  pure { kind := some .zvol, volsize, volblocksize, warnings := dataWarnings ++ propWarnings }

def readContents (bp : BlkPtr) : m Contents :=
  if bp.isHole then pure { kind := none, volsize := none, volblocksize := none, warnings := [] }
  else do
    match ← mos.reader.readBlock bp with
    | .error e =>
      pure { kind := none, volsize := none, volblocksize := none
             warnings := [s!"objset block: {e.text}"] }
    | .ok b =>
      match ObjsetPhys.parse b.data bp.endian with
      | .error e =>
        pure { kind := none, volsize := none, volblocksize := none
               warnings := [s!"objset header: {e.text}"] }
      | .ok os =>
        if os.osType = .zvol then
          zvolContents
            { meta_ := { reader := mos.reader, dnode := os.metaDnode, endian := bp.endian } }
        else pure { kind := some os.osType, volsize := none, volblocksize := none, warnings := [] }

/-- What a dataset has from the directory it is described under. -/
structure Owner where
  originObj : Nat
  propsZapobj : Nat

/-- The dataset that is object `obj`. -/
def describe (obj : Nat) (name : String) (dir : Owner) (originSnap : Nat) :
    m (Except ReadError Dataset) := do
  match ← readDataset mos obj with
  | .error e => pure (.error e)
  | .ok phys => do
    let encryption ← readEncryption mos phys.dirObj
    let (encryption, warnings) : Option Encryption × List String :=
      match encryption with
      | .ok e => (e, [])
      | .error e => (none, [s!"encryption metadata: {e.text}"])
    let contents ← readContents mos phys.bp
    pure (.ok
      { name
        object := obj
        dirObject := phys.dirObj
        guid := phys.guid
        kind := contents.kind
        snapshot := phys.isSnapshot
        creationTxg := phys.creationTxg
        creationTime := phys.creationTime
        referencedBytes := phys.referencedBytes
        prevSnapObj := phys.prevSnapObj
        originObj := dir.originObj
        clone := dir.originObj ≠ 0 && dir.originObj ≠ originSnap
        propsZapobj := dir.propsZapobj
        volsize := contents.volsize
        volblocksize := contents.volblocksize
        encryption
        phys
        warnings := warnings ++ contents.warnings })

end Read

end Dsl
end ZvolRescue
