import Mathlib.Data.List.DropRight
import ZvolRescue.Crypt.Sealed
import ZvolRescue.Dsl.Dataset
import ZvolRescue.Extract.Dump
import ZvolRescue.Lib.Text
import ZvolRescue.Ondisk.Tokens
import ZvolRescue.Ondisk.Utf8

/-!
# Keys of encrypted datasets

The user's key material becomes a wrapping key, and the wrapping key opens the keys of the
dataset.  They are opened exactly where they were wrapped with that key (`unlock_opens`).
-/

namespace ZvolRescue

def Dsl.Encryption.keyformatName (enc : Dsl.Encryption) : String :=
  match enc.keyformat with
  | some 1 => "raw"
  | some 2 => "hex"
  | some 3 => "passphrase"
  | some other => s!"keyformat-{other}"
  | none => "?"

namespace Crypt

open Lib Ondisk Zio Encode
open ZvolRescue.Dsl (Encryption)
open ZvolRescue.Extract (Exit.usage)

def wrappingKeyLen : Nat := 32

def hmacKeyLen : Nat := 64

/-! ## Key material -/

/-- What the user handed over, before derivation. -/
inductive KeyMaterial where
  | raw (key : Bytes wrappingKeyLen)
  | hex (digits : List Char)
  | passphrase (text : List Char)

/-- Where key material comes from: files, or why they cannot be read, and standard input. -/
structure KeySource where
  read : (path : List Char) → Except String (List UInt8)
  stdin : List UInt8

/-- One newline at the end is dropped, with a carriage return before it. -/
def dropNewline (text : List Char) : List Char :=
  if text.getLast? = some '\n' then
    let text := text.dropLast
    if text.getLast? = some '\r' then text.dropLast else text
  else text

/-- The text of an argument, or of the file that it names. -/
def keyText (source : KeySource) (arg : List Char) : Except CryptError (List Char) :=
  match arg with
  | '@' :: path =>
    match source.read path with
    | .error e => .error (.spec s!"{String.ofList path}: {e}")
    | .ok bytes =>
      match fromUtf8 bytes with
      | none => .error (.spec "key text is not UTF-8")
      | some text => .ok (dropNewline text.toList)
  | arg => .ok (dropNewline arg)

/-- The first line of standard input, without any line ends behind it. -/
def promptLine (source : KeySource) : Except CryptError (List Char) :=
  let line := source.stdin.takeWhile (· ≠ 10) ++ (source.stdin.dropWhile (· ≠ 10)).take 1
  match fromUtf8 line with
  | none => .error (.spec "stdin: stream did not contain valid UTF-8")
  | some text => .ok (text.toList.rdropWhile (fun c => c = '\n' ∨ c = '\r'))

namespace KeyMaterial

/-- The `keyformat` that this material is for. -/
def keyformat : KeyMaterial → Nat
  | raw _ => 1
  | hex _ => 2
  | passphrase _ => 3

def name : KeyMaterial → String
  | raw _ => "raw"
  | hex _ => "hex"
  | passphrase _ => "passphrase"

def fromSpec (source : KeySource) (spec : List Char) : Except CryptError KeyMaterial :=
  let kind := spec.takeWhile (· ≠ ':')
  match spec.dropWhile (· ≠ ':') with
  | [] => .error (.spec "expected raw:FILE, hex:HEX|@FILE, passphrase:FILE or prompt")
  | _ :: rest =>
    if kind = "raw".toList then
      match source.read rest with
      | .error e => .error (.spec s!"{String.ofList rest}: {e}")
      | .ok bytes =>
        if h : bytes.length = wrappingKeyLen then .ok (raw ⟨bytes, h⟩)
        else .error (.spec (s!"raw key must be exactly {wrappingKeyLen} bytes, " ++
          s!"{String.ofList rest} has {bytes.length}"))
    else if kind = "hex".toList then (keyText source rest).map hex
    else if kind = "passphrase".toList then (keyText source ('@' :: rest)).map passphrase
    else .error (.spec s!"unknown key format \"{String.ofList kind}\"")

/-- The key from standard input, in the format of the dataset. -/
def prompt (source : KeySource) (keyformat : Option Nat) : Except CryptError KeyMaterial :=
  match keyformat with
  | some 1 =>
    if h : wrappingKeyLen ≤ source.stdin.length then
      .ok (raw ⟨source.stdin.take wrappingKeyLen, by rw [List.length_take, Nat.min_eq_left h]⟩)
    else .error (.spec "stdin: failed to fill whole buffer")
  | some 2 => (promptLine source).map hex
  | some 3 => (promptLine source).map passphrase
  | some other => .error (.metadata s!"unknown keyformat Some({other}): cannot prompt")
  | none => .error (.metadata "unknown keyformat None: cannot prompt")

end KeyMaterial

/-! ## The wrapping key -/

/-- PBKDF2 with HMAC-SHA1. -/
abbrev Kdf := (passphrase salt : List UInt8) → (iters : Nat) → Bytes wrappingKeyLen

/-- What each two digits say. -/
def hexPairs : List Char → Option (List UInt8)
  | [] => some []
  | [_] => none
  | a :: b :: rest => do
    let byte := UInt8.ofNat (16 * (← hexDigit a) + (← hexDigit b))
    return byte :: (← hexPairs rest)

theorem hexPairs_length {digits : List Char} {key : List UInt8}
    (h : hexPairs digits = some key) : digits.length = 2 * key.length := by
  fun_induction hexPairs digits generalizing key with
  | case1 =>
    cases h
    rfl
  | case2 => cases h
  | case3 a b rest ih =>
    simp only [Option.bind_eq_bind, Option.bind_eq_some_iff, Option.pure_def,
      Option.some.injEq] at h
    obtain ⟨_, -, _, -, bytes, hbytes, rfl⟩ := h
    rw [List.length_cons, List.length_cons, List.length_cons, ih hbytes]
    omega

/-- Derive the wrapping key. -/
def wrappingKey (kdf : Kdf) (material : KeyMaterial) (enc : Encryption) :
    Except CryptError (Bytes wrappingKeyLen) :=
  if enc.keyformat ≠ some material.keyformat then
    .error (.formatMismatch enc.keyformatName material.name)
  else
    match material with
    | .raw key => .ok key
    | .hex digits =>
      let digits := trim digits
      let bytes := if digits.length = 2 * wrappingKeyLen then hexPairs digits else none
      match bytes with
      | some key =>
        if h : key.length = wrappingKeyLen then .ok ⟨key, h⟩
        else .error (.spec s!"hex key must be {2 * wrappingKeyLen} hex digits")
      | none => .error (.spec s!"hex key must be {2 * wrappingKeyLen} hex digits")
    | .passphrase text =>
      match enc.pbkdf2Iters.filter (0 < ·) with
      | none => .error (.metadata "pbkdf2iters missing or zero")
      | some iters =>
        match enc.pbkdf2Salt with
        | none => .error (.metadata "pbkdf2salt missing")
        | some salt =>
          if iters < 2 ^ 32 then
            .ok (kdf (asBytes (String.ofList text)) (Endian.little.bytes (UInt64.ofNat salt)) iters)
          else .error (.metadata "pbkdf2iters out of range")

/-! ## The keys of a dataset -/

/-- The unwrapped keys of an encryption root, with what identifies them and the key of the object
set MACs. -/
structure RootKeys extends DatasetKeys where
  keyGuid : Nat
  hmac : List UInt8

/-- Key length in bytes of `zio_crypt_table[suite]`. -/
def suiteKeyLen (suite : Nat) : Option Nat :=
  if suite = 3 ∨ suite = 6 then some 16
  else if suite = 4 ∨ suite = 7 then some 24
  else if suite = 5 ∨ suite = 8 then some 32
  else none

/-- What is authenticated with the wrapped keys. -/
def wrapAad (enc : Encryption) : List UInt8 :=
  Endian.little.bytes (UInt64.ofNat enc.keyGuid) ++
    (if enc.keyVersion ≠ 0 then
      Endian.little.bytes (UInt64.ofNat enc.suite) ++
        Endian.little.bytes (UInt64.ofNat enc.keyVersion)
    else [])

/-- Recover the master and HMAC keys with the wrapping key. -/
def unwrapKeys (c : Ciphers) (enc : Encryption) (wkey : Bytes wrappingKeyLen) :
    Except CryptError RootKeys :=
  match suiteKeyLen enc.suite with
  | none => .error (.suite enc.suite)
  | some keylen =>
    if enc.wrappedMasterKey.length < keylen then
      .error (.metadata (s!"wrapped master key has {enc.wrappedMasterKey.length} bytes, " ++
        s!"suite needs {keylen}"))
    else if enc.wrappedHmacKey.length < hmacKeyLen ∨ enc.mac.length ≠ macLen then
      .error (.metadata "wrapped HMAC key, MAC or IV has the wrong length")
    else if h : enc.iv.length = ivLen then
      let ct := enc.wrappedMasterKey.take keylen ++ enc.wrappedHmacKey.take hmacKeyLen ++ enc.mac
      match aeadOpen c enc.suite wkey.val ⟨enc.iv, h⟩ (wrapAad enc) ct with
      | .error e => .error e
      | .ok plain =>
        .ok
          { suite := enc.suite
            version := enc.keyVersion
            master := plain.take keylen
            keyGuid := enc.keyGuid
            hmac := plain.drop keylen }
    else .error (.metadata "wrapped HMAC key, MAC or IV has the wrong length")

/-- The material that `--key` stands for. -/
def keyMaterial (source : KeySource) (enc : Encryption) (spec : List Char) :
    Except CryptError KeyMaterial :=
  if spec = "prompt".toList then KeyMaterial.prompt source enc.keyformat
  else KeyMaterial.fromSpec source spec

/-- Turn `--key` into the keys of a dataset.  Whatever is wrong, it is the input that is. -/
def unlock (source : KeySource) (kdf : Kdf) (c : Ciphers) (enc : Encryption)
    (spec : Option (List Char)) : Except Nat RootKeys :=
  match spec with
  | none => .error Exit.usage
  | some spec =>
    Except.mapError (fun _ => Exit.usage)
      (((keyMaterial source enc spec).bind fun material => wrappingKey kdf material enc).bind
        fun wkey => unwrapKeys c enc wkey)

/-! ## What is opened -/

section Opened

variable {c : Ciphers} {s : Sealing c} {enc : Encryption} {wkey : Bytes wrappingKeyLen}
  {keys : RootKeys}

/-- These keys are wrapped with this wrapping key. -/
structure Wrapped (s : Sealing c) (enc : Encryption) (wkey : List UInt8) (keys : RootKeys) :
    Prop where
  suite : keys.suite = enc.suite
  version : keys.version = enc.keyVersion
  keyGuid : keys.keyGuid = enc.keyGuid
  master : suiteKeyLen enc.suite = some keys.master.length
  hmac : keys.hmac.length = hmacKeyLen
  room : keys.master.length ≤ enc.wrappedMasterKey.length
  roomHmac : hmacKeyLen ≤ enc.wrappedHmacKey.length
  mac : enc.mac.length = macLen
  iv : enc.iv.length = ivLen
  closed : s.close (suiteIsCcm enc.suite) wkey enc.iv (wrapAad enc) (keys.master ++ keys.hmac) =
    some (enc.wrappedMasterKey.take keys.master.length ++
      enc.wrappedHmacKey.take hmacKeyLen ++ enc.mac)

theorem wrappingKey_fits (wkey : Bytes wrappingKeyLen) : KeyFits wkey.val :=
  Or.inr (Or.inr wkey.property)

/-- A wrapping key gives the keys that were wrapped with it. -/
theorem unwrapKeys_wrapped : unwrapKeys c enc wkey = .ok keys ↔ Wrapped s enc wkey keys := by
  rw [unwrapKeys]
  constructor
  · intro h
    cases hsuite : suiteKeyLen enc.suite with
    | none =>
      rw [hsuite] at h
      cases h
    | some keylen =>
      rw [hsuite] at h
      dsimp only at h
      split at h
      · cases h
      rename_i hroom
      split at h
      · cases h
      rename_i hlengths
      rw [not_or, Nat.not_lt, not_not] at hlengths
      split at h
      · rename_i hiv
        split at h
        · cases h
        rename_i plain hopen
        cases h
        obtain ⟨-, hclosed⟩ := s.aeadOpen_iff.mp hopen
        have hlength := s.length _ _ _ _ _ _ hclosed
        rw [List.length_append, List.length_append, List.length_take, List.length_take,
          hlengths.2, Nat.min_eq_left (Nat.not_lt.mp hroom), Nat.min_eq_left hlengths.1] at hlength
        have hmaster : (plain.take keylen).length = keylen := by
          rw [List.length_take]
          omega
        exact
          { suite := rfl
            version := rfl
            keyGuid := rfl
            master := by rw [hsuite, hmaster]
            hmac := by
              rw [List.length_drop]
              omega
            room := hmaster.symm ▸ Nat.not_lt.mp hroom
            roomHmac := hlengths.1
            mac := hlengths.2
            iv := hiv
            closed := by
              rw [List.take_append_drop, hmaster]
              exact hclosed }
      · cases h
  · intro h
    have hopen := s.aeadOpen_iff.mpr ⟨wrappingKey_fits wkey,
      show s.close (suiteIsCcm enc.suite) wkey (⟨enc.iv, h.iv⟩ : Bytes ivLen).val _ _ = _
        from h.closed⟩
    rw [h.master]
    dsimp only
    rw [if_neg (Nat.not_lt.mpr h.room), if_neg (fun hbad => hbad.elim
      (Nat.not_lt.mpr h.roomHmac) (fun hmac => hmac h.mac)), dif_pos h.iv, hopen]
    dsimp only
    rw [List.take_left, List.drop_left, ← h.suite, ← h.version, ← h.keyGuid]

/-- The wrapping key that key material stands for. -/
inductive Derives (kdf : Kdf) (enc : Encryption) : KeyMaterial → Bytes wrappingKeyLen → Prop where
  | raw (key : Bytes wrappingKeyLen) : Derives kdf enc (.raw key) key
  | hex {digits : List Char} {key : Bytes wrappingKeyLen}
    (h : hexPairs (trim digits) = some key.val) : Derives kdf enc (.hex digits) key
  | passphrase {text : List Char} {iters salt : Nat} (hiters : enc.pbkdf2Iters = some iters)
    (hpos : 0 < iters) (hlt : iters < 2 ^ 32) (hsalt : enc.pbkdf2Salt = some salt) :
    Derives kdf enc (.passphrase text)
      (kdf (asBytes (String.ofList text)) (Endian.little.bytes (UInt64.ofNat salt)) iters)

theorem wrappingKey_derives {kdf : Kdf} {material : KeyMaterial} :
    wrappingKey kdf material enc = .ok wkey ↔
      enc.keyformat = some material.keyformat ∧ Derives kdf enc material wkey := by
  unfold wrappingKey
  by_cases hformat : enc.keyformat = some material.keyformat
  · rw [if_neg (not_not_intro hformat), and_iff_right hformat]
    cases material with
    | raw key =>
      constructor
      · intro h
        cases h
        exact .raw wkey
      · intro h
        cases h
        rfl
    | hex digits =>
      dsimp only
      constructor
      · intro h
        split at h
        · rename_i key hkey
          split at h
          · cases h
            refine .hex ?_
            split at hkey
            · exact hkey
            · cases hkey
          · cases h
        · cases h
      · intro h
        cases h with
        | hex hkey =>
          have hlength := hexPairs_length hkey
          rw [wkey.property] at hlength
          rw [if_pos hlength, hkey]
          dsimp only
          rw [dif_pos wkey.property]
    | passphrase text =>
      dsimp only
      constructor
      · intro h
        split at h
        · cases h
        rename_i iters hiters
        split at h
        · cases h
        rename_i salt hsalt
        split at h
        · rename_i hlt
          cases h
          obtain ⟨hiters, hpos⟩ := Option.filter_eq_some_iff.mp hiters
          exact .passphrase hiters (of_decide_eq_true hpos) hlt hsalt
        · cases h
      · intro h
        cases h with
        | passphrase hiters hpos hlt hsalt =>
          rw [hiters, Option.filter_some, if_pos (decide_eq_true hpos)]
          dsimp only
          rw [hsalt]
          dsimp only
          rw [if_pos hlt]
  · rw [if_pos hformat]
    constructor
    · intro h
      cases h
    · exact fun h => absurd h.1 hformat

theorem mapError_eq_ok {ε ε' α : Type*} {x : Except ε α} {f : ε → ε'} {a : α} :
    x.mapError f = .ok a ↔ x = .ok a := by
  cases x <;> simp [Except.mapError]

/-- A dataset opens with a key in its own format, where its keys are wrapped with the wrapping key
that it stands for, and every failure is one of the input. -/
theorem unlock_opens (s : Sealing c) (source : KeySource) (kdf : Kdf) (enc : Encryption)
    (spec : Option (List Char)) :
    (∀ keys, unlock source kdf c enc spec = .ok keys ↔ ∃ given material wkey,
      spec = some given ∧ keyMaterial source enc given = .ok material ∧
        enc.keyformat = some material.keyformat ∧ Derives kdf enc material wkey ∧
          Wrapped s enc wkey.val keys) ∧
      ∀ code, unlock source kdf c enc spec = .error code → code = Exit.usage := by
  cases spec with
  | none =>
    refine ⟨fun keys => ⟨fun h => ?_, fun h => ?_⟩, fun code h => ?_⟩
    · cases h
    · obtain ⟨given, -, -, hgiven, -⟩ := h
      cases hgiven
    · cases h
      rfl
  | some spec =>
    refine ⟨fun keys => ?_, fun code h => ?_⟩
    · rw [unlock, mapError_eq_ok, bind_eq_ok]
      constructor
      · rintro ⟨wkey, hwkey, hkeys⟩
        obtain ⟨material, hmaterial, hwkey⟩ := bind_eq_ok.mp hwkey
        obtain ⟨hformat, hderives⟩ := wrappingKey_derives.mp hwkey
        exact ⟨spec, material, wkey, rfl, hmaterial, hformat, hderives,
          unwrapKeys_wrapped.mp hkeys⟩
      · rintro ⟨given, material, wkey, hgiven, hmaterial, hformat, hderives, hwrapped⟩
        cases hgiven
        have hwkey := wrappingKey_derives.mpr ⟨hformat, hderives⟩
        exact ⟨wkey, bind_eq_ok.mpr ⟨material, hmaterial, hwkey⟩, unwrapKeys_wrapped.mpr hwrapped⟩
    · rw [unlock] at h
      revert h
      generalize Except.bind _ _ = opened
      intro h
      cases opened with
      | ok keys => cases h
      | error e =>
        cases h
        rfl

end Opened

end Crypt
end ZvolRescue
