import Mathlib.Data.List.Basic
import ZvolRescue.Lib.Text

/-!
# Keys as PEM

`pem` writes bytes in base64 between a BEGIN and an END line, and `pemBody` finds them again
(`pem_roundTrip`).
-/

namespace ZvolRescue
namespace Report

open Lib

/-! ## Base64 -/

def alphabet : List Char :=
  "ABCDEFGHIJKLMNOPQRSTUVWXYZabcdefghijklmnopqrstuvwxyz0123456789+/".toList

/-- The character of the low six bits. -/
def sixBits (n : Nat) : Char := alphabet.getD (n &&& 63) '='

/-- Three bytes at most, as four characters. -/
def quad (chunk : List UInt8) : List Char :=
  let n := ((chunk.getD 0 0).toNat <<< 16) ||| ((chunk.getD 1 0).toNat <<< 8) |||
    (chunk.getD 2 0).toNat
  [sixBits (n >>> 18), sixBits (n >>> 12),
    if chunk.length > 1 then sixBits (n >>> 6) else '=',
    if chunk.length > 2 then sixBits n else '=']

/-- A line has sixteen groups. -/
def lineBreak (i : Nat) : List Char := if i > 0 ∧ i % 16 = 0 then ['\n'] else []

/-- The groups of three bytes, from the one that has this number. -/
def encodeFrom (i : Nat) : List UInt8 → List Char
  | [] => []
  | a :: b :: c :: rest => lineBreak i ++ quad [a, b, c] ++ encodeFrom (i + 1) rest
  | chunk => lineBreak i ++ quad chunk

def b64Encode (data : List UInt8) : List Char := encodeFrom 0 data

def isAsciiWhitespace (c : Char) : Bool :=
  c = ' ' || c = '\t' || c = '\n' || c = '\r' || c.toNat = 12

/-- What has been decoded, and the bits that are left over in 32. -/
structure Decoder where
  bits : Nat
  count : Nat
  pad : Nat
  out : List UInt8

def Decoder.start : Decoder := { bits := 0, count := 0, pad := 0, out := [] }

/-- Six more bits. -/
def Decoder.push (s : Decoder) (v : Nat) : Decoder :=
  let bits := ((s.bits <<< 6) % 2 ^ 32) ||| v
  let count := s.count + 6
  if count ≥ 8 then
    { s with bits := bits, count := count - 8
             out := s.out ++ [UInt8.ofNat (bits >>> (count - 8))] }
  else { s with bits := bits, count := count }

def Decoder.step (s : Decoder) (c : Char) : Except String Decoder :=
  if isAsciiWhitespace c then .ok s
  else if c = '=' then .ok { s with pad := s.pad + 1 }
  else if s.pad > 0 then .error "base64 data after the padding"
  else
    match alphabet.findIdx? (fun b => b = c) with
    | none => .error (c.quote ++ " is not base64")
    | some v => .ok (s.push v)

def b64Decode (text : List Char) : Except String (List UInt8) :=
  match text.foldlM Decoder.step .start with
  | .error e => .error e
  | .ok s => if s.pad > 2 then .error "too much base64 padding" else .ok s.out

/-! ## The block -/

def beginLine (label : List Char) : List Char := "-----BEGIN ".toList ++ label ++ "-----".toList

def endLine (label : List Char) : List Char := "-----END ".toList ++ label ++ "-----".toList

/-- The bytes of the first block with a label. -/
def pemBody (text label : List Char) : Except String (List UInt8) :=
  match find (beginLine label) text with
  | none => .error ("no " ++ String.ofList (beginLine label) ++ " line")
  | some at_ =>
    let body := text.drop (at_ + (beginLine label).length)
    match find (endLine label) body with
    | none => .error ("no " ++ String.ofList (endLine label) ++ " line")
    | some stop => b64Decode (body.take stop)

def pem (label : List Char) (der : List UInt8) : List Char :=
  beginLine label ++ '\n' :: (b64Encode der ++ '\n' :: (endLine label ++ ['\n']))

/-! ## Base64 is decoded -/

theorem foldlM_filter (text : List Char) (s : Decoder) :
    text.foldlM Decoder.step s =
      (text.filter (fun c => !isAsciiWhitespace c)).foldlM Decoder.step s := by
  induction text generalizing s with
  | nil => rfl
  | cons c text ih =>
    by_cases hc : isAsciiWhitespace c = true
    · have hstep : Decoder.step s c = .ok s := by rw [Decoder.step, if_pos hc]
      rw [List.foldlM_cons, hstep, List.filter_cons, if_neg (by simp [hc])]
      exact ih s
    · rw [List.filter_cons, if_pos (by simp [hc]), List.foldlM_cons, List.foldlM_cons]
      exact bind_congr (fun s => ih s)

theorem alphabet_spec : ∀ v, v < 64 →
    isAsciiWhitespace (alphabet.getD v '=') = false ∧ alphabet.getD v '=' ≠ '=' ∧
      alphabet.getD v '=' ≠ '-' ∧
      alphabet.findIdx? (fun b => b = alphabet.getD v '=') = some v := by
  decide +kernel

theorem step_sixBits {s : Decoder} (hpad : s.pad = 0) (n : Nat) :
    s.step (sixBits n) = .ok (s.push (n % 64)) := by
  have hmask : n &&& 63 = n % 64 := Nat.and_two_pow_sub_one_eq_mod n 6
  obtain ⟨hspace, hpadding, -, hfind⟩ := alphabet_spec (n % 64) (Nat.mod_lt _ (by decide))
  rw [sixBits, hmask, Decoder.step, hspace, if_neg Bool.false_ne_true, if_neg hpadding,
    if_neg (by omega), hfind]

/-- What six bits do to a decoder, in numbers. -/
theorem push_eq (s : Decoder) {v : Nat} (hv : v < 64) :
    s.push v =
      let bits := s.bits % 2 ^ 26 * 64 + v
      if s.count ≥ 2 then
        { bits := bits, count := s.count - 2, pad := s.pad
          out := s.out ++ [UInt8.ofNat (bits / 2 ^ (s.count - 2))] }
      else { bits := bits, count := s.count + 6, pad := s.pad, out := s.out } := by
  have hbits : (s.bits <<< 6) % 2 ^ 32 ||| v = s.bits % 2 ^ 26 * 64 + v := by
    have hshift : (s.bits <<< 6) % 2 ^ 32 = (s.bits % 2 ^ 26) <<< 6 := by
      rw [Nat.shiftLeft_eq, Nat.shiftLeft_eq]
      omega
    have hor := Nat.shiftLeft_add_eq_or_of_lt (i := 6) (b := v) hv (s.bits % 2 ^ 26)
    rw [hshift, ← hor, Nat.shiftLeft_eq]
  have hcount : s.count + 6 - 8 = s.count - 2 := by omega
  simp only [Decoder.push, hbits, Nat.shiftRight_eq_div_pow, hcount]
  by_cases htwo : s.count ≥ 2
  · rw [if_pos (by omega), if_pos htwo]
  · rw [if_neg (by omega), if_neg htwo]

/-- Three bytes as one number. -/
theorem three_bytes (a b c : UInt8) :
    (a.toNat <<< 16) ||| (b.toNat <<< 8) ||| c.toNat =
      a.toNat * 65536 + b.toNat * 256 + c.toNat := by
  have hb := b.toNat_lt
  have hc := c.toNat_lt
  have hlow := Nat.shiftLeft_add_eq_or_of_lt (i := 8) (b := c.toNat) hc b.toNat
  have hhigh := Nat.shiftLeft_add_eq_or_of_lt (i := 16) (b := b.toNat <<< 8 ||| c.toNat)
    (by rw [← hlow, Nat.shiftLeft_eq]; omega) a.toNat
  rw [Nat.or_assoc, ← hhigh, ← hlow, Nat.shiftLeft_eq, Nat.shiftLeft_eq]
  omega

theorem byte_of_bits {x : Nat} {b : UInt8} (h : x % 256 = b.toNat) : UInt8.ofNat x = b := by
  rw [← UInt8.toNat_inj, UInt8.toNat_ofNat', h]

theorem foldlM_sixBits {s : Decoder} (hpad : s.pad = 0) (n : Nat) (text : List Char) :
    (sixBits n :: text).foldlM Decoder.step s = text.foldlM Decoder.step (s.push (n % 64)) := by
  rw [List.foldlM_cons, step_sixBits hpad]
  rfl

/-- Two characters give a byte and leave four bits. -/
theorem foldlM_two (bits : Nat) (out : List UInt8) {m n : Nat} {a : UInt8}
    (ha : m % 64 * 4 + n % 64 / 16 = a.toNat) :
    ∃ bits', bits' % 16 = n % 16 ∧ ∀ text,
      (sixBits m :: sixBits n :: text).foldlM Decoder.step ⟨bits, 0, 0, out⟩ =
        text.foldlM Decoder.step ⟨bits', 4, 0, out ++ [a]⟩ := by
  have hm := Nat.mod_lt m (show 64 > 0 by decide)
  have hn := Nat.mod_lt n (show 64 > 0 by decide)
  obtain ⟨first, hfirst⟩ : ∃ first, bits % 2 ^ 26 * 64 + m % 64 = first := ⟨_, rfl⟩
  refine ⟨first % 2 ^ 26 * 64 + n % 64, by omega, fun text => ?_⟩
  have hbyte : UInt8.ofNat ((first % 2 ^ 26 * 64 + n % 64) / 2 ^ 4) = a :=
    byte_of_bits (by omega)
  rw [foldlM_sixBits rfl, push_eq _ hm]
  simp only [hfirst]
  rw [if_neg (by decide), foldlM_sixBits rfl, push_eq _ hn]
  simp only [hbyte]
  rw [if_pos (by decide)]

/-- A third character gives another byte and leaves two bits. -/
theorem foldlM_third {bits : Nat} (out : List UInt8) {n : Nat} {b : UInt8}
    (hb : bits % 16 * 16 + n % 64 / 4 = b.toNat) :
    ∃ bits', bits' % 4 = n % 4 ∧ ∀ text,
      (sixBits n :: text).foldlM Decoder.step ⟨bits, 4, 0, out⟩ =
        text.foldlM Decoder.step ⟨bits', 2, 0, out ++ [b]⟩ := by
  have hn := Nat.mod_lt n (show 64 > 0 by decide)
  refine ⟨bits % 2 ^ 26 * 64 + n % 64, by omega, fun text => ?_⟩
  have hbyte : UInt8.ofNat ((bits % 2 ^ 26 * 64 + n % 64) / 2 ^ 2) = b :=
    byte_of_bits (by omega)
  rw [foldlM_sixBits rfl, push_eq _ hn]
  simp only [hbyte]
  rw [if_pos (by decide)]

/-- A fourth character gives the last byte and leaves none. -/
theorem foldlM_fourth {bits : Nat} (out : List UInt8) {n : Nat} {c : UInt8}
    (hc : bits % 4 * 64 + n % 64 = c.toNat) :
    ∃ bits', ∀ text, (sixBits n :: text).foldlM Decoder.step ⟨bits, 2, 0, out⟩ =
        text.foldlM Decoder.step ⟨bits', 0, 0, out ++ [c]⟩ := by
  have hn := Nat.mod_lt n (show 64 > 0 by decide)
  refine ⟨bits % 2 ^ 26 * 64 + n % 64, fun text => ?_⟩
  have hbyte : UInt8.ofNat ((bits % 2 ^ 26 * 64 + n % 64) / 2 ^ 0) = c :=
    byte_of_bits (by omega)
  rw [foldlM_sixBits rfl, push_eq _ hn]
  simp only [hbyte]
  rw [if_pos (by decide)]

/-- The characters of a group of three bytes and of the shorter ones. -/
theorem quad_eq (a b c : UInt8) :
    let n := a.toNat * 65536 + b.toNat * 256 + c.toNat
    quad [a, b, c] =
        [sixBits (n / 2 ^ 18), sixBits (n / 2 ^ 12), sixBits (n / 2 ^ 6), sixBits n] ∧
      (c = 0 → quad [a, b] =
        [sixBits (n / 2 ^ 18), sixBits (n / 2 ^ 12), sixBits (n / 2 ^ 6), '=']) ∧
      (b = 0 → c = 0 → quad [a] = [sixBits (n / 2 ^ 18), sixBits (n / 2 ^ 12), '=', '=']) := by
  intro n
  have hn : (a.toNat <<< 16) ||| (b.toNat <<< 8) ||| c.toNat = n := three_bytes a b c
  refine ⟨?_, ?_, ?_⟩
  · simp only [quad, List.getD_cons_zero, List.getD_cons_succ, hn, Nat.shiftRight_eq_div_pow]
    rfl
  · rintro rfl
    simp only [quad, List.getD_cons_zero, List.getD_cons_succ, List.getD_nil, hn,
      Nat.shiftRight_eq_div_pow]
    rfl
  · rintro rfl rfl
    simp only [quad, List.getD_cons_zero, List.getD_cons_succ, List.getD_nil, hn,
      Nat.shiftRight_eq_div_pow]
    rfl

theorem foldlM_lineBreak (i : Nat) (s : Decoder) (text : List Char) :
    (lineBreak i ++ text).foldlM Decoder.step s = text.foldlM Decoder.step s := by
  unfold lineBreak
  split <;> rfl

/-- The bytes by the sixes of bits of their number. -/
theorem bytes_of_sixBits {a b c : UInt8} {n : Nat}
    (hn : a.toNat * 65536 + b.toNat * 256 + c.toNat = n) :
    n / 2 ^ 18 % 64 * 4 + n / 2 ^ 12 % 64 / 16 = a.toNat ∧
      n / 2 ^ 12 % 16 * 16 + n / 2 ^ 6 % 64 / 4 = b.toNat ∧
      n / 2 ^ 6 % 4 * 64 + n % 64 = c.toNat := by
  have ha := a.toNat_lt
  have hb := b.toNat_lt
  have hc := c.toNat_lt
  omega

/-- A decoder that has no bits over takes the bytes that were encoded. -/
theorem decode_encodeFrom (i : Nat) (data : List UInt8) (bits : Nat) (out : List UInt8) :
    ∃ s : Decoder, (encodeFrom i data).foldlM Decoder.step ⟨bits, 0, 0, out⟩ = .ok s ∧
      s.out = out ++ data ∧ s.pad ≤ 2 := by
  induction i, data using encodeFrom.induct generalizing bits out with
  | case1 i => exact ⟨_, rfl, (List.append_nil out).symm, Nat.zero_le 2⟩
  | case2 i a b c rest ih =>
    have hquad := (quad_eq a b c).1
    obtain ⟨n, hn⟩ : ∃ n, a.toNat * 65536 + b.toNat * 256 + c.toNat = n := ⟨_, rfl⟩
    obtain ⟨ha, hb, hc⟩ := bytes_of_sixBits hn
    rw [hn] at hquad
    obtain ⟨bits, hbits, htwo⟩ := foldlM_two bits out ha
    obtain ⟨bits, hbits', hthird⟩ := foldlM_third (out ++ [a]) (by rw [hbits]; exact hb)
    obtain ⟨bits, hfourth⟩ := foldlM_fourth (out ++ [a] ++ [b]) (by rw [hbits']; exact hc)
    obtain ⟨s, hrest, hout, hpad⟩ := ih bits (out ++ [a] ++ [b] ++ [c])
    refine ⟨s, ?_, by rw [hout]; simp, hpad⟩
    rw [encodeFrom, List.append_assoc, foldlM_lineBreak, hquad]
    exact (htwo _).trans ((hthird _).trans ((hfourth _).trans hrest))
  | case3 i chunk hne hshort =>
    rcases chunk with _ | ⟨a, _ | ⟨b, _ | ⟨c, rest⟩⟩⟩
    · exact absurd rfl hne
    · have hquad := (quad_eq a 0 0).2.2 rfl rfl
      obtain ⟨n, hn⟩ :
          ∃ n, a.toNat * 65536 + (0 : UInt8).toNat * 256 + (0 : UInt8).toNat = n := ⟨_, rfl⟩
      obtain ⟨ha, -, -⟩ := bytes_of_sixBits hn
      rw [hn] at hquad
      obtain ⟨bits, -, htwo⟩ := foldlM_two bits out ha
      refine ⟨{ bits := bits, count := 4, pad := 2, out := out ++ [a] }, ?_, rfl, Nat.le_refl 2⟩
      rw [encodeFrom, foldlM_lineBreak, hquad]
      · exact htwo _
      · exact hne
      · exact hshort
    · have hquad := (quad_eq a b 0).2.1 rfl
      obtain ⟨n, hn⟩ : ∃ n, a.toNat * 65536 + b.toNat * 256 + (0 : UInt8).toNat = n := ⟨_, rfl⟩
      obtain ⟨ha, hb, -⟩ := bytes_of_sixBits hn
      rw [hn] at hquad
      obtain ⟨bits, hbits, htwo⟩ := foldlM_two bits out ha
      obtain ⟨bits, -, hthird⟩ := foldlM_third (out ++ [a]) (by rw [hbits]; exact hb)
      refine ⟨{ bits := bits, count := 2, pad := 1, out := out ++ [a] ++ [b] }, ?_,
        List.append_assoc out [a] [b], Nat.le_succ 1⟩
      rw [encodeFrom, foldlM_lineBreak, hquad]
      · exact (htwo _).trans (hthird _)
      · exact hne
      · exact hshort
    · exact absurd rfl (hshort a b c rest)

/-- Any text that has the characters of the encoding between white space is decoded. -/
theorem b64Decode_of_filter {text : List Char} {data : List UInt8}
    (h : text.filter (fun c => !isAsciiWhitespace c) =
      (b64Encode data).filter (fun c => !isAsciiWhitespace c)) :
    b64Decode text = .ok data := by
  obtain ⟨s, hfold, hout, hpad⟩ := decode_encodeFrom 0 data 0 []
  rw [b64Decode, foldlM_filter, h, ← foldlM_filter, b64Encode, Decoder.start, hfold]
  simp only
  rw [if_neg (Nat.not_lt.mpr hpad), hout, List.nil_append]

/-! ## The block is found -/

/-- A pattern does not stand in a text before its end, if it follows there. -/
def FirstAfter (pat pre : List Char) : Prop :=
  ∀ j, j < pre.length → ¬ pat <+: (pre ++ pat).drop j

theorem find_of_firstAfter {pat pre : List Char} (h : FirstAfter pat pre) (rest : List Char) :
    find pat (pre ++ (pat ++ rest)) = some pre.length := by
  refine find_append (fun j hj hat => h j hj ?_)
  have hsplit : (pre ++ (pat ++ rest)).drop j = (pre ++ pat).drop j ++ rest := by
    rw [← List.append_assoc, List.drop_append_of_le_length]
    rw [List.length_append]
    omega
  rw [hsplit] at hat
  refine List.prefix_of_prefix_length_le hat (List.prefix_append _ rest) ?_
  rw [List.length_drop, List.length_append]
  omega

theorem firstAfter_nil (pat : List Char) : FirstAfter pat [] :=
  fun _ hj => absurd hj (Nat.not_lt_zero _)

theorem FirstAfter.cons {c : Char} {pat pre : List Char} (h : FirstAfter pat pre)
    (hhere : ¬ pat <+: c :: (pre ++ pat)) : FirstAfter pat (c :: pre) := by
  intro j hj
  cases j with
  | zero => exact hhere
  | succ j => exact h j (Nat.lt_of_succ_lt_succ hj)

/-- A pattern does not stand in what lacks its first character. -/
theorem FirstAfter.append {c : Char} {pat pre : List Char} (h : FirstAfter (c :: pat) pre)
    {front : List Char} (hfront : c ∉ front) : FirstAfter (c :: pat) (front ++ pre) := by
  induction front with
  | nil => exact h
  | cons d front ih =>
    rw [List.mem_cons, not_or] at hfront
    refine (ih hfront.2).cons (fun hhere => ?_)
    exact hfront.1 (List.cons_prefix_cons.mp hhere).1

def dashes : List Char := ['-', '-', '-', '-', '-']

theorem beginLine_eq (label : List Char) :
    beginLine label = dashes ++ 'B' :: (['E', 'G', 'I', 'N', ' '] ++ (label ++ dashes)) := by
  have hbegin : "-----BEGIN ".toList = dashes ++ 'B' :: ['E', 'G', 'I', 'N', ' '] := by decide
  have hdashes : "-----".toList = dashes := by decide
  unfold beginLine
  rw [hbegin, hdashes, List.append_assoc, List.append_assoc, List.cons_append]

theorem endLine_eq (label : List Char) :
    endLine label = dashes ++ 'E' :: (['N', 'D', ' '] ++ (label ++ dashes)) := by
  have hend : "-----END ".toList = dashes ++ 'E' :: ['N', 'D', ' '] := by decide
  have hdashes : "-----".toList = dashes := by decide
  unfold endLine
  rw [hend, hdashes, List.append_assoc, List.append_assoc, List.cons_append]

/-- A BEGIN line stands at dashes from the first of them or not at all. -/
theorem FirstAfter.dashes {label pre : List Char} {c : Char}
    (h : FirstAfter (beginLine label) (c :: pre)) (hc : c ≠ '-')
    (hhere : ¬ beginLine label <+: Report.dashes ++ (c :: pre ++ beginLine label)) :
    FirstAfter (beginLine label) (Report.dashes ++ c :: pre) := by
  rw [beginLine_eq] at h hhere ⊢
  refine ((((h.cons ?_).cons ?_).cons ?_).cons ?_).cons hhere
  all_goals
    simp [Report.dashes, hc.symm]

theorem notMem_quad (chunk : List UInt8) : '-' ∉ quad chunk := by
  have hbits : ∀ n, sixBits n ≠ '-' := by
    intro n
    have hmask : n &&& 63 = n % 64 := Nat.and_two_pow_sub_one_eq_mod n 6
    rw [sixBits, hmask]
    exact (alphabet_spec (n % 64) (Nat.mod_lt _ (by decide))).2.2.1
  have hif : ∀ (p : Prop) [Decidable p] n, (if p then sixBits n else '=') ≠ '-' := by
    intro p _ n
    split
    · exact hbits n
    · decide
  simp only [quad, List.mem_cons, List.not_mem_nil, or_false, not_or]
  exact ⟨(hbits _).symm, (hbits _).symm, (hif _ _).symm, (hif _ _).symm⟩

theorem notMem_encodeFrom (i : Nat) (data : List UInt8) : '-' ∉ encodeFrom i data := by
  have hbreak : ∀ i, '-' ∉ lineBreak i := by
    intro i
    unfold lineBreak
    split <;> simp
  induction i, data using encodeFrom.induct with
  | case1 i => exact List.not_mem_nil
  | case2 i a b c rest ih =>
    rw [encodeFrom, List.mem_append, List.mem_append, not_or, not_or]
    exact ⟨⟨hbreak i, notMem_quad _⟩, ih⟩
  | case3 i chunk hne hshort =>
    rw [encodeFrom, List.mem_append, not_or]
    · exact ⟨hbreak i, notMem_quad _⟩
    · exact hne
    · exact hshort

/-- The lines between BEGIN and END. -/
def bodyLines (der : List UInt8) : List Char := '\n' :: (b64Encode der ++ ['\n'])

theorem notMem_bodyLines (der : List UInt8) : '-' ∉ bodyLines der := by
  have hdata := notMem_encodeFrom 0 der
  simp [bodyLines, b64Encode, hdata]

theorem pem_eq (label : List Char) (der : List UInt8) :
    pem label der = beginLine label ++ (bodyLines der ++ (endLine label ++ ['\n'])) := by
  unfold pem bodyLines
  simp only [List.cons_append, List.append_assoc, List.nil_append]

theorem b64Decode_bodyLines (der : List UInt8) : b64Decode (bodyLines der) = .ok der := by
  refine b64Decode_of_filter ?_
  have hspace : isAsciiWhitespace '\n' = true := by decide
  simp [bodyLines, List.filter_append, hspace]

/-- The block is found behind what does not bring its BEGIN line. -/
theorem pemBody_of_firstAfter {label pre : List Char} (h : FirstAfter (beginLine label) pre)
    (der : List UInt8) (post : List Char) :
    pemBody (pre ++ pem label der ++ post) label = .ok der := by
  have htext : pre ++ pem label der ++ post =
      pre ++ (beginLine label ++ (bodyLines der ++ (endLine label ++ ('\n' :: post)))) := by
    rw [pem_eq]
    simp only [List.cons_append, List.append_assoc, List.nil_append]
  have hbegin := find_of_firstAfter h (bodyLines der ++ (endLine label ++ ('\n' :: post)))
  have hend : FirstAfter (endLine label) (bodyLines der) := by
    have hnil := firstAfter_nil (endLine label)
    rw [endLine_eq] at hnil ⊢
    have hbody := hnil.append (notMem_bodyLines der)
    rwa [List.append_nil] at hbody
  have hdrop : (pre ++ (beginLine label ++
      (bodyLines der ++ (endLine label ++ ('\n' :: post))))).drop
        (pre.length + (beginLine label).length) =
      bodyLines der ++ (endLine label ++ ('\n' :: post)) := by
    rw [← List.append_assoc, ← List.length_append, List.drop_left]
  rw [htext, pemBody, hbegin]
  simp only [hdrop, find_of_firstAfter hend, List.take_left, b64Decode_bodyLines]

/-! ## What stands around a block -/

/-- What stands before a block: other text, or a block of its own. -/
inductive Piece where
  | text (t : List Char)
  | block (label : List Char) (der : List UInt8)

def Piece.chars : Piece → List Char
  | text t => t
  | block label der => pem label der

/-- Text without five dashes, that does not end in one, and blocks of other labels. -/
def Piece.Other (label : List Char) : Piece → Prop
  | text t => ¬ dashes <:+: t ∧ t.getLast? ≠ some '-'
  | block l _ => '-' ∉ l ∧ l ≠ label

theorem FirstAfter.text {label pre : List Char} (h : FirstAfter (beginLine label) pre)
    {t : List Char} (hrun : ¬ Report.dashes <:+: t) (hlast : t.getLast? ≠ some '-') :
    FirstAfter (beginLine label) (t ++ pre) := by
  induction t with
  | nil => exact h
  | cons c t ih =>
    have hrun' : ¬ Report.dashes <:+: t :=
      fun hin => hrun (hin.trans (List.suffix_cons c t).isInfix)
    have hlast' : t.getLast? ≠ some '-' := by
      cases t with
      | nil => simp
      | cons d t => rwa [List.getLast?_cons_cons] at hlast
    refine (ih hrun' hlast').cons (fun hhere => ?_)
    have hdashes : Report.dashes <+: (c :: t) ++ (pre ++ beginLine label) := by
      rw [beginLine_eq] at hhere ⊢
      rw [List.cons_append, ← List.append_assoc]
      exact (List.prefix_append _ _).trans hhere
    rcases List.prefix_or_prefix_of_prefix hdashes (List.prefix_append _ _) with hin | hout
    · exact hrun hin.isInfix
    · have hmem := hout.subset (List.getLast_mem (List.cons_ne_nil c t))
      have hdash : (c :: t).getLast (List.cons_ne_nil c t) = '-' := by
        simpa [Report.dashes] using hmem
      rw [List.getLast?_eq_some_getLast (List.cons_ne_nil c t), hdash] at hlast
      exact hlast rfl

/-- Labels without dashes are told apart where their lines begin. -/
theorem label_eq_of_start {l label rest rest' : List Char} (hl : '-' ∉ l) (hlabel : '-' ∉ label)
    (h : label ++ '-' :: rest <+: l ++ '-' :: rest') : label = l := by
  have hcut : ∀ {w : List Char} (rest : List Char), '-' ∉ w →
      (w ++ '-' :: rest).takeWhile (fun c => c ≠ '-') = w := by
    intro w rest hw
    have hall : ∀ c ∈ w, decide (c ≠ '-') = true :=
      fun c hc => decide_eq_true (fun heq => hw (heq ▸ hc))
    rw [List.takeWhile_append_of_pos hall, List.takeWhile_cons, if_neg (by simp), List.append_nil]
  obtain ⟨more, hmore⟩ := h
  rw [List.append_assoc, List.cons_append] at hmore
  rw [← hcut (rest ++ more) hlabel, hmore, hcut rest' hl]

theorem FirstAfter.block {label pre : List Char} (h : FirstAfter (beginLine label) pre)
    (hlabel : '-' ∉ label) {l : List Char} (hl : '-' ∉ l) (hne : l ≠ label) (der : List UInt8) :
    FirstAfter (beginLine label) (pem l der ++ pre) := by
  have happend : ∀ {front pre : List Char}, '-' ∉ front → FirstAfter (beginLine label) pre →
      FirstAfter (beginLine label) (front ++ pre) := by
    intro front pre hfront hpre
    rw [beginLine_eq] at hpre ⊢
    exact FirstAfter.append hpre hfront
  have hdashes : ∀ {c : Char} {pre : List Char}, c ≠ '-' → c ≠ 'B' →
      FirstAfter (beginLine label) (c :: pre) →
      FirstAfter (beginLine label) (Report.dashes ++ c :: pre) := by
    intro c pre hdash hB hpre
    refine hpre.dashes hdash ?_
    rw [beginLine_eq]
    simp [Report.dashes, hB.symm]
  have hnewline : '-' ∉ ['\n'] := by decide
  have hafter := happend hnewline h
  have hafterEnd := hdashes (by decide) (by decide) hafter
  have hendWord : '-' ∉ 'E' :: (['N', 'D', ' '] ++ l) := by simp [hl]
  have hend := hdashes (c := 'E') (by decide) (by decide) (happend hendWord hafterEnd)
  have hbody := happend (notMem_bodyLines der) hend
  have hbeginEnd := hdashes (c := '\n') (by decide) (by decide) hbody
  have hbeginWord : '-' ∉ 'B' :: (['E', 'G', 'I', 'N', ' '] ++ l) := by simp [hl]
  have hline := happend hbeginWord hbeginEnd
  have hblock := FirstAfter.dashes (c := 'B') hline (by decide) (fun hhere => ?_)
  · rw [pem_eq, beginLine_eq l, endLine_eq l]
    simpa [bodyLines] using hblock
  · rw [beginLine_eq] at hhere
    simp [Report.dashes] at hhere
    exact hne (label_eq_of_start hl hlabel hhere).symm

theorem firstAfter_pieces {label : List Char} (hlabel : '-' ∉ label) {pieces : List Piece}
    (h : ∀ p ∈ pieces, p.Other label) :
    FirstAfter (beginLine label) (pieces.flatMap Piece.chars) := by
  induction pieces with
  | nil => exact firstAfter_nil _
  | cons p pieces ih =>
    have hrest := ih (fun q hq => h q (List.mem_cons_of_mem _ hq))
    have hp := h p List.mem_cons_self
    rw [List.flatMap_cons]
    cases p with
    | text t => exact hrest.text hp.1 hp.2
    | block l der => exact hrest.block hlabel hp.1 hp.2 der

/-- A block is read back, also behind what does not bring its BEGIN line, as no text and no other
block does where labels have no dash; and base64 is decoded with any white space in it. -/
theorem pem_roundTrip (label : List Char) (der : List UInt8) :
    pemBody (pem label der) label = .ok der ∧
      (∀ pre post, FirstAfter (beginLine label) pre →
        pemBody (pre ++ pem label der ++ post) label = .ok der) ∧
      ('-' ∉ label → ∀ pieces : List Piece, (∀ p ∈ pieces, p.Other label) →
        FirstAfter (beginLine label) (pieces.flatMap Piece.chars)) ∧
      ∀ text, text.filter (fun c => !isAsciiWhitespace c) =
          (b64Encode der).filter (fun c => !isAsciiWhitespace c) →
        b64Decode text = .ok der := by
  refine ⟨?_, fun pre post hpre => pemBody_of_firstAfter hpre der post,
    fun hlabel pieces hpieces => firstAfter_pieces hlabel hpieces,
    fun text htext => b64Decode_of_filter htext⟩
  simpa using pemBody_of_firstAfter (firstAfter_nil _) der []

/-- The BEGIN line of a label with dashes begins as that of another. -/
theorem label_with_dashes :
    ¬ ∀ label der other der', other ≠ label →
      pemBody (pem other der' ++ pem label der) label = .ok der := by
  intro h
  have hread := h ['A'] [] ['A', '-', '-', '-', '-', '-'] [] (by decide)
  exact absurd hread (by decide)

end Report
end ZvolRescue
