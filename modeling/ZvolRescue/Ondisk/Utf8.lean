import ZvolRescue.Ondisk.NvlistEncode

/-!
# Bytes that are text

What is decoded as UTF-8 has the bytes that it was decoded from (`asBytes_of_fromUtf8`).
-/

namespace ZvolRescue
namespace Ondisk

open Encode

theorem isSecond_bounds {b0 b1 : UInt8} (h : isSecond b0 b1 = true) :
    128 ≤ b1.toNat ∧ b1.toNat ≤ 191 ∧ (b0.toNat = 0xe0 → 0xa0 ≤ b1.toNat) ∧
      (b0.toNat = 0xed → b1.toNat ≤ 0x9f) ∧ (b0.toNat = 0xf0 → 0x90 ≤ b1.toNat) ∧
      (b0.toNat = 0xf4 → b1.toNat ≤ 0x8f) := by
  rw [isSecond] at h
  simp only [← UInt8.toNat_inj, UInt8.le_iff_toNat_le, UInt8.reduceToNat,
    apply_ite (fun b : Bool => b = true), isCont_iff, decide_eq_true_eq] at h
  split_ifs at h <;> omega

theorem ofNat_eq (b : UInt8) {n : Nat} (h : n = b.toNat) : UInt8.ofNat n = b := by
  rw [h, UInt8.ofNat_toNat]

theorem val_ofNat (n : Nat) (h : n < 0xd800 ∨ 0xdfff < n ∧ n < 0x110000) :
    (Char.ofNat n).val.toNat = n := by
  have hvalid : n.isValidChar := h
  rw [Char.ofNat, dif_pos hvalid]
  rfl

/-! ## The bytes of a character -/

section Encode

variable {b0 b1 b2 b3 : UInt8}

theorem encode_one (h0 : b0.toNat < 0x80) :
    String.utf8EncodeChar (Char.ofNat b0.toNat) = [b0] := by
  have hval := val_ofNat b0.toNat (by omega)
  rw [String.utf8EncodeChar, hval]
  rw [if_pos (by omega), UInt8.ofNat_toNat]

theorem encode_two (h0 : 0xc2 ≤ b0.toNat) (h0' : b0.toNat ≤ 0xdf) (h1 : isCont b1 = true) :
    String.utf8EncodeChar (Char.ofNat (b0.toNat % 32 * 64 + contBits b1)) = [b0, b1] := by
  obtain ⟨hlow, hhigh⟩ := isCont_iff.mp h1
  rw [contBits]
  have hval := val_ofNat (b0.toNat % 32 * 64 + b1.toNat % 64) (by omega)
  rw [String.utf8EncodeChar, hval]
  rw [if_neg (by omega), if_pos (by omega), ofNat_eq b0 (by omega),
    ofNat_eq b1 (by omega)]

theorem encode_three (h0 : 0xe0 ≤ b0.toNat) (h0' : b0.toNat ≤ 0xef) (h1 : isSecond b0 b1 = true)
    (h2 : isCont b2 = true) :
    String.utf8EncodeChar
      (Char.ofNat (b0.toNat % 16 * 4096 + contBits b1 * 64 + contBits b2)) = [b0, b1, b2] := by
  obtain ⟨hlow, hhigh, he0, hed, -, -⟩ := isSecond_bounds h1
  obtain ⟨hlow2, hhigh2⟩ := isCont_iff.mp h2
  rw [contBits, contBits]
  have hval := val_ofNat
    (b0.toNat % 16 * 4096 + b1.toNat % 64 * 64 + b2.toNat % 64) (by omega)
  rw [String.utf8EncodeChar, hval]
  rw [if_neg (by omega), if_neg (by omega), if_pos (by omega), ofNat_eq b0 (by omega),
    ofNat_eq b1 (by omega), ofNat_eq b2 (by omega)]

theorem encode_four (h0 : 0xf0 ≤ b0.toNat) (h0' : b0.toNat ≤ 0xf4) (h1 : isSecond b0 b1 = true)
    (h2 : isCont b2 = true) (h3 : isCont b3 = true) :
    String.utf8EncodeChar (Char.ofNat (b0.toNat % 8 * 262144 + contBits b1 * 4096 +
      contBits b2 * 64 + contBits b3)) = [b0, b1, b2, b3] := by
  obtain ⟨hlow, hhigh, -, -, hf0, hf4⟩ := isSecond_bounds h1
  obtain ⟨hlow2, hhigh2⟩ := isCont_iff.mp h2
  obtain ⟨hlow3, hhigh3⟩ := isCont_iff.mp h3
  rw [contBits, contBits, contBits]
  have hval := val_ofNat (b0.toNat % 8 * 262144 + b1.toNat % 64 * 4096 +
    b2.toNat % 64 * 64 + b3.toNat % 64) (by omega)
  rw [String.utf8EncodeChar, hval]
  rw [if_neg (by omega), if_neg (by omega), if_neg (by omega), ofNat_eq b0 (by omega),
    ofNat_eq b1 (by omega), ofNat_eq b2 (by omega),
    ofNat_eq b3 (by omega)]

end Encode

/-- A character that is read stands there by its bytes. -/
theorem utf8Head_sound {bytes : List UInt8} {c : Char} {n : Nat}
    (h : utf8Head bytes = (some c, n)) :
    0 < n ∧ n ≤ bytes.length ∧ String.utf8EncodeChar c = bytes.take n := by
  fun_cases utf8Head bytes
  case case2 b0 rest h0 =>
    simp only [utf8Head, if_pos h0] at h
    cases h
    exact ⟨by simp, by simp, encode_one (UInt8.lt_iff_toNat_lt.mp h0)⟩
  case case3 b0 h0 hlead b1 rest h1 =>
    simp only [utf8Head, if_neg h0, if_pos hlead, if_pos h1] at h
    cases h
    simp only [UInt8.le_iff_toNat_le, UInt8.reduceToNat] at hlead
    exact ⟨by simp, by simp, encode_two hlead.1 hlead.2 h1⟩
  case case6 b0 h0 hlead' hlead b1 h1 b2 rest h2 =>
    simp only [utf8Head, if_neg h0, if_neg hlead', if_pos hlead, if_pos h1, if_pos h2] at h
    cases h
    simp only [UInt8.le_iff_toNat_le, UInt8.reduceToNat] at hlead
    exact ⟨by simp, by simp, encode_three hlead.1 hlead.2 h1 h2⟩
  case case11 b0 h0 hlead'' hlead' hlead b1 h1 b2 h2 b3 rest h3 =>
    simp only [utf8Head, if_neg h0, if_neg hlead'', if_neg hlead', if_pos hlead, if_pos h1,
      if_pos h2, if_pos h3] at h
    cases h
    simp only [UInt8.le_iff_toNat_le, UInt8.reduceToNat] at hlead
    exact ⟨by simp, by simp, encode_four hlead.1 hlead.2 h1 h2 h3⟩
  -- Everything else is no character.
  all_goals simp [utf8Head, *] at h

/-! ## Texts -/

theorem utf8Chars_sound {chars : List Char} : ∀ {fuel : Nat} {bytes : List UInt8},
    bytes.length ≤ fuel → utf8Chars fuel bytes = chars.map some →
      chars.flatMap String.utf8EncodeChar = bytes := by
  induction chars with
  | nil =>
    intro fuel bytes hfuel h
    cases fuel with
    | zero => exact (List.eq_nil_of_length_eq_zero (by omega)).symm
    | succ fuel =>
      rw [utf8Chars] at h
      split at h
      · rename_i hempty
        exact (List.isEmpty_iff.mp hempty).symm
      · cases h
  | cons c chars ih =>
    intro fuel bytes hfuel h
    cases fuel with
    | zero => cases h
    | succ fuel =>
      rw [utf8Chars] at h
      split at h
      · cases h
      · obtain ⟨hhead, hrest⟩ := List.cons.inj h
        have hread : utf8Head bytes = (some c, (utf8Head bytes).2) := Prod.ext hhead rfl
        obtain ⟨hpos, hle, hbytes⟩ := utf8Head_sound hread
        have htail := ih (by rw [List.length_drop]; omega) hrest
        rw [List.flatMap_cons, hbytes, htail, List.take_append_drop]

theorem of_mapM_id {α : Type} {l : List (Option α)} : ∀ {r : List α}, l.mapM id = some r →
    l = r.map some := by
  induction l with
  | nil =>
    intro r h
    cases h
    rfl
  | cons a l ih =>
    intro r h
    rw [List.mapM_cons] at h
    obtain ⟨x, hx, h⟩ := Option.bind_eq_some_iff.mp h
    obtain ⟨rest, hrest, h⟩ := Option.bind_eq_some_iff.mp h
    cases h
    rw [List.map_cons, ← ih hrest, ← hx]
    rfl

/-- What is decoded has the bytes it was decoded from. -/
theorem asBytes_of_fromUtf8 {bytes : List UInt8} {text : String}
    (h : fromUtf8 bytes = some text) : asBytes text = bytes := by
  obtain ⟨chars, hchars, rfl⟩ := Option.map_eq_some_iff.mp h
  have hall := of_mapM_id hchars
  rw [asBytes_eq, String.toList_ofList, utf8Chars_sound (Nat.le_refl _) hall]

end Ondisk
end ZvolRescue
