import Mathlib.Init

/-!
# Parse errors and their texts
-/

namespace ZvolRescue
namespace Ondisk

/-- The digits of `n` in lower-case hexadecimal, at least `width` of them. -/
def hexDigits (width n : Nat) : String :=
  let digits := Nat.toDigits 16 n
  String.ofList (List.replicate (width - digits.length) '0' ++ digits)

def hex (n : Nat) : String := "0x" ++ hexDigits 0 n

inductive ParseError where
  | truncated (needed got : Nat)
  | badMagic (magic : Nat)
  | malformed (what : String) (at_ : Nat)
  deriving DecidableEq, Repr

def ParseError.text : ParseError → String
  | truncated needed got => s!"truncated: need {needed} bytes, got {got}"
  | badMagic 0 => "empty (magic is zero)"
  | badMagic m => "bad magic 0x" ++ hexDigits 16 m
  | malformed what at_ => s!"malformed: {what} at byte {at_}"

end Ondisk
end ZvolRescue
