/-!
Decimal numbers of 32 bits: read from a run of ASCII digits, leading zeros allowed, and written
without any.
-/

namespace Cookbook.Text

/-- The number that a run of digits stands for, if it fits in 32 bits. -/
def word? (cs : List Char) : Option UInt32 :=
  if cs.isEmpty || !cs.all Char.isDigit then none
  else
    let value := Nat.ofDigitChars 10 cs 0
    if h : value < UInt32.size then some (UInt32.ofNatLT value h) else none

def digits (n : UInt32) : List Char := Nat.toDigits 10 n.toNat

theorem word?_digits (n : UInt32) : word? (digits n) = some n := by
  have isDigit : (digits n).all Char.isDigit = true := by
    rw [List.all_eq_true]
    exact fun c member => Nat.isDigit_of_mem_toDigits (by decide) (by decide) member
  have nonempty : (digits n).isEmpty = false := by
    simp [digits]
  have value : Nat.ofDigitChars 10 (digits n) 0 = n.toNat :=
    Nat.ofDigitChars_toDigits (by decide) (by decide)
  simp [word?, isDigit, nonempty, value, n.toNat_lt]

end Cookbook.Text
