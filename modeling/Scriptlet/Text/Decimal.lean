/-!
# Decimal numerals

Integers are written in base ten with ASCII digits, a minus sign in front of the negative ones and
no leading zeros; reading allows leading zeros.  A numeral may not be of any length: one with more
than `maxDigits` digits is not read at all, whatever its value.

Outside of source texts, digits of every script count.  Each decimal digit of Unicode (general
category Nd, as of Unicode 14) belongs to a run of ten code points that stand for 0 to 9 in order,
so a list of the zeros gives the value of them all.
-/

namespace Scriptlet.Text
namespace Decimal

/-- The most digits, leading zeros included, that a numeral is read with. -/
def maxDigits : Nat := 4300

/-- The digits of an integer, after a minus sign if it is negative. -/
def ofInt (n : Int) : List Char :=
  if n < 0 then '-' :: Nat.toDigits 10 n.natAbs else Nat.toDigits 10 n.natAbs

/-- The number that a run of ASCII digits stands for. -/
def value (digits : List Char) : Nat :=
  Nat.ofDigitChars 10 digits 0

/-- The integer of a sign and a run of ASCII digits. -/
def signedValue (negative : Bool) (digits : List Char) : Int :=
  if negative then -(value digits : Int) else (value digits : Int)

/-- The digits written for a number stand for it. -/
theorem value_toDigits (n : Nat) : value (Nat.toDigits 10 n) = n :=
  Nat.ofDigitChars_toDigits (by decide) (by decide)

/-- An integer is its sign and the digits of its magnitude. -/
theorem signedValue_toDigits_natAbs (n : Int) :
    signedValue (n < 0) (Nat.toDigits 10 n.natAbs) = n := by
  rw [signedValue, value_toDigits]
  by_cases h : n < 0
  · simp only [h, decide_true, if_true]
    omega
  · simp only [h, decide_false]
    simp only [Bool.false_eq_true, if_false]
    omega

end Decimal

/-! ## Digits of every script -/

/-- The code points of the digits for zero, lowest first. -/
def decimalZeros : List Nat :=
  [0x30, 0x660, 0x6f0, 0x7c0, 0x966, 0x9e6, 0xa66, 0xae6, 0xb66, 0xbe6, 0xc66, 0xce6, 0xd66,
   0xde6, 0xe50, 0xed0, 0xf20, 0x1040, 0x1090, 0x17e0, 0x1810, 0x1946, 0x19d0, 0x1a80, 0x1a90,
   0x1b50, 0x1bb0, 0x1c40, 0x1c50, 0xa620, 0xa8d0, 0xa900, 0xa9d0, 0xa9f0, 0xaa50, 0xabf0, 0xff10,
   0x104a0, 0x10d30, 0x11066, 0x110f0, 0x11136, 0x111d0, 0x112f0, 0x11450, 0x114d0, 0x11650,
   0x116c0, 0x11730, 0x118e0, 0x11950, 0x11c50, 0x11d50, 0x11da0, 0x16a60, 0x16ac0, 0x16b50,
   0x1d7ce, 0x1d7d8, 0x1d7e2, 0x1d7ec, 0x1d7f6, 0x1e140, 0x1e2f0, 0x1e950, 0x1fbf0]

/-- The value of a decimal digit of any script; none for every other character. -/
def decimalDigit? (c : Char) : Option Nat :=
  decimalZeros.findSome? fun base =>
    if base ≤ c.toNat && c.toNat < base + 10 then some (c.toNat - base) else none

end Scriptlet.Text
