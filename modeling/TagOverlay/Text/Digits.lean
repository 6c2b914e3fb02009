import TagOverlay.Text.Basic

/-! Digits: numbers written to a base up to sixteen, with letters of either case. -/
namespace TagOverlay.Text

/-- The value of a hexadecimal digit. -/
def digitValue? (c : Char) : Option Nat :=
  if '0' ≤ c ∧ c ≤ '9' then some (c.toNat - '0'.toNat)
  else if 'a' ≤ c ∧ c ≤ 'f' then some (c.toNat - 'a'.toNat + 10)
  else if 'A' ≤ c ∧ c ≤ 'F' then some (c.toNat - 'A'.toNat + 10)
  else none

/-- Whether the character is a digit to this base. -/
def isDigitOf (base : Nat) (c : Char) : Bool :=
  (digitValue? c).any (· < base)

/-- The number that the digits write; a character that is no digit counts as zero. -/
def numberOf (base : Nat) (digits : Text) : Nat :=
  digits.foldl (fun number c => base * number + (digitValue? c).getD 0) 0

/-- More digits make a number no smaller. -/
theorem le_foldl_digits (base : Nat) (positive : 0 < base) (digits : Text) (number : Nat) :
    number ≤ digits.foldl (fun number c => base * number + (digitValue? c).getD 0) number := by
  induction digits generalizing number with
  | nil => simp
  | cons c rest ih =>
      have := Nat.le_mul_of_pos_left number positive
      exact Nat.le_trans (by omega) (ih (base * number + (digitValue? c).getD 0))

/-- The number that a nonempty row of digits to this base writes. -/
def number? (base : Nat) (digits : Text) : Option Nat :=
  if digits.isEmpty || !digits.all (isDigitOf base) then none else some (numberOf base digits)

/-- The digits of a number to this base, without leading zeros, letters in lower case. -/
def digitsOf (base number : Nat) : Text :=
  Nat.toDigits base number

/-- Digits with zeros before them up to a length. -/
def padDigits (length : Nat) (digits : Text) : Text :=
  List.replicate (length - digits.length) '0' ++ digits

/-- The character of a code point, unless it is half of a surrogate pair or too large. -/
def scalar? (code : Nat) : Option Char :=
  if code.isValidChar then some (Char.ofNat code) else none

end TagOverlay.Text
