/-!
# Numerals

Natural numbers and integers written in a base up to sixteen.  A numeral has one digit or more, any number of
leading zeros, and one sign at most: a plus for natural numbers, a plus or a minus for integers.
-/

namespace Memsift.Text

/-- The value of a digit below `base`; letters stand for ten and more in either case. -/
def digitValue? (base : Nat) (c : Char) : Option Nat :=
  let value :=
    if c.isDigit then c.toNat - '0'.toNat
    else if c.isLower then c.toNat - 'a'.toNat + 10
    else if c.isUpper then c.toNat - 'A'.toNat + 10
    else base
  if value < base then some value else none

/-- The number that a list of digits denotes, the most significant digit first. -/
def ofDigits (base : Nat) (digits : List Nat) : Nat := digits.foldl (fun n d => n * base + d) 0

/-- One digit or more. -/
def digits? (base : Nat) (cs : List Char) : Option Nat :=
  if cs.isEmpty then none else (cs.mapM (digitValue? base)).map (ofDigits base)

/-- Digits that may follow a plus. -/
def natural? (base : Nat) : List Char → Option Nat
  | '+' :: cs => digits? base cs
  | cs => digits? base cs

/-- Digits that may follow a plus or a minus. -/
def integer? (base : Nat) : List Char → Option Int
  | '-' :: cs => (digits? base cs).map fun n => -(n : Int)
  | cs => (natural? base cs).map fun n => (n : Int)

/-- The digits of a number in base ten. -/
def decimal (n : Nat) : List Char := Nat.toDigits 10 n

/-- The digits of a number in base sixteen, letters in lower case, zeros in front up to `width` digits. -/
def hexadecimal (width n : Nat) : List Char := List.leftpad width '0' (Nat.toDigits 16 n)

/-- A minus and the digits of the absolute value, or the digits alone. -/
def signedDecimal (i : Int) : List Char :=
  if i < 0 then '-' :: decimal i.natAbs else decimal i.natAbs

end Memsift.Text
