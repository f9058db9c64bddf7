import Memsift.Decimal.Shortest
import Memsift.Text.Numeral

/-!
# Layouts of decimals

How the shortest decimal of a floating-point word is laid out as text: with all its places or in scientific form,
with or without a fraction on whole numbers.
-/

namespace Memsift.Decimal

open Binary (Format Value)

/-- A way to write floating-point words. -/
structure Layout where
  tie : Tie
  /-- The exponents of the first digit for which no power of ten is split off; all of them if absent. -/
  positional : Option (Int × Int)
  /-- Whether a whole number is written with a zero after the point. -/
  pointZero : Bool
  notANumber : String
  infinity : String

/-- The digits of a positive number without zeros at the end, and the exponent of the first of them. -/
def scientificParts (x : Numeral) : List Char × Int :=
  let cs := Text.decimal x.digits
  let kept := (cs.reverse.dropWhile (· == '0')).reverse
  (kept, x.exponent + (cs.length - 1 : Nat))

/-- All places of a number whose first digit has the exponent `e`. -/
def positionalText (pointZero : Bool) (digits : List Char) (e : Int) : List Char :=
  if e < 0 then '0' :: '.' :: (List.replicate ((-e).toNat - 1) '0' ++ digits)
  else
    let whole := e.toNat + 1
    if digits.length ≤ whole then
      digits ++ List.replicate (whole - digits.length) '0' ++ (if pointZero then ['.', '0'] else [])
    else digits.take whole ++ '.' :: digits.drop whole

/-- One digit before the point, and an exponent with its sign. -/
def scientificText (digits : List Char) (e : Int) : List Char :=
  let fraction := digits.drop 1
  digits.take 1 ++ (if fraction.isEmpty then [] else '.' :: fraction) ++
    'e' :: (if e < 0 then '-' else '+') :: Text.decimal e.natAbs

namespace Layout

def writeDecimal (l : Layout) (x : Numeral) : List Char :=
  let (digits, e) := scientificParts x
  match l.positional with
  | some (low, high) =>
    if low ≤ e ∧ e ≤ high then positionalText l.pointZero digits e else scientificText digits e
  | none => positionalText l.pointZero digits e

/-- The text of the word with the given code. -/
def write (l : Layout) (f : Format) (code : Nat) : String :=
  match f.decode code with
  | .nan => l.notANumber
  | .infinite s => (if s then "-" else "") ++ l.infinity
  | .finite s n d =>
    let text := if n = 0 then positionalText l.pointZero ['0'] 0
      else l.writeDecimal (shortest f l.tie (f.roundFraction n d) n d)
    String.ofList (if s then '-' :: text else text)

end Layout
end Memsift.Decimal
