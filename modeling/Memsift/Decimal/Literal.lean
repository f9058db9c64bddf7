import Memsift.Binary.Value
import Memsift.Text.Numeral

/-!
# Decimal literals

Reading a decimal number: an optional sign, digits with an optional point and at least one digit around it, and an
optional power of ten.  The names of the infinities and of no number are read too, in any case.
-/

namespace Memsift.Decimal

open Binary (Value)

/-- An optional sign, and whether it is a minus. -/
def splitSign : List Char → Bool × List Char
  | '-' :: cs => (true, cs)
  | '+' :: cs => (false, cs)
  | cs => (false, cs)

/-- The exponent written after the digits: nothing, or `e`, an optional sign and one digit or more. -/
def exponent? : List Char → Option Int
  | [] => some 0
  | c :: cs => if c.toLower = 'e' then Text.integer? 10 cs else none

/-- A number without its sign. -/
def magnitude? (negative : Bool) (cs : List Char) : Option Value :=
  let whole := cs.takeWhile Char.isDigit
  let rest := cs.dropWhile Char.isDigit
  let (fraction, rest) := match rest with
    | '.' :: rest => (rest.takeWhile Char.isDigit, rest.dropWhile Char.isDigit)
    | _ => ([], rest)
  match Text.digits? 10 (whole ++ fraction), exponent? rest with
  | some m, some e => some (.ofDecimal negative m (e - fraction.length))
  | _, _ => none

def value? (cs : List Char) : Option Value :=
  let (negative, body) := splitSign cs
  match String.ofList (body.map Char.toLower) with
  | "nan" => some .nan
  | "inf" | "infinity" => some (.infinite negative)
  | _ => magnitude? negative body

end Memsift.Decimal
