import Memsift.Json
import Memsift.ScanValue

/-!
# JSON numbers

What a number literal means: an integer if it is written as one and fits into 64 bits, else a double.  A double is
made of at most 64 bits of leading digits and one multiplication or division by a power of ten, so it can differ from
the nearest double in the last place.  Literals beyond the range of doubles mean nothing.
-/

namespace Memsift.Json

open Binary (Value binary64)

inductive Number where
  | integer (i : Int)
  | real (word : Word (.float .double))

/-- Appends digits to a number while it stays below 2^64; the digits that did not fit are left over. -/
def absorb (significand : Nat) : List Char → Nat × List Char
  | [] => (significand, [])
  | c :: cs =>
    let next := significand * 10 + (c.toNat - '0'.toNat)
    if next < UInt64.size then absorb next cs else (significand, c :: cs)

/-- The double nearest to a power of ten. -/
def powerOfTen (e : Nat) : Value := binary64.round (.ofDecimal false 1 e)

/-- The greatest number of places that are divided off at once. -/
def placesAtOnce : Nat := 308

/-- Divides a number of times by the greatest power of ten; a zero stays. -/
def shrinkTimes (x : Value) : Nat → Value
  | 0 => x
  | rounds + 1 =>
    if x.compare? (.ofInt 0) == some .eq then x
    else shrinkTimes (binary64.round (x.div (powerOfTen placesAtOnce))) rounds

/-- Divides by a power of ten of any size. -/
def shrink (x : Value) (places : Nat) : Value :=
  let rounds := (places - 1) / placesAtOnce
  binary64.round ((shrinkTimes x rounds).div (powerOfTen (places - rounds * placesAtOnce)))

/-- The double for `significand * 10 ^ e`, if it is finite. -/
def scaled? (significand : Nat) (e : Int) : Option Value :=
  let x := binary64.round (.ofInt significand)
  if significand = 0 then some x
  else if e < 0 then some (shrink x e.natAbs)
  else if placesAtOnce < e then none
  else
    match binary64.round (x.mul (powerOfTen e.natAbs)) with
    | .infinite _ => none
    | y => some y

/-- The exponent of a literal: the number after `e`, or zero. -/
def exponentOf : List Char → Int
  | [] => 0
  | _ :: cs => (Text.integer? 10 cs).getD 0

/-- The greatest exponent that is taken at its value. -/
def exponentLimit : Int := 0x7FFFFFFF

namespace Number

private def ofDouble (negative : Bool) (x : Value) : Number :=
  real (Word.ofValue .double (if negative then x.neg else x))

def ofLiteral? (literal : String) : Option Number :=
  let (negative, cs) := Decimal.splitSign literal.toList
  let (significand, dropped) := absorb 0 (cs.takeWhile Char.isDigit)
  let rest := cs.dropWhile Char.isDigit
  if rest.isEmpty && dropped.isEmpty && !negative then some (integer significand)
  else if rest.isEmpty && dropped.isEmpty && 0 < significand && significand ≤ 0x8000000000000000 then
    some (integer (-(significand : Int)))
  else
    let (significand, fractionDigits, rest) := match rest with
      | '.' :: rest =>
        let fraction := rest.takeWhile Char.isDigit
        let (significand, left) := absorb significand fraction
        (significand, fraction.length - left.length, rest.dropWhile Char.isDigit)
      | _ => (significand, 0, rest)
    let e := exponentOf rest
    if significand ≠ 0 ∧ exponentLimit < e then none
    else if significand = 0 ∨ e < -exponentLimit then some (ofDouble negative (.ofInt 0))
    else (scaled? significand (dropped.length - fractionDigits + e)).map (ofDouble negative)

/-- The number as a word of the type: integers in range for integer types, anything for floating-point types. -/
def toWord? (t : NumberType) : Number → Option (Word t)
  | integer i =>
    match t with
    | .float p => some (Word.ofValue p (.ofInt i))
    | t => ScanValue.wordOfInt? t i
  | real word =>
    match t with
    | .float p => some (Word.cast (.float .double) (.float p) word)
    | _ => none

end Number

/-- The integer that a literal stands for, unless it is negative. -/
def natural? (literal : String) : Option Nat :=
  match Number.ofLiteral? literal with
  | some (.integer i) => if i < 0 then none else some i.toNat
  | _ => none

mutual

/-- Whether every number means something and every string is a text. -/
def sound : Json → Bool
  | .number literal => (Number.ofLiteral? literal).isSome
  | .string content => content.isSome
  | .array items => soundItems items
  | .object members => soundMembers members
  | _ => true

def soundItems : List Json → Bool
  | [] => true
  | v :: vs => sound v && soundItems vs

def soundMembers : List (Option String × Json) → Bool
  | [] => true
  | (key, v) :: ms => key.isSome && sound v && soundMembers ms

end

/-- The member with a key: absent if it is missing, and no answer at all if it is given twice. -/
def member? {α : Type} (members : List (Option String × α)) (key : String) : Option (Option α) :=
  match members.filter fun m => m.1 == some key with
  | [] => some none
  | [(_, v)] => some (some v)
  | _ => none

/-- The member with a key that must be there. -/
def required? {α : Type} (members : List (Option String × α)) (key : String) : Option α :=
  (member? members key).join

end Memsift.Json
