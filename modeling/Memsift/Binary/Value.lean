/-!
# Floating-point values

What a floating-point word can stand for: a signed fraction, a signed infinity, or no number.  The arithmetic here
is exact; rounding is the business of a format.
-/

namespace Memsift.Binary

/-- A fraction has a sign of its own, so that there are two zeros. -/
inductive Value where
  | nan
  | infinite (negative : Bool)
  | finite (negative : Bool) (num den : Nat)
deriving DecidableEq, Repr

namespace Value

/-- The numerator with the sign of the fraction. -/
def signed (negative : Bool) (n : Nat) : Int := if negative then -(n : Int) else n

def ofInt (i : Int) : Value := finite (i < 0) i.natAbs 1

/-- The fraction `m * 2 ^ e`. -/
def ofScaled (negative : Bool) (m : Nat) (e : Int) : Value :=
  finite negative (m <<< e.toNat) (1 <<< (-e).toNat)

/-- The decimal number `m * 10 ^ e`.  Beyond 400 places it is as good as infinite or zero in every format here. -/
def ofDecimal (negative : Bool) (m : Nat) (e : Int) : Value :=
  let magnitude := (Nat.toDigits 10 m).length + e
  if m = 0 ∨ magnitude < -400 then finite negative 0 1
  else if 400 < magnitude then infinite negative
  else finite negative (m * Nat.pow 10 e.toNat) (Nat.pow 10 (-e).toNat)

def neg : Value → Value
  | nan => nan
  | infinite s => infinite !s
  | finite s n d => finite (!s) n d

def abs : Value → Value
  | nan => nan
  | infinite _ => infinite false
  | finite _ n d => finite false n d

/-- A sum of zero is negative only if both terms are. -/
def add : Value → Value → Value
  | nan, _ => nan
  | _, nan => nan
  | infinite s, infinite t => if s = t then infinite s else nan
  | infinite s, _ => infinite s
  | _, infinite t => infinite t
  | finite s n d, finite t m e =>
    let sum := signed s n * e + signed t m * d
    finite (if sum = 0 then s && t else sum < 0) sum.natAbs (d * e)

def sub (x y : Value) : Value := x.add y.neg

def mul : Value → Value → Value
  | nan, _ => nan
  | _, nan => nan
  | infinite s, infinite t => infinite (s ^^ t)
  | infinite s, finite t m _ => if m = 0 then nan else infinite (s ^^ t)
  | finite s n _, infinite t => if n = 0 then nan else infinite (s ^^ t)
  | finite s n d, finite t m e => finite (s ^^ t) (n * m) (d * e)

def div : Value → Value → Value
  | nan, _ => nan
  | _, nan => nan
  | infinite _, infinite _ => nan
  | infinite s, finite t _ _ => infinite (s ^^ t)
  | finite s _ _, infinite t => finite (s ^^ t) 0 1
  | finite s n d, finite t m e =>
    if m = 0 then if n = 0 then nan else infinite (s ^^ t) else finite (s ^^ t) (n * e) (d * m)

/-- No number compares with nothing, and the two zeros are equal. -/
def compare? : Value → Value → Option Ordering
  | nan, _ => none
  | _, nan => none
  | infinite s, infinite t => some (if s = t then .eq else if s then .lt else .gt)
  | infinite s, finite _ _ _ => some (if s then .lt else .gt)
  | finite _ _ _, infinite t => some (if t then .gt else .lt)
  | finite s n d, finite t m e => some (compare (signed s n * e) (signed t m * d))

def lt (x y : Value) : Bool := x.compare? y == some .lt

def le (x y : Value) : Bool := x.lt y || x.compare? y == some .eq

/-- The integer part, brought into the range from `low` to `high`; zero for no number. -/
def truncate (low high : Int) : Value → Int
  | nan => 0
  | infinite s => if s then low else high
  | finite s n d => max low (min high (signed s (n / d)))

end Value
end Memsift.Binary
