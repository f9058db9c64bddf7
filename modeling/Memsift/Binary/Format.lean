import Memsift.Binary.Value

/-!
# Floating-point formats

The interchange formats of binary floating point: a sign, a biased exponent and a fraction, packed into one code.
A value is rounded to the nearest member of the format, a tie to the even one; magnitudes from half a step above
the largest member on become infinite.
-/

namespace Memsift.Binary

/-- The number of significant bits, the leading one included, and the number of exponent bits. -/
structure Format where
  precision : Nat
  exponentBits : Nat
deriving DecidableEq, Repr

def binary32 : Format := ⟨24, 8⟩

def binary64 : Format := ⟨53, 11⟩

/-- The quotient rounded to the nearest integer, a tie to the even one. -/
def roundDiv (n d : Nat) : Nat :=
  let q := n / d
  let r := n % d
  if d < 2 * r ∨ (2 * r = d ∧ q % 2 = 1) then q + 1 else q

/-- The largest `e` such that `2 ^ e` is at most the positive fraction `n / d`. -/
def log2 (n d : Nat) : Int :=
  let e : Int := (n.log2 : Int) - d.log2
  if n <<< (-e).toNat < d <<< e.toNat then e - 1 else e

namespace Format

/-- The number of codes of one sign with the same exponent. -/
def step (f : Format) : Nat := 1 <<< (f.precision - 1)

/-- The code of the sign alone. -/
def signCode (f : Format) : Nat := (1 <<< f.exponentBits) * f.step

/-- The code of the positive infinity; those above it, up to the sign, stand for no number. -/
def infinityCode (f : Format) : Nat := (1 <<< f.exponentBits - 1) * f.step

/-- The exponent of the last place of the smallest members. -/
def minExponent (f : Format) : Int := 2 - (1 <<< (f.exponentBits - 1) : Nat) - (f.precision - 1 : Nat)

/-- The code of the member nearest to a fraction.  A significand that rounds up to the next power of two carries
into the exponent by itself. -/
def roundFraction (f : Format) (n d : Nat) : Nat :=
  if n = 0 then 0
  else
    let e := max (log2 n d - (f.precision - 1 : Nat)) f.minExponent
    let m := roundDiv (n <<< (-e).toNat) (d <<< e.toNat)
    min ((e - f.minExponent).toNat * f.step + m) f.infinityCode

def encode (f : Format) : Value → Nat
  | .nan => f.infinityCode + f.step / 2
  | .infinite s => (if s then f.signCode else 0) + f.infinityCode
  | .finite s n d => (if s then f.signCode else 0) + f.roundFraction n d

def decode (f : Format) (code : Nat) : Value :=
  let negative := code / f.signCode % 2 == 1
  let magnitude := code % f.signCode
  let exponent := magnitude / f.step
  let fraction := magnitude % f.step
  if magnitude = f.infinityCode then .infinite negative
  else if f.infinityCode < magnitude then .nan
  else if exponent = 0 then .ofScaled negative fraction f.minExponent
  else .ofScaled negative (f.step + fraction) (f.minExponent + (exponent - 1 : Nat))

/-- The nearest member, as a value. -/
def round (f : Format) (x : Value) : Value := f.decode (f.encode x)

/-- The distance from one to the next member. -/
def epsilon (f : Format) : Value := .finite false 1 f.step

/-- Whether the rounded difference is at most the distance from one to the next member. -/
def close (f : Format) (x y : Value) : Bool := (f.round (x.sub y)).abs.le f.epsilon

end Format
end Memsift.Binary
