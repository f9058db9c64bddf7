import Memsift.Binary.Format

/-!
# Shortest decimals

The shortest decimal that reads back as a given member of a floating-point format.  Of all decimals with that few
digits that read back, the one nearest to the member is taken; where two are equally near, a tie rule decides.
-/

namespace Memsift.Decimal

open Binary (Format)

/-- The decimal number `digits * 10 ^ exponent`. -/
structure Numeral where
  digits : Nat
  exponent : Int
deriving DecidableEq, Repr

/-- Which of two equally near decimals is taken. -/
inductive Tie where
  | even | up
deriving DecidableEq, Repr

/-- Whether `10 ^ e` is at most the fraction `n / d`. -/
def tenPowLe (n d : Nat) (e : Int) : Bool := d * Nat.pow 10 e.toNat ≤ n * Nat.pow 10 (-e).toNat

/-- The exponent of the first significant digit of the positive fraction `n / d`. -/
def leadingExponent (n d : Nat) : Int :=
  let guess := Binary.log2 n d * 30103 / 100000
  if tenPowLe n d (guess + 1) then guess + 1 else if tenPowLe n d guess then guess else guess - 1

/-- The decimals with last place `10 ^ e` on either side of `n / d` that round to `code`, the best one first. -/
def candidates (f : Format) (tie : Tie) (code n d : Nat) (e : Int) : List Numeral :=
  let num := n * Nat.pow 10 (-e).toNat
  let den := d * Nat.pow 10 e.toNat
  let below := num / den
  let rest := num % den
  let upFirst := den < 2 * rest || (2 * rest == den && (tie == .up || below % 2 == 1))
  let order := if upFirst then [below + 1, below] else [below, below + 1]
  (order.filter fun digits => f.encode (.ofDecimal false digits e) == code).map (⟨·, e⟩)

/-- Tries one digit after another, at most `fuel` of them. -/
def search (f : Format) (tie : Tie) (code n d : Nat) (e : Int) : Nat → Numeral
  | 0 => ⟨0, 0⟩
  | fuel + 1 =>
    match candidates f tie code n d e with
    | best :: _ => best
    | [] => search f tie code n d (e - 1) fuel

/-- The shortest decimal for the positive fraction `n / d` whose code is `code`; seventeen digits always do. -/
def shortest (f : Format) (tie : Tie) (code n d : Nat) : Numeral :=
  search f tie code n d (leadingExponent n d) 17

end Memsift.Decimal
