import Memsift.Binary.Format
import Memsift.Decimal.Literal
import Memsift.Toml

/-!
# Unquoted values in TOML

Booleans, integers, floating-point numbers, dates and times.  Single underscores may stand between the digits of a
number, and a decimal number begins with a zero only if nothing comes before the point.
-/

namespace Memsift.Toml

/-! ### Numbers -/

/-- Digits in a base without the underscores between them. -/
def ungrouped? (base : Nat) : List Char → Option (List Nat)
  | [] => none
  | [c] => (Text.digitValue? base c).map ([·])
  | c :: '_' :: rest => digit c (ungrouped? base rest)
  | c :: rest => digit c (ungrouped? base rest)
where
  digit (c : Char) (rest : Option (List Nat)) : Option (List Nat) :=
    match Text.digitValue? base c, rest with
    | some d, some ds => some (d :: ds)
    | _, _ => none

/-- Digits in base ten without needless zeros in front. -/
def whole? (cs : List Char) : Option (List Nat) :=
  if cs.head? = some '0' ∧ cs.length ≠ 1 then none else ungrouped? 10 cs

/-- An integer that is in range. -/
def bounded? (i : Int) : Option Toml := if low ≤ i ∧ i ≤ high then some (.integer i) else none

/-- Decimal digits after a sign, or hexadecimal, octal or binary ones after `0x`, `0o` or `0b`. -/
def integer? (cs : List Char) : Option Toml :=
  let prefixed base body := (ungrouped? base body).bind fun ds => bounded? (Text.ofDigits base ds : Nat)
  match cs with
  | '0' :: 'x' :: body => prefixed 16 body
  | '0' :: 'o' :: body => prefixed 8 body
  | '0' :: 'b' :: body => prefixed 2 body
  | _ =>
    let (negative, body) := Decimal.splitSign cs
    (whole? body).bind fun ds => bounded? (if negative then -(Text.ofDigits 10 ds : Int) else Text.ofDigits 10 ds)

def isExponentMark (c : Char) : Bool := c = 'e' || c = 'E'

/-- Whether some characters are an exponent, all of them. -/
def isExponent : List Char → Bool
  | [] => false
  | c :: rest => isExponentMark c && (ungrouped? 10 (Decimal.splitSign rest).2).isSome

/-- Whether some characters are digits, a point or an exponent or both, and digits after each. -/
def isFloatBody (cs : List Char) : Bool :=
  let ends (c : Char) := c = '.' || isExponentMark c
  (whole? (cs.takeWhile (!ends ·))).isSome &&
    match cs.dropWhile (!ends ·) with
    | '.' :: rest =>
      let exponent := rest.dropWhile (!isExponentMark ·)
      (ungrouped? 10 (rest.takeWhile (!isExponentMark ·))).isSome && (exponent.isEmpty || isExponent exponent)
    | rest => isExponent rest

/-- Whether a literal is too large for a double.  Negative literals never are. -/
def overflows (cs : List Char) : Bool :=
  match Decimal.value? (cs.filter (· != '_')) with
  | some v => Binary.binary64.round v == .infinite false
  | none => false

def float? (cs : List Char) : Option Toml :=
  let body := (Decimal.splitSign cs).2
  if body = ['i', 'n', 'f'] ∨ body = ['n', 'a', 'n'] ∨ (isFloatBody body ∧ ¬overflows cs) then
    some (.float (String.ofList cs))
  else none

/-! ### Dates and times -/

/-- A number of exactly `width` digits. -/
def field? (width : Nat) (cs : List Char) : Option Nat :=
  if cs.length = width then Text.digits? 10 cs else none

def daysIn (year month : Nat) : Nat :=
  if month = 2 then if year % 4 = 0 ∧ (year % 100 ≠ 0 ∨ year % 400 = 0) then 29 else 28
  else if [4, 6, 9, 11].contains month then 30
  else 31

/-- Whether ten characters are a year, a month and a day. -/
def isDate (cs : List Char) : Bool :=
  cs.length = 10 && cs[4]? == some '-' && cs[7]? == some '-' &&
    match field? 4 (cs.take 4), field? 2 ((cs.drop 5).take 2), field? 2 (cs.drop 8) with
    | some year, some month, some day => 1 ≤ month && month ≤ 12 && 1 ≤ day && day ≤ daysIn year month
    | _, _, _ => false

/-- Whether five characters are hours and minutes. -/
def isClock (cs : List Char) : Bool :=
  cs.length = 5 && cs[2]? == some ':' &&
    match field? 2 (cs.take 2), field? 2 (cs.drop 3) with
    | some hour, some minute => hour < 24 && minute < 60
    | _, _ => false

/-- What follows a time: hours, minutes, seconds up to a leap second, and perhaps a fraction of a second. -/
def afterTime? (cs : List Char) : Option (List Char) :=
  match field? 2 ((cs.drop 6).take 2) with
  | none => none
  | some second =>
    if !isClock (cs.take 5) || cs[5]? != some ':' || 60 < second then none
    else
      match cs.drop 8 with
      | '.' :: c :: rest => if c.isDigit then some (rest.dropWhile Char.isDigit) else none
      | rest => some rest

/-- Whether some characters are a distance from Greenwich time. -/
def isZone : List Char → Bool
  | ['Z'] | ['z'] => true
  | '+' :: rest => isClock rest
  | '-' :: rest => isClock rest
  | _ => false

def isTime (cs : List Char) : Bool := afterTime? cs == some []

/-- A time, perhaps with its zone. -/
def isZonedTime (cs : List Char) : Bool := (afterTime? cs).any fun rest => rest.isEmpty || isZone rest

/-- Whether a letter or a space stands between a date and a time. -/
def isDateTime (cs : List Char) : Bool :=
  isDate (cs.take 10) && (cs[10]?).any ['T', 't', ' '].contains && isZonedTime (cs.drop 11)

def moment? (cs : List Char) : Option Toml :=
  if isDate cs || isTime cs || isDateTime cs then some (.moment (String.ofList cs)) else none

/-! ### All of them -/

/-- The value of a run of unquoted characters. -/
def scalar? (cs : List Char) : Option Toml :=
  match String.ofList cs with
  | "true" => some (.boolean true)
  | "false" => some (.boolean false)
  | _ => moment? cs <|> integer? cs <|> float? cs

end Memsift.Toml
