import Memsift.Error
import Memsift.Text.Numeral

/-!
# Alignments

The distance in bytes from one element that is looked at to the next: that of the elements themselves, or a fixed
one.
-/

namespace Memsift

inductive Alignment where
  | auto
  | fixed (width : Width)
deriving DecidableEq, Repr

namespace Alignment

/-- The distance for elements of a size. -/
def resolve (a : Alignment) (elementSize : Nat) : Nat :=
  match a with
  | auto => max elementSize 1
  | fixed w => w.bytes

/-- Zero stands for the size of the elements. -/
def ofBytes : Nat → Except Error Alignment
  | 0 => .ok auto
  | 1 => .ok (fixed .one)
  | 2 => .ok (fixed .two)
  | 4 => .ok (fixed .four)
  | 8 => .ok (fixed .eight)
  | n => .error (.invalidAlignment n)

def name : Alignment → String
  | auto => "auto"
  | fixed w => toString w.bytes

/-- A name with blanks around it and in any case, or the number of bytes. -/
def ofName? (name : String) : Option Alignment :=
  let cs := Text.trim name.toList
  if String.ofList (Text.lowercase cs) = "auto" then some auto
  else (Text.natural? 10 cs).bind fun n => (ofBytes n).toOption

end Alignment
end Memsift
