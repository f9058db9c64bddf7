/-!
# TOML values

What a TOML text can hold.  Floating-point numbers, dates and times are kept as the literals they are written as.
-/

namespace Memsift

inductive Toml where
  | boolean (b : Bool)
  | integer (i : Int)
  | float (literal : String)
  | moment (literal : String)
  | string (content : String)
  | array (items : List Toml)
  | table (entries : List (String × Toml))

namespace Toml

/-- The least integer. -/
def low : Int := -0x8000000000000000

/-- The greatest integer. -/
def high : Int := 0x7FFFFFFFFFFFFFFF

end Toml
end Memsift
