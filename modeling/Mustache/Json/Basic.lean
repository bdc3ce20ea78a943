import Mustache.Text.Reader

namespace Mustache

structure Numeral where
  negative : Bool
  whole : List Char
  /-- The digits after the point; none if there is no point. -/
  fraction : List Char
  exponent : Option Int
deriving DecidableEq

/-- The integer that a number without point and exponent is. Minus zero is no integer. -/
def Numeral.toInt? (n : Numeral) : Option Int :=
  let magnitude := Text.ofDigits 10 n.whole
  if n.fraction ≠ [] || n.exponent.isSome || n.negative && magnitude = 0 then none
  else some (if n.negative then -magnitude else magnitude)

inductive Json where
  | null
  | bool (b : Bool)
  | number (n : Numeral)
  | string (s : String)
  | array (items : List Json)
  /-- The members as they are written, of which several may have one key. -/
  | object (members : List (String × Json))

end Mustache
