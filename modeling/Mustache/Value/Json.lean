import Mustache.Json.Reader
import Mustache.Number.Scaled
import Mustache.Value.Basic

namespace Mustache.Value

/-- An integer if the number is one that fits into 64 bits with a sign, else a float. -/
def ofNumeral? (n : Numeral) : Option Value :=
  match n.toInt?.filter fun i => -0x8000000000000000 ≤ i && i < 0x8000000000000000 with
  | some i => some (int (Int64.ofInt i))
  | none => (Number.scaled n.whole n.fraction (n.exponent.getD 0)).map fun x =>
    float (if n.negative then -x else x)

mutual

/-- The value is missing if a number in it is out of range. -/
def ofJson? : Json → Option Value
  | .null => some null
  | .bool b => some (bool b)
  | .number n => ofNumeral? n
  | .string s => some (string s)
  | .array items => (ofJsonItems? items).map list
  | .object members => (ofJsonMembers? members).map ofPairs

def ofJsonItems? : List Json → Option (List Value)
  | [] => some []
  | item :: items => do
    return (← ofJson? item) :: (← ofJsonItems? items)

def ofJsonMembers? : List (String × Json) → Option (List (String × Value))
  | [] => some []
  | (key, item) :: members => do
    return (key, ← ofJson? item) :: (← ofJsonMembers? members)

end

/-- The value of a JSON text. Containers may be nested up to 127 deep. -/
def ofJsonText? (s : String) : Option Value :=
  (Json.read? 127 s).bind ofJson?

end Mustache.Value
