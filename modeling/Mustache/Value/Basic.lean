import Mustache.Entries
import Mustache.Number.Nearest

namespace Mustache

abbrev LambdaId := Nat

/-- The data that a template is rendered against. A function in it is held by name; what it does is
kept apart, so that values can be compared and taken apart. -/
inductive Value where
  | null
  | bool (b : Bool)
  | int (n : Int64)
  | float (x : Float)
  | string (s : String)
  | list (items : List Value)
  /-- Entries with distinct keys. -/
  | map (entries : List (String × Value))
  /-- A field that is computed from the innermost scope when it is looked up. -/
  | computed (id : LambdaId)
  /-- A function that takes over the rendering of a section. -/
  | sectionLambda (id : LambdaId)
deriving Inhabited

namespace Value

def get? (key : String) : Value → Option Value
  | map entries => entries.lookup key
  | _ => none

def isNull : Value → Bool
  | null => true
  | _ => false

def asString? : Value → Option String
  | string s => some s
  | _ => none

/-- All values but null, false, zero, NaN and the empty string. -/
def isTruthy : Value → Bool
  | null => false
  | bool b => b
  | int n => n != 0
  | float x => x != 0 && !x.isNaN
  | string s => s != ""
  | list _ | map _ | computed _ | sectionLambda _ => true

/-- A map in key order. Of several entries with one key the last counts. -/
def ofPairs (pairs : List (String × Value)) : Value :=
  map (Entries.ofPairs pairs)

def ofOption : Option Value → Value
  | some v => v
  | none => null

/-- An integer if the number fits into 64 bits with a sign, else the nearest float. -/
def ofNat (n : Nat) : Value :=
  if n < Nat.pow 2 63 then int (Int64.ofNat n) else float (Number.nearest n 0)

mutual

/-- Equality, with floats compared as numbers and functions by name. -/
def eq : Value → Value → Bool
  | null, null => true
  | bool a, bool b => a == b
  | int a, int b => a == b
  | float a, float b => a == b
  | string a, string b => a == b
  | list as, list bs => eqItems as bs
  | map as, map bs => eqEntries as bs
  | computed a, computed b => a == b
  | sectionLambda a, sectionLambda b => a == b
  | _, _ => false

def eqItems : List Value → List Value → Bool
  | [], [] => true
  | a :: as, b :: bs => eq a b && eqItems as bs
  | _, _ => false

def eqEntries : List (String × Value) → List (String × Value) → Bool
  | [], [] => true
  | (k, a) :: as, (l, b) :: bs => k == l && eq a b && eqEntries as bs
  | _, _ => false

end

instance : BEq Value := ⟨eq⟩

end Value
end Mustache
