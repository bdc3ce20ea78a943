import Mustache.Number.Nearest
import Mustache.Text.Reader

namespace Mustache.Number

/-- A number gone on with by some digits as long as it fits into 64 bits, and the digits that are
left then. -/
def absorb (n : Nat) : List Char → Nat × List Char
  | [] => (n, [])
  | c :: cs =>
    let next := n * 10 + Text.digitValue c
    if next < Nat.pow 2 64 then absorb next cs else (n, c :: cs)

/-- A float times a power of ten, which is taken in steps if it is below the powers that a float can
be. The result is missing if it is out of range. -/
def scale (x : Float) (exponent : Int) : Option Float :=
  if exponent.natAbs ≤ 308 then
    let power := nearest 1 exponent.natAbs
    if exponent < 0 then some (x / power)
    else if (x * power).isInf then none
    else some (x * power)
  else if x == 0 then some x
  else if 0 ≤ exponent then none
  else scale (x / nearest 1 308) (exponent + 308)
termination_by exponent.natAbs

/-- The float for a decimal in two roundings: of the leading digits that fit into 64 bits, and of
their product with a power of ten. So it can be one next to the nearest float. It is missing if it
is out of range. -/
def scaled (whole fraction : List Char) (exponent : Int) : Option Float :=
  let (n, skipped) := absorb 0 whole
  let (n, dropped) := absorb n fraction
  let places : Int := fraction.length - dropped.length
  scale (nearest n 0) (exponent + skipped.length - places)

end Mustache.Number
