namespace Mustache.Number

/-- The number `digits * 10 ^ exponent`, exactly. -/
structure Decimal where
  digits : Nat
  exponent : Int
deriving DecidableEq

/-- A positive number `value / unit` and the ends of the interval of numbers that round to it, in
the same unit. The ends belong to the interval if `closed`. -/
structure Rounding where
  low : Nat
  value : Nat
  high : Nat
  unit : Nat
  closed : Bool

namespace Rounding

/-- The interval of a positive finite float, from its exponent field and its fraction. -/
def ofFields (exponent fraction : Nat) : Rounding :=
  let m := if exponent = 0 then fraction else fraction + Nat.pow 2 52
  let scale : Int := (max exponent 1 : Nat) - 1077
  let below := if fraction = 0 && 1 < exponent then 1 else 2
  let up := Nat.pow 2 scale.toNat
  { low := (4 * m - below) * up
    value := 4 * m * up
    high := (4 * m + 2) * up
    unit := Nat.pow 2 (-scale).toNat
    closed := m % 2 = 0 }

def digitCount (n : Nat) : Nat :=
  (Nat.toDigits 10 n).length

/-- The least `k` with `value / unit < 10 ^ k`. -/
def magnitude (r : Rounding) : Int :=
  if r.unit ≤ r.value then digitCount (r.value / r.unit)
  else 1 - digitCount ((r.unit - 1) / r.value)

def admits (r : Rounding) (num den : Nat) : Bool :=
  if r.closed then r.low * den ≤ num * r.unit && num * r.unit ≤ r.high * den
  else r.low * den < num * r.unit && num * r.unit < r.high * den

/-- The decimal with the given number of digits that is nearest to the value and rounds to it. Of
two equally near ones it is the greater. -/
def onGrid? (r : Rounding) (count : Nat) : Option Decimal :=
  let exponent := r.magnitude - count
  let up := Nat.pow 10 exponent.toNat
  let down := Nat.pow 10 (-exponent).toNat
  let lower := r.value * down / (r.unit * up)
  let rest := r.value * down % (r.unit * up)
  let nearer := if 2 * rest < r.unit * up then [lower, lower + 1] else [lower + 1, lower]
  (nearer.find? fun digits => r.admits (digits * up) down).map fun digits =>
    if digits % 10 = 0 then ⟨digits / 10, exponent + 1⟩ else ⟨digits, exponent⟩

/-- The decimal with the fewest digits that rounds to the value; 17 digits always suffice. -/
def shortest (r : Rounding) : Decimal :=
  ((List.range' 1 17).findSome? r.onGrid?).getD ⟨0, 0⟩

end Rounding

def Decimal.positional (d : Decimal) : String :=
  let digits := Nat.toDigits 10 d.digits
  let places := (-d.exponent).toNat
  if places = 0 then String.ofList (digits ++ List.replicate d.exponent.toNat '0')
  else
    let padded := List.replicate (places + 1 - digits.length) '0' ++ digits
    let whole := padded.length - places
    String.ofList (padded.take whole ++ '.' :: padded.drop whole)

/-- The text of a float: the fewest digits that read back, never an exponent, no sign on zero. -/
def floatText (x : Float) : String :=
  let bits := x.toBits.toNat
  let sign := if Nat.pow 2 63 ≤ bits then "-" else ""
  let exponent := bits / Nat.pow 2 52 % Nat.pow 2 11
  let fraction := bits % Nat.pow 2 52
  if exponent = 2047 then (if fraction = 0 then sign ++ "Infinity" else "NaN")
  else if exponent = 0 && fraction = 0 then "0"
  else sign ++ (Rounding.ofFields exponent fraction).shortest.positional

end Mustache.Number
