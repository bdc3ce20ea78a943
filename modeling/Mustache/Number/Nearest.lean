namespace Mustache.Number

/-- The quotient rounded to the nearest whole number, a tie to the even one. -/
def roundDiv (num den : Nat) : Nat :=
  let q := num / den
  let r := num % den
  if 2 * r < den then q
  else if den < 2 * r then q + 1
  else if q % 2 = 0 then q else q + 1

/-- The bits of the float nearest to `num / den`, for positive `num` and `den`. The bits of positive
floats are in the order of their values, and a significand rounded up carries into the exponent. -/
def nearestBits (num den : Nat) : Nat :=
  let scale : Int := max (-1074) ((num.log2 : Int) - den.log2 - 53)
  let significand (scale : Int) : Nat :=
    if scale < 0 then roundDiv (num * Nat.pow 2 scale.natAbs) den
    else roundDiv num (den * Nat.pow 2 scale.natAbs)
  let m := significand scale
  let bits :=
    if m ≤ Nat.pow 2 53 then (scale + 1074).toNat * Nat.pow 2 52 + m
    else (scale + 1075).toNat * Nat.pow 2 52 + significand (scale + 1)
  min bits 0x7ff0000000000000

/-- The float nearest to `mantissa * 10 ^ exponent`, of two equally near ones the one with an even
significand; infinite if that is out of range. -/
def nearest (mantissa : Nat) (exponent : Int) : Float :=
  let magnitude := (Nat.toDigits 10 mantissa).length + exponent
  let bits :=
    if mantissa = 0 || magnitude < -400 then 0
    else if 400 < magnitude then 0x7ff0000000000000
    else if exponent < 0 then nearestBits mantissa (Nat.pow 10 exponent.natAbs)
    else nearestBits (mantissa * Nat.pow 10 exponent.natAbs) 1
  Float.ofBits (UInt64.ofNat bits)

end Mustache.Number
