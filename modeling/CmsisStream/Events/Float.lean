import CmsisStream.Codec.Bytes

/-!
# Conversions between `float` and `double`

Python numbers are doubles and are sent as floats.  Both are given by their IEEE-754 bytes.
A NaN becomes quiet and keeps the first bits of its payload.
-/

namespace CmsisStream.Events

open Codec (Word)

/-- The double equal to a float. -/
def widen (x : Word 4) : Word 8 :=
  let sign := x.toNat / 2 ^ 31
  let exponent := x.toNat / 2 ^ 23 % 2 ^ 8
  let mantissa := x.toNat % 2 ^ 23
  let magnitude :=
    if exponent = 255 then
      2047 * 2 ^ 52 + (if mantissa = 0 then 0 else (mantissa ||| 2 ^ 22) * 2 ^ 29)
    else if exponent = 0 then
      if mantissa = 0 then 0
      else (mantissa.log2 + 874) * 2 ^ 52 + (mantissa * 2 ^ (52 - mantissa.log2) - 2 ^ 52)
    else (exponent + 896) * 2 ^ 52 + mantissa * 2 ^ 29
  Word.ofNat 8 (sign * 2 ^ 63 + magnitude)

/-- Divide by `2 ^ shift`, to the nearest and to even in the middle. -/
def roundToEven (n shift : ℕ) : ℕ :=
  let quotient := n / 2 ^ shift
  let remainder := n % 2 ^ shift
  if 2 ^ shift < 2 * remainder ∨ 2 * remainder = 2 ^ shift ∧ quotient % 2 = 1 then quotient + 1
  else quotient

/-- The float nearest to a double, if it is not too large. -/
def narrow (x : Word 8) : Option (Word 4) :=
  let sign := x.toNat / 2 ^ 63
  let exponent := x.toNat / 2 ^ 52 % 2 ^ 11
  let mantissa := x.toNat % 2 ^ 52
  if exponent = 2047 then
    some (Word.ofNat 4 (sign * 2 ^ 31 + 255 * 2 ^ 23 +
      (if mantissa = 0 then 0 else mantissa / 2 ^ 29 ||| 2 ^ 22)))
  else
    let significand := if exponent = 0 then mantissa else 2 ^ 52 + mantissa
    -- below the normal floats, the last place is the one of the subnormal floats
    let rounded := roundToEven significand (29 + (897 - exponent))
    let magnitude := (exponent - 897) * 2 ^ 23 + rounded
    if magnitude < 255 * 2 ^ 23 then some (Word.ofNat 4 (sign * 2 ^ 31 + magnitude)) else none

/-- The double is the value of a float. -/
def Representable (x : Word 8) : Prop := ∃ y, narrow x = some y ∧ widen y = x

instance (x : Word 8) : Decidable (Representable x) :=
  decidable_of_iff ((narrow x).any fun y => widen y = x)
    (by simp [Representable, Option.any_eq_true])

example : narrow 0x4012000000000000 = some 0x40900000 ∧ widen 0x40900000 = 0x4012000000000000 := by
  decide

end CmsisStream.Events
