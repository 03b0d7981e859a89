/-!
# DecoderForge — 64-bit binary floating point

A finite number is kept exactly, as a sign, a natural mantissa and a power of two.  Every operation
computes the exact rational result and rounds it once, to the nearest representable number with ties
to the even mantissa, so nothing here depends on hardware arithmetic and closed instances evaluate in
the kernel.

* `Binary64.round` — the representable number nearest to a ratio of naturals, `none` on overflow.
* `Binary64.mul`, `Binary64.div`, `Binary64.sub` — rounded arithmetic.
* `Binary64.compareInt`, `Binary64.compare` — exact comparisons.
-/

namespace DecoderForge

/-- Powers of natural numbers are those of the core library, also where an algebra library has its own. -/
@[default_instance 20000]
instance (priority := high) natPow : Pow Nat Nat := instPowNat

/-- A finite 64-bit number `± mantissa * 2 ^ exponent`.

The form is canonical: either the exponent is `-1074` and the mantissa is below `2 ^ 53`, or the
mantissa has exactly 53 binary digits. -/
structure Binary64 where
  negative : Bool
  mantissa : Nat
  exponent : Int
deriving DecidableEq, Repr, Inhabited

namespace Binary64

/-- Positive or negative zero. -/
def zero (negative : Bool) : Binary64 := ⟨negative, 0, -1074⟩

def isZero (x : Binary64) : Bool := x.mantissa == 0

/-- Changes the sign, that of a zero included. -/
def neg (x : Binary64) : Binary64 := { x with negative := !x.negative }

def abs (x : Binary64) : Binary64 := { x with negative := false }

/-! ## Rounding -/

/-- The quotient of two naturals rounded to nearest, a half going to the even neighbour. -/
def roundDiv (num den : Nat) : Nat :=
  let q := num / den
  let r := num % den
  if 2 * r < den then q
  else if 2 * r > den then q + 1
  else if q % 2 == 0 then q else q + 1

/-- The power of two of the last mantissa digit of the number nearest to `num / den`. -/
def lastPlace (num den : Nat) : Int :=
  -- `num / den` lies in `[2 ^ (e - 1), 2 ^ (e + 1))`
  let e : Int := (Nat.log2 num : Int) - (Nat.log2 den : Int)
  let below := num * 2 ^ (-e).toNat < den * 2 ^ e.toNat
  let top := if below then e - 1 else e
  max (top - 52) (-1074)

/-- The representable number nearest to `± num / den`; `none` when its size exceeds the range.

`den` is positive in every use. -/
def round (negative : Bool) (num den : Nat) : Option Binary64 :=
  if num == 0 then some (zero negative)
  else
    let place := lastPlace num den
    let m := roundDiv (num * 2 ^ (-place).toNat) (den * 2 ^ place.toNat)
    -- rounding up may reach the next power of two
    let (m, place) := if m == 2 ^ 53 then (2 ^ 52, place + 1) else (m, place)
    if place > 971 then none else some ⟨negative, m, place⟩

/-! ## Exact views -/

/-- Numerator of the exact value, sign left out. -/
def num (x : Binary64) : Nat := x.mantissa * 2 ^ x.exponent.toNat

/-- Denominator of the exact value. -/
def den (x : Binary64) : Nat := 2 ^ (-x.exponent).toNat

/-- Numerator of the exact value, with its sign. -/
def signedNum (x : Binary64) : Int := if x.negative then -(x.num : Int) else x.num

/-- Whether the value has no fractional part. -/
def isWhole (x : Binary64) : Bool := x.num % x.den == 0

/-- The whole number that a value without fractional part stands for. -/
def toInt (x : Binary64) : Int :=
  let n := x.num / x.den
  if x.negative then -(n : Int) else n

/-- Exact comparison of values; the two zeros are equal. -/
def compare (x y : Binary64) : Ordering :=
  Ord.compare (x.signedNum * y.den) (y.signedNum * x.den)

/-- Exact comparison with an integer. -/
def compareInt (x : Binary64) (n : Int) : Ordering :=
  Ord.compare x.signedNum (n * x.den)

/-! ## Conversions and arithmetic -/

/-- The number nearest to an integer; integers of JSON text never overflow. -/
def ofInt (n : Int) : Binary64 :=
  (round (n < 0) n.natAbs 1).getD (zero false)

/-- Rounded product; `none` on overflow. -/
def mul (x y : Binary64) : Option Binary64 :=
  round (x.negative != y.negative) (x.num * y.num) (x.den * y.den)

/-- Rounded quotient by a number that is not zero; `none` on overflow. -/
def div (x y : Binary64) : Option Binary64 :=
  round (x.negative != y.negative) (x.num * y.den) (x.den * y.num)

/-- Rounded difference; `none` on overflow. -/
def sub (x y : Binary64) : Option Binary64 :=
  let n := x.signedNum * y.den - y.signedNum * x.den
  round (n < 0) n.natAbs (x.den * y.den)

/-- The part of a number behind the point, with the sign of the number.

The remainder of a division by one is always representable, so rounding leaves it alone. -/
def fraction (x : Binary64) : Binary64 :=
  (round x.negative (x.num % x.den) x.den).getD (zero x.negative)

/-- Whether the exact value of `x` is a whole multiple of that of `y`, which is not zero. -/
def isMultipleOf (x y : Binary64) : Bool :=
  (x.num * y.den) % (y.num * x.den) == 0

/-- The distance from one to the next representable number, `2 ^ -52`. -/
def epsilon : Binary64 := ⟨false, 2 ^ 52, -104⟩

end Binary64

end DecoderForge
