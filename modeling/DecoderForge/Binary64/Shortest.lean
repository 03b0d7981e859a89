import DecoderForge.Binary64.Basic

/-!
# DecoderForge — the fewest decimal digits that identify a number

The reals that round to a given number form an interval: from halfway to the number below to halfway
to the number above, ends included exactly when the mantissa is even.  `Binary64.shortest` returns
the decimal with the fewest digits in that interval and, of those, the one nearest to the number.

How the digits are laid out is the writer's decision; `Decimal.plain` and `Decimal.scientific` are the
two layouts in use.
-/

namespace DecoderForge

/-- The decimal `digits * 10 ^ exponent`. -/
structure Decimal where
  digits : Nat
  exponent : Int
deriving DecidableEq, Repr

namespace Binary64

/-- Compares `a * 10 ^ i` with `n * 2 ^ j`, exactly. -/
def compareScaled (a : Nat) (i : Int) (n : Nat) (j : Int) : Ordering :=
  Ord.compare (a * 10 ^ i.toNat * 2 ^ (-j).toNat) (n * 2 ^ j.toNat * 10 ^ (-i).toNat)

/-- Whether `d` lies among the reals that round to the size of `x`. -/
def readsBack (x : Binary64) (d : Decimal) : Bool :=
  -- below a power of two the neighbours stand half as far apart
  let narrow := x.mantissa == 2 ^ 52 && x.exponent > -1074
  let lo := if narrow then 4 * x.mantissa - 1 else 4 * x.mantissa - 2
  let hi := 4 * x.mantissa + 2
  let closed := x.mantissa % 2 == 0
  let low := compareScaled d.digits d.exponent lo (x.exponent - 2)
  let high := compareScaled d.digits d.exponent hi (x.exponent - 2)
  (low == .gt || (closed && low == .eq)) && (high == .lt || (closed && high == .eq))

/-- The least `k` with `num / den < 10 ^ k`, searched upwards from `k` for at most `fuel` steps. -/
def decimalScale (num den : Nat) : Nat → Int → Int
  | 0, k => k
  | fuel + 1, k =>
    if num * 10 ^ (-k).toNat < den * 10 ^ k.toNat then k else decimalScale num den fuel (k + 1)

/-- The candidate on the grid of `count` significant digits, if one of the two neighbours of the
value reads back; of two the nearer, and of two equally near the even one. -/
def onGrid (x : Binary64) (scale : Int) (count : Nat) : Option Decimal :=
  let e := scale - count
  let n := x.num * 10 ^ (-e).toNat
  let d := x.den * 10 ^ e.toNat
  let below := n / d
  let r := n % d
  let lower : Decimal := ⟨below, e⟩
  let upper : Decimal := ⟨below + 1, e⟩
  match x.readsBack lower, x.readsBack upper with
  | true, true =>
    if 2 * r < d then some lower
    else if 2 * r > d then some upper
    else if below % 2 == 0 then some lower else some upper
  | true, false => some lower
  | false, true => some upper
  | false, false => none

/-- Moves trailing zeros of the digits into the exponent. -/
def stripZeros : Nat → Decimal → Decimal
  | 0, d => d
  | fuel + 1, d =>
    if d.digits != 0 && d.digits % 10 == 0 then stripZeros fuel ⟨d.digits / 10, d.exponent + 1⟩ else d

/-- The first grid of at most seventeen digits with a hit; the exact value if there were none. -/
def shortest (x : Binary64) : Decimal :=
  if x.isZero then ⟨0, 0⟩
  else
    -- 0.30103 exceeds the decimal logarithm of two, so this starts at or below the scale
    let bits : Int := (Nat.log2 x.num : Int) - (Nat.log2 x.den : Int) - 1
    let start := bits * 30102 / 100000 - 1
    let scale := decimalScale x.num x.den 8 start
    match (List.range 17).findSome? (fun i => x.onGrid scale (i + 1)) with
    | some d => stripZeros 20 d
    | none => ⟨x.num * 5 ^ (-x.exponent).toNat, -(-x.exponent).toNat⟩

end Binary64

namespace Decimal

/-- Decimal digits of a natural number. -/
def digitChars (n : Nat) : List Char := Nat.toDigits 10 n

/-- Positional layout; a whole number ends in `tail` (such as `.0`). -/
def plain (d : Decimal) (tail : String) : String :=
  let ds := digitChars d.digits
  if 0 ≤ d.exponent then
    String.ofList (ds ++ List.replicate d.exponent.toNat '0') ++ tail
  else
    let places := (-d.exponent).toNat
    if ds.length > places then
      let cut := ds.length - places
      String.ofList (ds.take cut) ++ "." ++ String.ofList (ds.drop cut)
    else
      "0." ++ String.ofList (List.replicate (places - ds.length) '0' ++ ds)

/-- The power of ten of the leading digit. -/
def leadingExponent (d : Decimal) : Int := d.exponent + ((digitChars d.digits).length : Int) - 1

/-- Scientific layout `d.ddde±x` with a signed exponent. -/
def scientific (d : Decimal) : String :=
  let e := d.leadingExponent
  let mark := if e < 0 then "e-" else "e+"
  let mantissa := match digitChars d.digits with
    | [] => ""
    | [c] => String.singleton c
    | c :: rest => String.singleton c ++ "." ++ String.ofList rest
  mantissa ++ mark ++ toString e.natAbs

end Decimal

namespace Binary64

/-- Positional below `10 ^ 16` and from `10 ^ -5` on, otherwise scientific; always with a point or an
exponent. -/
def toText (x : Binary64) : String :=
  let sign := if x.negative then "-" else ""
  if x.isZero then sign ++ "0.0"
  else
    let d := x.shortest
    let e := d.leadingExponent
    sign ++ (if -5 ≤ e && e < 16 then d.plain ".0" else d.scientific)

/-- Positional notation of any size, whole numbers without a point. -/
def toPlainText (x : Binary64) : String :=
  let sign := if x.negative then "-" else ""
  if x.isZero then sign ++ "0" else sign ++ x.shortest.plain ""

end Binary64

end DecoderForge
