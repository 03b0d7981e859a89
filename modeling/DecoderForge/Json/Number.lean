import DecoderForge.Json.Basic

/-!
# DecoderForge — reading and comparing JSON numbers

A literal is read from its parts.  Its digits are gathered into a 64-bit significand as far as they
fit; later digits only move the exponent.  A literal without fraction and exponent that fits 64 bits
is an integer, save for `-0`.  Any other becomes a float by one rounded scaling with a power of ten, so
a long literal can end one unit in the last place away from the nearest float.
-/

namespace DecoderForge

namespace Json.Number

/-- The greatest significand. -/
def maxSignificand : Nat := 2 ^ 64 - 1

/-- What gathering digits gives: the significand, how many digits entered it, how many were left. -/
structure Gathered where
  significand : Nat
  taken : Nat
  dropped : Nat

/-- Gathers digits while the significand fits; from the first that does not fit on, all are left. -/
def gather (g : Gathered) : List Nat → Gathered
  | [] => g
  | d :: ds =>
    let next := g.significand * 10 + d
    if next ≤ maxSignificand then gather ⟨next, g.taken + 1, g.dropped⟩ ds
    else { g with dropped := g.dropped + (d :: ds).length }

/-- The float nearest to `10 ^ n`, for `n ≤ 308`. -/
def powerOfTen (n : Nat) : Binary64 := (Binary64.round false (10 ^ n) 1).getD (Binary64.zero false)

/-- Divides by `10 ^ 308` so many times, or until nothing is left. -/
def divideByGreatest (x : Binary64) : Nat → Option Binary64
  | 0 => some x
  | count + 1 =>
    if x.isZero then some x
    else (x.div (powerOfTen 308)).bind fun y => divideByGreatest y count

/-- Divides by `10 ^ n`, at most by `10 ^ 308` at a time. -/
def scaleDown (x : Binary64) (n : Nat) : Option Binary64 :=
  let count := (n - 1) / 308
  (divideByGreatest x count).bind fun y => y.div (powerOfTen (n - 308 * count))

/-- `significand * 10 ^ exponent` as a float; `none` beyond the range. -/
def ofDecimal (significand : Nat) (exponent : Int) : Option Binary64 :=
  let x := Binary64.ofInt significand
  if 0 ≤ exponent then
    if exponent ≤ 308 then x.mul (powerOfTen exponent.toNat)
    else if x.isZero then some x else none
  else scaleDown x exponent.natAbs

/-- A literal taken apart: digits before and behind the point, and the exponent. -/
structure Literal where
  negative : Bool
  whole : List Nat
  fraction : List Nat
  exponent : Option Int

/-- Exponents beyond 32 bits count as infinitely large. -/
def maxExponent : Nat := 2 ^ 31 - 1

/-- The number that a literal denotes; `none` beyond the range of floats. -/
def ofLiteral (l : Literal) : Option Number :=
  let w := gather ⟨0, 0, 0⟩ l.whole
  let float (x : Option Binary64) : Option Number :=
    x.map fun x => .float { x with negative := l.negative }
  match l.fraction, l.exponent with
  | [], none =>
    if w.dropped > 0 then float (ofDecimal w.significand w.dropped)
    else if !l.negative then some (.int w.significand)
    else if w.significand == 0 || w.significand > 2 ^ 63 then float (ofDecimal w.significand 0)
    else some (.int (-(w.significand : Int)))
  | fraction, exponent =>
    let f := gather ⟨w.significand, 0, 0⟩ fraction
    let e := exponent.getD 0
    if e.natAbs > maxExponent then
      if f.significand != 0 && 0 < e then none else float (some (Binary64.zero false))
    else float (ofDecimal f.significand ((w.dropped : Int) - (f.taken : Int) + e))

/-! ## Comparison -/

/-- The number as a float, rounded if need be. -/
def toBinary64 : Number → Binary64
  | .int n => Binary64.ofInt n
  | .float x => x

/-- Exact comparison by value. -/
def compare : Number → Number → Ordering
  | .int m, .int n => Ord.compare m n
  | .float x, .int n => x.compareInt n
  | .int m, .float y => (y.compareInt m).swap
  | .float x, .float y => x.compare y

/-- Whether the number has no fractional part. -/
def isWhole : Number → Bool
  | .int _ => true
  | .float x => x.isWhole

/-- Integers plainly, floats with the fewest digits that read back. -/
def toText : Number → String
  | .int n => toString n
  | .float x => x.toText

end Json.Number

end DecoderForge
