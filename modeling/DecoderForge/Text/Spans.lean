/-!
# DecoderForge — sets of characters as spans

A property of characters is a list of spans of code points in ascending order.  A span may count every
second code point, as where capital and small letters alternate.
-/

namespace DecoderForge

/-- The code points `first`, `first + step`, … up to `last`. -/
structure Text.Span where
  first : Nat
  last : Nat
  step : Nat
deriving Repr

/-- A set of characters, spans in ascending order. -/
abbrev Text.Spans := List Text.Span

namespace Text

/-- Whether a code point lies in one of the spans; the search ends at the first span behind it. -/
def Spans.has : Spans → Nat → Bool
  | [], _ => false
  | s :: rest, n =>
    if n < s.first then false
    else if n ≤ s.last then (n - s.first) % s.step == 0
    else has rest n

/-- The spans of a list of triples. -/
def Spans.ofTriples (ts : List (Nat × Nat × Nat)) : Spans := ts.map fun (a, b, s) => ⟨a, b, s⟩

end Text

end DecoderForge
