import DecoderForge.Json.Token
import DecoderForge.Text.Blank

/-!
# DecoderForge — internet addresses

* `Url.isIpv4`, `Url.isIpv6` — whether a text is an address in the usual notation.
* `Url.ipv4OfHost?` — the address that a host ending in a number stands for.
-/

namespace DecoderForge.Url

/-- A decimal number below 256 without leading zeros. -/
def isOctet (s : List Char) : Bool :=
  !s.isEmpty && s.length ≤ 3 && s.all Json.Token.isDigit && (s.head? != some '0' || s.length == 1)
    && Json.Token.digitsValue (s.map Json.Token.digitValue) < 256

/-- Four octets between dots. -/
def isIpv4 (s : List Char) : Bool :=
  let parts := Text.splitAt '.' s
  parts.length == 4 && parts.all isOctet

/-- One to four hexadecimal digits. -/
def isHexGroup (s : List Char) : Bool :=
  !s.isEmpty && s.length ≤ 4 && s.all fun c => (Json.Token.hexValue? c).isSome

/-- How many 16-bit groups the parts between colons make up, the last possibly in octets; none when a
part is neither. -/
def groupCount? : List (List Char) → Option Nat
  | [] => some 0
  | [last] => if isHexGroup last then some 1 else if isIpv4 last then some 2 else none
  | s :: rest => if isHexGroup s then (groupCount? rest).map (· + 1) else none

/-- The groups of one side of a double colon; an empty side has none. -/
def sideCount? (isLast : Bool) (s : List Char) : Option Nat :=
  if s.isEmpty then some 0
  else
    let parts := Text.splitAt ':' s
    if isLast then groupCount? parts
    else if parts.all isHexGroup then some parts.length else none

/-- The text before and behind the first double colon. -/
def splitDoubleColon : List Char → Option (List Char × List Char)
  | ':' :: ':' :: rest => some ([], rest)
  | c :: rest => (splitDoubleColon rest).map fun (a, b) => (c :: a, b)
  | [] => none

/-- Eight groups, or fewer around one double colon. -/
def isIpv6 (s : List Char) : Bool :=
  match splitDoubleColon s with
  | none => sideCount? true s == some 8
  | some (a, b) =>
    match sideCount? false a, sideCount? true b with
    | some m, some n => m + n ≤ 7
    | _, _ => false

/-! ## Numbers as hosts -/

/-- The value of digits in a base; none when one is no digit of it. -/
def valueInBase? (base : Nat) (s : List Char) : Option Nat :=
  s.foldl (fun n c => n.bind fun n =>
    (Json.Token.hexValue? c).bind fun d => if d < base then some (n * base + d) else none) (some 0)

/-- A number in decimal, in octal behind `0`, or in hexadecimal behind `0x`. -/
def hostNumber? : List Char → Option Nat
  | [] => none
  | '0' :: 'x' :: rest => valueInBase? 16 rest
  | '0' :: rest => valueInBase? 8 rest
  | s => valueInBase? 10 s

/-- The parts of a host between dots, an empty last one left out. -/
def hostParts (host : List Char) : List (List Char) :=
  let parts := Text.splitAt '.' host
  if parts.getLast? == some [] && parts.length > 1 then parts.dropLast else parts

/-- Whether the last part of a host is a number, so that the host has to be an address. -/
def endsInNumber (host : List Char) : Bool :=
  match (hostParts host).getLast? with
  | none => false
  | some last =>
    !last.isEmpty && (last.all Json.Token.isDigit ||
      (Text.startsWith ['0', 'x'] last && (hostNumber? last).isSome))

/-- The value of an address whose last part fills what the others leave. -/
def addressValue? : List Nat → Option Nat
  | [a] => if a < 2 ^ 32 then some a else none
  | [a, b] => if a < 256 && b < 2 ^ 24 then some (a * 2 ^ 24 + b) else none
  | [a, b, c] => if a < 256 && b < 256 && c < 2 ^ 16 then some (a * 2 ^ 24 + b * 2 ^ 16 + c) else none
  | [a, b, c, d] =>
    if a < 256 && b < 256 && c < 256 && d < 256 then
      some (a * 2 ^ 24 + b * 2 ^ 16 + c * 2 ^ 8 + d)
    else none
  | _ => none

/-- The address that a host ending in a number stands for, in octets. -/
def ipv4OfHost? (host : List Char) : Option (List Char) :=
  match (hostParts host).mapM hostNumber? with
  | none => none
  | some ns =>
    (addressValue? ns).map fun n =>
      let octet (i : Nat) : List Char := (toString (n / 256 ^ i % 256)).toList
      octet 3 ++ ['.'] ++ octet 2 ++ ['.'] ++ octet 1 ++ ['.'] ++ octet 0

end DecoderForge.Url
