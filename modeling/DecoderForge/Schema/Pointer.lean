import DecoderForge.Json.Token
import DecoderForge.Text.Blank
import DecoderForge.Text.Utf8

/-!
# DecoderForge — pointers and local references

A JSON pointer is a list of tokens, each behind a slash; a local reference is a pointer written as the
fragment of a URL.  The two layers of escaping are `escapeToken` (`~` and `/`) and `escapeFragment`
(percent signs over bytes).

* `definitionPointer` — the reference to the definition with a key.
* `Json.atPointer?` — the value under a pointer.
* `resolveLocal?` — the value under a local reference.
-/

namespace DecoderForge

namespace Pointer

/-! ## Tokens -/

/-- A token with `~` as `~0` and `/` as `~1`. -/
def escapeToken (token : List Char) : List Char :=
  Text.replaceChar '/' ['~', '1'] (Text.replaceChar '~' ['~', '0'] token)

/-- A token with its escapes undone: first `~1`, then `~0`. -/
def unescapeToken (token : List Char) : List Char :=
  Text.replaceAll ['~', '0'] ['~'] (Text.replaceAll ['~', '1'] ['/'] token)

/-- The position in an array that a token names: digits without a leading zero. -/
def index? (token : List Char) : Option Nat :=
  match token with
  | [] => none
  | ['0'] => some 0
  | '0' :: _ => none
  | ds => if ds.all Json.Token.isDigit then some (Json.Token.digitsValue (ds.map Json.Token.digitValue)) else none

/-! ## Fragments -/

/-- Bytes that stand for themselves in a fragment. -/
def isFragmentByte (b : UInt8) : Bool :=
  let c := Char.ofNat b.toNat
  b < 0x80 && (c.isAlphanum || ['-', '.', '_', '~', '!', '$', '&', '\'', '(', ')', '*', '+', ',', ';',
    '=', ':', '@'].contains c)

/-- Upper-case hexadecimal digit. -/
def upperHexDigit (n : Nat) : Char := (Nat.digitChar n).toUpper

/-- A byte of a fragment: as it is, or as a percent sign with two digits. -/
def escapeByte (b : UInt8) : List Char :=
  if isFragmentByte b then [Char.ofNat b.toNat]
  else ['%', upperHexDigit (b.toNat / 16), upperHexDigit (b.toNat % 16)]

/-- A text as a fragment. -/
def escapeFragment (s : List Char) : List Char := (Text.encode s).flatMap escapeByte

/-- The byte behind a percent sign.  A plus sign may stand in place of the first digit. -/
def percentByte? (a b : Char) : Option UInt8 :=
  if a == '+' then (Json.Token.hexValue? b).map UInt8.ofNat
  else
    match Json.Token.hexValue? a, Json.Token.hexValue? b with
    | some x, some y => some (UInt8.ofNat (x * 16 + y))
    | _, _ => none

/-- The bytes of a fragment; `none` at a percent sign without two digits. -/
def fragmentBytes? : List Char → Option (List UInt8)
  | '%' :: a :: b :: rest =>
    match percentByte? a b with
    | some byte => (fragmentBytes? rest).map (byte :: ·)
    | none => none
  | c :: rest =>
    if c == '%' then none else (fragmentBytes? rest).map (String.utf8EncodeChar c ++ ·)
  | [] => some []

/-- The text of a fragment; `none` when its bytes are not UTF-8. -/
def unescapeFragment? (fragment : List Char) : Option (List Char) :=
  (fragmentBytes? fragment).bind Text.decode?

end Pointer

/-! ## Look-up -/

namespace Json

/-- One step down: a member by name, or an item by position. -/
def child? (j : Json) (token : List Char) : Option Json :=
  match j with
  | .obj members => Members.get? members (String.ofList token)
  | .arr items => (Pointer.index? token).bind fun i => items[i]?
  | _ => none

/-- The value under a list of tokens. -/
def descend? (j : Json) : List (List Char) → Option Json
  | [] => some j
  | t :: ts => (j.child? t).bind fun k => descend? k ts

/-- The value under a pointer.  A pointer is empty or begins with a slash. -/
def atPointer? (j : Json) (pointer : List Char) : Option Json :=
  match pointer with
  | [] => some j
  | '/' :: rest => j.descend? ((Text.splitAt '/' rest).map Pointer.unescapeToken)
  | _ => none

end Json

/-- Member of a schema that holds its definitions. -/
def definitionsKey : String := "definitions"

/-- The reference to the definition with a key. -/
def definitionPointer (key : String) : String :=
  String.ofList (['#', '/'] ++ definitionsKey.toList ++ ['/']
    ++ Pointer.escapeFragment (Pointer.escapeToken key.toList))

/-- The value under a local reference: a `#` with a pointer as fragment. -/
def resolveLocal? (root : Json) (reference : String) : Option Json :=
  match reference.toList with
  | '#' :: fragment => (Pointer.unescapeFragment? fragment).bind root.atPointer?
  | _ => none

end DecoderForge
