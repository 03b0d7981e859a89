/-!
# DecoderForge — text as bytes

* `Text.encode` — the bytes of a text in UTF-8.
* `Text.decode?` — the text of bytes, `none` when they are not UTF-8.
* `Text.decodeLossy` — the text of any bytes; what is not UTF-8 becomes U+FFFD.
* `Text.firstDamage?` — where bytes stop being UTF-8.
-/

namespace DecoderForge.Text

/-- The bytes of a text. -/
def encode (s : List Char) : List UInt8 := s.flatMap String.utf8EncodeChar

/-- The text of a list of bytes. -/
def decode? (bytes : List UInt8) : Option (List Char) :=
  (ByteArray.utf8Decode? (ByteArray.mk bytes.toArray)).map Array.toList

/-! ## Damaged text -/

/-- Whether a byte continues a character. -/
def isContinuation (b : UInt8) : Bool := 0x80 ≤ b && b ≤ 0xBF

/-- The length of a character by its first byte, and the range of its second byte. -/
def leadByte? (b : UInt8) : Option (Nat × UInt8 × UInt8) :=
  if b < 0x80 then some (1, 0, 0)
  else if 0xC2 ≤ b && b ≤ 0xDF then some (2, 0x80, 0xBF)
  else if b == 0xE0 then some (3, 0xA0, 0xBF)
  else if b == 0xED then some (3, 0x80, 0x9F)
  else if 0xE1 ≤ b && b ≤ 0xEF then some (3, 0x80, 0xBF)
  else if b == 0xF0 then some (4, 0x90, 0xBF)
  else if 0xF1 ≤ b && b ≤ 0xF3 then some (4, 0x80, 0xBF)
  else if b == 0xF4 then some (4, 0x80, 0x8F)
  else none

/-- How many of the following bytes belong to a character begun with a byte of that kind, and whether
they complete it. -/
def tailLength (length : Nat) (lo hi : UInt8) (rest : List UInt8) : Nat × Bool :=
  match length, rest with
  | 2, a :: _ => if lo ≤ a && a ≤ hi then (1, true) else (0, false)
  | 3, a :: r =>
    if lo ≤ a && a ≤ hi then
      match r with
      | b :: _ => if isContinuation b then (2, true) else (1, false)
      | [] => (1, false)
    else (0, false)
  | 4, a :: r =>
    if lo ≤ a && a ≤ hi then
      match r with
      | b :: r =>
        if isContinuation b then
          match r with
          | c :: _ => if isContinuation c then (3, true) else (2, false)
          | [] => (2, false)
        else (1, false)
      | [] => (1, false)
    else (0, false)
  | _, _ => (0, length == 1)

/-- The text of bytes; the longest beginning of a character that breaks off, or else a single byte,
becomes U+FFFD. -/
def decodeLossy (bytes : List UInt8) : List Char :=
  match bytes with
  | [] => []
  | b :: rest =>
    match leadByte? b with
    | none => '\uFFFD' :: decodeLossy rest
    | some (length, lo, hi) =>
      let (n, whole) := tailLength length lo hi rest
      let decoded := if whole then (decode? (b :: rest.take n)).getD ['\uFFFD'] else ['\uFFFD']
      decoded ++ decodeLossy (rest.drop n)
termination_by bytes.length
decreasing_by all_goals (simp only [List.length_drop, List.length_cons]; omega)

/-- A place at which bytes are not UTF-8. -/
structure Damage where
  /-- Bytes in front of it. -/
  start : Nat
  /-- Bytes that belong to it; none where the bytes end inside a character. -/
  length : Option Nat
deriving DecidableEq, Repr

/-- The wording of a damage. -/
def Damage.message (d : Damage) : String :=
  match d.length with
  | some n => "invalid utf-8 sequence of " ++ toString n ++ " bytes from index " ++ toString d.start
  | none => "incomplete utf-8 byte sequence from index " ++ toString d.start

/-- The first damage of bytes, of which `start` go before. -/
def firstDamage? (start : Nat) (bytes : List UInt8) : Option Damage :=
  match bytes with
  | [] => none
  | b :: rest =>
    match leadByte? b with
    | none => some ⟨start, some 1⟩
    | some (length, lo, hi) =>
      let (n, whole) := tailLength length lo hi rest
      if whole then firstDamage? (start + 1 + n) (rest.drop n)
      else some ⟨start, if n < rest.length then some (n + 1) else none⟩
termination_by bytes.length
decreasing_by all_goals (simp only [List.length_drop, List.length_cons]; omega)

/-- The text of bytes, or their first damage. -/
def decode (bytes : List UInt8) : Except Damage (List Char) :=
  match decode? bytes with
  | some s => .ok s
  | none => .error ((firstDamage? 0 bytes).getD ⟨0, none⟩)

end DecoderForge.Text
