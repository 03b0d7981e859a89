import DecoderForge.Json.Number

/-!
# DecoderForge — JSON tokens

JSON text as a list of tokens, blanks dropped.  What the text means depends on its tokens alone, so
layout can change without changing the value.

* `Json.Token.ofText?` — the tokens of a text, `none` where it has none.
* `Json.Token.quote` — a string as a token's text.
-/

namespace DecoderForge

namespace Json

/-- The smallest parts of JSON text. -/
inductive Token where
  | openBrace | closeBrace | openBracket | closeBracket | comma | colon
  | null
  | bool (b : Bool)
  | num (n : Number)
  | str (s : String)
deriving DecidableEq, Repr

namespace Token

/-! ## Strings -/

/-- The value of a hexadecimal digit. -/
def hexValue? (c : Char) : Option Nat :=
  if '0' ≤ c && c ≤ '9' then some (c.toNat - '0'.toNat)
  else if 'a' ≤ c && c ≤ 'f' then some (c.toNat - 'a'.toNat + 10)
  else if 'A' ≤ c && c ≤ 'F' then some (c.toNat - 'A'.toNat + 10)
  else none

/-- The value of four hexadecimal digits. -/
def hex4? (a b c d : Char) : Option Nat := do
  let a ← hexValue? a
  let b ← hexValue? b
  let c ← hexValue? c
  let d ← hexValue? d
  return ((a * 16 + b) * 16 + c) * 16 + d

/-- The character of an escape, given what follows the backslash, and the text behind the escape.
A surrogate stands only in a pair. -/
def readEscape : (cs : List Char) → Option (Char × { rest : List Char // rest.length < cs.length })
  | '"' :: r => some ('"', ⟨r, by simp⟩)
  | '\\' :: r => some ('\\', ⟨r, by simp⟩)
  | '/' :: r => some ('/', ⟨r, by simp⟩)
  | 'b' :: r => some ('\x08', ⟨r, by simp⟩)
  | 'f' :: r => some ('\x0c', ⟨r, by simp⟩)
  | 'n' :: r => some ('\n', ⟨r, by simp⟩)
  | 'r' :: r => some ('\r', ⟨r, by simp⟩)
  | 't' :: r => some ('\t', ⟨r, by simp⟩)
  | 'u' :: a :: b :: c :: d :: r =>
    match hex4? a b c d with
    | none => none
    | some n =>
      if 0xDC00 ≤ n && n ≤ 0xDFFF then none
      else if 0xD800 ≤ n && n ≤ 0xDBFF then
        match r with
        | '\\' :: 'u' :: a :: b :: c :: d :: r =>
          match hex4? a b c d with
          | none => none
          | some m =>
            if 0xDC00 ≤ m && m ≤ 0xDFFF then
              some (Char.ofNat (0x10000 + (n - 0xD800) * 0x400 + (m - 0xDC00)),
                ⟨r, by simp; omega⟩)
            else none
        | _ => none
      else some (Char.ofNat n, ⟨r, by simp; omega⟩)
  | _ => none

/-- The string up to the closing quote, characters read so far in reverse, and the text behind it. -/
def readString (cs : List Char) (before : List Char) :
    Option (String × { rest : List Char // rest.length ≤ cs.length }) :=
  match cs with
  | [] => none
  | '"' :: r => some (String.ofList before.reverse, ⟨r, by simp⟩)
  | '\\' :: r =>
    match readEscape r with
    | none => none
    | some (c, ⟨r', h⟩) =>
      (readString r' (c :: before)).map fun (s, ⟨r'', h'⟩) => (s, ⟨r'', by simp; omega⟩)
  | c :: r =>
    if c.toNat < 0x20 then none
    else (readString r (c :: before)).map fun (s, ⟨r', h⟩) => (s, ⟨r', by simp; omega⟩)
termination_by cs.length

/-- Lower-case hexadecimal digit of a number below sixteen. -/
def hexDigit (n : Nat) : Char := Nat.digitChar n

/-- How a character stands in a quoted string. -/
def escapeChar (c : Char) : List Char :=
  if c == '"' then ['\\', '"']
  else if c == '\\' then ['\\', '\\']
  else if c == '\x08' then ['\\', 'b']
  else if c == '\x0c' then ['\\', 'f']
  else if c == '\n' then ['\\', 'n']
  else if c == '\r' then ['\\', 'r']
  else if c == '\t' then ['\\', 't']
  else if c.toNat < 0x20 then ['\\', 'u', '0', '0', hexDigit (c.toNat / 16), hexDigit (c.toNat % 16)]
  else [c]

/-- A string in double quotes; quotes, backslashes and control characters are escaped. -/
def quote (s : String) : String :=
  "\"" ++ String.ofList (s.toList.flatMap escapeChar) ++ "\""

/-! ## Numbers -/

def isDigit (c : Char) : Bool := '0' ≤ c && c ≤ '9'

def digitValue (c : Char) : Nat := c.toNat - '0'.toNat

/-- The leading digits of a text and what follows them. -/
def readDigits : List Char → List Nat × List Char
  | [] => ([], [])
  | c :: r =>
    if isDigit c then
      let (ds, rest) := readDigits r
      (digitValue c :: ds, rest)
    else ([], c :: r)

/-- Reading digits loses nothing. -/
theorem readDigits_length (cs : List Char) :
    (readDigits cs).1.length + (readDigits cs).2.length = cs.length := by
  induction cs with
  | nil => simp [readDigits]
  | cons c r ih =>
    simp only [readDigits]
    split
    · simp; omega
    · simp

/-- The value of a list of digits. -/
def digitsValue (ds : List Nat) : Nat := ds.foldl (fun n d => n * 10 + d) 0

/-- An optional fraction: a point and at least one digit. -/
def readFraction (cs : List Char) :
    Option (List Nat × { rest : List Char // rest.length ≤ cs.length }) :=
  match cs with
  | '.' :: r =>
    match h : readDigits r with
    | ([], _) => none
    | (ds, rest) =>
      some (ds, ⟨rest, by have := readDigits_length r; rw [h] at this; simp at this ⊢; omega⟩)
  | cs => some ([], ⟨cs, Nat.le_refl _⟩)

/-- The digits of an exponent behind its sign. -/
def readExponentDigits (negative : Bool) (r : List Char) :
    Option (Option Int × { rest : List Char // rest.length ≤ r.length }) :=
  match h : readDigits r with
  | ([], _) => none
  | (ds, rest) =>
    let n : Int := digitsValue ds
    some (some (if negative then -n else n),
      ⟨rest, by have := readDigits_length r; rw [h] at this; simp at this ⊢; omega⟩)

/-- An optional exponent: `e`, a sign if any, and at least one digit. -/
def readExponent (cs : List Char) :
    Option (Option Int × { rest : List Char // rest.length ≤ cs.length }) :=
  match cs with
  | c :: r =>
    if c == 'e' || c == 'E' then
      match r with
      | '+' :: r => (readExponentDigits false r).map fun (e, ⟨t, h⟩) => (e, ⟨t, by simp; omega⟩)
      | '-' :: r => (readExponentDigits true r).map fun (e, ⟨t, h⟩) => (e, ⟨t, by simp; omega⟩)
      | r => (readExponentDigits false r).map fun (e, ⟨t, h⟩) => (e, ⟨t, by simp; omega⟩)
    else some (none, ⟨c :: r, Nat.le_refl _⟩)
  | [] => some (none, ⟨[], Nat.le_refl _⟩)

/-- A number behind its sign.  A leading zero stands alone. -/
def readUnsigned (negative : Bool) (cs : List Char) :
    Option (Number × { rest : List Char // rest.length < cs.length }) :=
  match h : readDigits cs with
  | ([], _) => none
  | (d :: ds, r) =>
    if d == 0 && !ds.isEmpty then none
    else
      match readFraction r with
      | none => none
      | some (fraction, ⟨r', h'⟩) =>
        match readExponent r' with
        | none => none
        | some (exponent, ⟨r'', h''⟩) =>
          (Number.ofLiteral ⟨negative, d :: ds, fraction, exponent⟩).map fun n =>
            (n, ⟨r'', by have := readDigits_length cs; rw [h] at this; simp at this; omega⟩)

/-! ## Text to tokens -/

/-- Blanks between tokens. -/
def isBlank (c : Char) : Bool := c == ' ' || c == '\n' || c == '\t' || c == '\r'

/-- Every token of the text in order. -/
def ofChars? (cs : List Char) : Option (List Token) :=
  match cs with
  | [] => some []
  | '{' :: r => (ofChars? r).map (.openBrace :: ·)
  | '}' :: r => (ofChars? r).map (.closeBrace :: ·)
  | '[' :: r => (ofChars? r).map (.openBracket :: ·)
  | ']' :: r => (ofChars? r).map (.closeBracket :: ·)
  | ',' :: r => (ofChars? r).map (.comma :: ·)
  | ':' :: r => (ofChars? r).map (.colon :: ·)
  | 'n' :: 'u' :: 'l' :: 'l' :: r => (ofChars? r).map (.null :: ·)
  | 't' :: 'r' :: 'u' :: 'e' :: r => (ofChars? r).map (.bool true :: ·)
  | 'f' :: 'a' :: 'l' :: 's' :: 'e' :: r => (ofChars? r).map (.bool false :: ·)
  | '"' :: r =>
    match readString r [] with
    | none => none
    | some (s, ⟨rest, _h⟩) => (ofChars? rest).map (.str s :: ·)
  | '-' :: r =>
    match readUnsigned true r with
    | none => none
    | some (n, ⟨rest, _h⟩) => (ofChars? rest).map (.num n :: ·)
  | c :: r =>
    if isBlank c then ofChars? r
    else
      match readUnsigned false (c :: r) with
      | none => none
      | some (n, ⟨rest, _h⟩) => (ofChars? rest).map (.num n :: ·)
termination_by cs.length
decreasing_by all_goals simp_all <;> omega

/-- Every token of the text in order; `none` where the text has none. -/
def ofText? (text : String) : Option (List Token) := ofChars? text.toList

end Token

end Json

end DecoderForge
