import DecoderForge.Json.Token

/-!
# DecoderForge — keys and strings of TOML

* `Toml.readString?` — a string of any of the four kinds.
* `Toml.readKey?` — a key with dots.
* `Toml.quote` — a text as a string, in the kind that needs the fewest escapes.
-/

namespace DecoderForge.Toml

/-! ## Blanks -/

def isSpace (c : Char) : Bool := c == ' ' || c == '\t'

def dropSpaces (s : List Char) : List Char := s.dropWhile isSpace

/-- Characters that stand for themselves: no control characters but the tab. -/
def isPlain (c : Char) : Bool := c == '\t' || (0x20 ≤ c.toNat && c.toNat != 0x7F)

/-- What follows a line end. -/
def dropNewline? : List Char → Option (List Char)
  | '\n' :: rest => some rest
  | '\r' :: '\n' :: rest => some rest
  | _ => none

/-- What follows a line end, or all of it where none stands. -/
def dropFirstNewline (s : List Char) : List Char := (dropNewline? s).getD s

/-! ## Reading strings -/

/-- The character that a hexadecimal number names. -/
def charOfHex? (digits : List Char) : Option Char := do
  let values ← digits.mapM Json.Token.hexValue?
  let n := values.foldl (fun n d => n * 16 + d) 0
  if n < 0xD800 || (0xDFFF < n && n < 0x110000) then some (Char.ofNat n) else none

/-- The character of an escape behind its backslash, and the rest. -/
def readEscape? : List Char → Option (Char × List Char)
  | 'b' :: rest => some ('\x08', rest)
  | 't' :: rest => some ('\t', rest)
  | 'n' :: rest => some ('\n', rest)
  | 'f' :: rest => some ('\x0c', rest)
  | 'r' :: rest => some ('\r', rest)
  | '"' :: rest => some ('"', rest)
  | '\\' :: rest => some ('\\', rest)
  | 'u' :: rest =>
    if rest.length < 4 then none else (charOfHex? (rest.take 4)).map fun c => (c, rest.drop 4)
  | 'U' :: rest =>
    if rest.length < 8 then none else (charOfHex? (rest.take 8)).map fun c => (c, rest.drop 8)
  | _ => none

/-- The rest of a string on one line, with escapes.  The number bounds the characters to be read. -/
def readBasic? : Nat → List Char → Option (List Char × List Char)
  | 0, _ => none
  | n + 1, s =>
    match s with
    | '"' :: rest => some ([], rest)
    | '\\' :: rest => do
      let (c, rest) ← readEscape? rest
      let (more, rest) ← readBasic? n rest
      return (c :: more, rest)
    | c :: rest =>
      if isPlain c then (readBasic? n rest).map fun (more, rest) => (c :: more, rest) else none
    | [] => none

/-- The rest of a string on one line, without escapes. -/
def readLiteral? : List Char → Option (List Char × List Char)
  | '\'' :: rest => some ([], rest)
  | c :: rest =>
    if isPlain c then (readLiteral? rest).map fun (more, rest) => (c :: more, rest) else none
  | [] => none

/-- Quotes at the end of a block: three close it, and up to two before them belong to it. -/
def closeBlock? (quote : Char) : List Char → Option (List Char × List Char)
  | a :: b :: c :: rest =>
    if a == quote && b == quote && c == quote then
      match rest with
      | d :: e :: rest' =>
        if d == quote && e == quote then some ([quote, quote], rest')
        else if d == quote then some ([quote], e :: rest')
        else some ([], rest)
      | [d] => if d == quote then some ([quote], []) else some ([], rest)
      | [] => some ([], rest)
    else none
  | _ => none

/-- What follows blanks and line ends, if the first line end comes before all else. -/
def dropContinuation? (s : List Char) : Option (List Char) :=
  (dropNewline? (dropSpaces s)).map fun rest =>
    rest.dropWhile fun c => isSpace c || c == '\n' || c == '\r'

/-- The rest of a block with escapes; a backslash at the end of a line drops the blanks that follow. -/
def readBasicBlock? : Nat → List Char → Option (List Char × List Char)
  | 0, _ => none
  | n + 1, s =>
    match closeBlock? '"' s with
    | some done => some done
    | none =>
      match s with
      | '\\' :: rest =>
        match dropContinuation? rest with
        | some rest => readBasicBlock? n rest
        | none => do
          let (c, rest) ← readEscape? rest
          let (more, rest) ← readBasicBlock? n rest
          return (c :: more, rest)
      | c :: rest =>
        match dropNewline? s with
        | some rest => (readBasicBlock? n rest).map fun (more, rest) => ('\n' :: more, rest)
        | none =>
          if isPlain c then (readBasicBlock? n rest).map fun (more, rest) => (c :: more, rest)
          else none
      | [] => none

/-- The rest of a block without escapes. -/
def readLiteralBlock? : Nat → List Char → Option (List Char × List Char)
  | 0, _ => none
  | n + 1, s =>
    match closeBlock? '\'' s with
    | some done => some done
    | none =>
      match dropNewline? s with
      | some rest => (readLiteralBlock? n rest).map fun (more, rest) => ('\n' :: more, rest)
      | none =>
        match s with
        | c :: rest =>
          if isPlain c then (readLiteralBlock? n rest).map fun (more, rest) => (c :: more, rest)
          else none
        | [] => none

/-- A string of any kind, and the rest. -/
def readString? (s : List Char) : Option (List Char × List Char) :=
  match s with
  | '"' :: '"' :: '"' :: rest => readBasicBlock? s.length (dropFirstNewline rest)
  | '\'' :: '\'' :: '\'' :: rest => readLiteralBlock? s.length (dropFirstNewline rest)
  | '"' :: rest => readBasic? s.length rest
  | '\'' :: rest => readLiteral? rest
  | _ => none

/-! ## Reading keys -/

/-- Characters of a key without quotes. -/
def isBare (c : Char) : Bool := c.isAlphanum || c == '_' || c == '-'

/-- One part of a key, and the rest. -/
def readKeyPart? (s : List Char) : Option (String × List Char) :=
  match s with
  | '"' :: rest => (readBasic? s.length rest).map fun (k, rest) => (String.ofList k, rest)
  | '\'' :: rest => (readLiteral? rest).map fun (k, rest) => (String.ofList k, rest)
  | _ =>
    match s.takeWhile isBare with
    | [] => none
    | k => some (String.ofList k, s.dropWhile isBare)

/-- The parts of a key between dots, and the rest. -/
def readKeyWithin? : Nat → List Char → Option (List String × List Char)
  | 0, _ => none
  | n + 1, s => do
    let (part, rest) ← readKeyPart? (dropSpaces s)
    match dropSpaces rest with
    | '.' :: rest =>
      let (more, rest) ← readKeyWithin? n rest
      return (part :: more, rest)
    | rest => return ([part], rest)

/-- The parts of a key between dots, and the rest. -/
def readKey? (s : List Char) : Option (List String × List Char) := readKeyWithin? s.length s

/-! ## Writing -/

/-- The length of the longest row of a character. -/
def longestRow (c : Char) (s : List Char) : Nat := go 0 s
where
  /-- The longest row, of which `row` characters are passed. -/
  go (row : Nat) : List Char → Nat
    | [] => row
    | d :: rest => if d == c then go (row + 1) rest else max row (go 0 rest)

/-- Whether a text holds control characters other than tabs and line feeds. -/
def hasControls (s : List Char) : Bool :=
  s.any fun c => (c.toNat < 0x20 && c != '\t' && c != '\n') || c.toNat == 0x7F

/-- Hexadecimal digits of a number below 65536, in capitals. -/
def hex4 (n : Nat) : List Char :=
  [n / 4096, n / 256 % 16, n / 16 % 16, n % 16].map fun d => (Nat.digitChar d).toUpper

/-- A character inside a string with escapes. -/
def escapeChar (keepsNewlines : Bool) (c : Char) : List Char :=
  if c == '\x08' then ['\\', 'b']
  else if c == '\t' then ['\\', 't']
  else if c == '\n' then if keepsNewlines then ['\n'] else ['\\', 'n']
  else if c == '\x0c' then ['\\', 'f']
  else if c == '\r' then ['\\', 'r']
  else if c == '"' then ['\\', '"']
  else if c == '\\' then ['\\', '\\']
  else if c.toNat < 0x20 || c.toNat == 0x7F then '\\' :: 'u' :: hex4 c.toNat
  else [c]

/-- The characters of a block with escapes, of which `row` quotes are passed; a third quote in a row is
escaped. -/
def escapeBlock (row : Nat) : List Char → List Char
  | [] => []
  | '"' :: rest => if row < 2 then '"' :: escapeBlock (row + 1) rest else '\\' :: '"' :: escapeBlock 0 rest
  | c :: rest => escapeChar true c ++ escapeBlock 0 rest

/-- A text between delimiters; a block with line ends begins on a line of its own. -/
def delimited (mark : List Char) (startsLine : Bool) (body : List Char) : List Char :=
  mark ++ (if startsLine then ['\n'] else []) ++ body ++ mark

def basicString (s : List Char) : List Char := delimited ['"'] false (s.flatMap (escapeChar false))

/-- A text as a string: plain in double quotes, else in single quotes, else as a block, else with
escapes. -/
def quote (s : List Char) : List Char :=
  let controls := hasControls s
  let newline := s.contains '\n'
  let backslash := s.contains '\\'
  let doubles := longestRow '"' s
  let singles := longestRow '\'' s
  if !controls && !backslash && doubles == 0 && !newline then basicString s
  else if !controls && singles == 0 && !newline then delimited ['\''] false s
  else if !controls && !backslash && doubles ≤ 2 then
    delimited ['"', '"', '"'] newline (escapeBlock 0 s)
  else if !controls && singles ≤ 2 then delimited ['\'', '\'', '\''] newline s
  else if newline then delimited ['"', '"', '"'] true (escapeBlock 0 s)
  else basicString s

/-- A key as it is written. -/
def quoteKey (s : List Char) : List Char :=
  if !s.isEmpty && s.all isBare then s
  else
    let plain := !hasControls s && !s.contains '\n'
    if plain && !s.contains '\\' && !s.contains '"' then basicString s
    else if plain && !s.contains '\'' then delimited ['\''] false s
    else basicString s

end DecoderForge.Toml
