import DecoderForge.Json.Token

/-!
# DecoderForge — layout of generated text

A `Style` fixes the indentation, the quotes and the line ends of generated text.

* `Style.quote` — a text as a string literal in the style's quotes.
-/

namespace DecoderForge

/-- The two line ends. -/
inductive EndOfLine where
  | lf
  | crlf
deriving DecidableEq, Repr, Inhabited

/-- The text of a line end. -/
def EndOfLine.chars : EndOfLine → List Char
  | .lf => ['\n']
  | .crlf => ['\r', '\n']

/-- Layout of generated text. -/
structure Style where
  tabWidth : Nat := 2
  useTabs : Bool := false
  singleQuote : Bool := true
  endOfLine : EndOfLine := .lf
deriving DecidableEq, Repr, Inhabited

namespace Style

/-- One level of indentation. -/
def indentUnit (s : Style) : List Char := if s.useTabs then ['\t'] else List.replicate s.tabWidth ' '

/-- The quote around string literals. -/
def quoteMark (s : Style) : Char := if s.singleQuote then '\'' else '"'

/-- How a character stands inside a string literal with quote `mark`.

Backslash, the quote itself, control characters and everything that ends a line are escaped. -/
def escapeChar (mark c : Char) : List Char :=
  if c == '\\' then ['\\', '\\']
  else if c == '\n' then ['\\', 'n']
  else if c == '\r' then ['\\', 'r']
  else if c == '\t' then ['\\', 't']
  else if c == '\u2028' then ['\\', 'u', '2', '0', '2', '8']
  else if c == '\u2029' then ['\\', 'u', '2', '0', '2', '9']
  else if c == mark then ['\\', mark]
  else if c.toNat < 0x20 then
    ['\\', 'u', '0', '0', Json.Token.hexDigit (c.toNat / 16), Json.Token.hexDigit (c.toNat % 16)]
  else [c]

/-- The characters of a string literal. -/
def quoteChars (s : Style) (value : List Char) : List Char :=
  s.quoteMark :: value.flatMap (escapeChar s.quoteMark) ++ [s.quoteMark]

/-- A text as a string literal. -/
def quote (s : Style) (value : String) : String := String.ofList (s.quoteChars value.toList)

end Style

end DecoderForge
