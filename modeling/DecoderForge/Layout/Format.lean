import DecoderForge.Layout.Scanner
import DecoderForge.Style
import DecoderForge.Text.Blank

/-!
# DecoderForge — canonical layout

The formatter changes blanks at the ends of lines and nothing else: each line is indented by the
number of open brackets, rows of empty lines shrink to one, and line ends are the style's.  Lines that
begin inside a template stay as they are.

* `Layout.format` — the text in canonical layout, or where its brackets and strings do not match.
-/

namespace DecoderForge.Layout

/-- Why a text has no layout. -/
inductive Fault where
  | unbalanced (c : Char) (line : Nat)
  | unterminatedString (line : Nat)
  | unterminatedRegion
  | unclosedBrackets (count : Nat)
deriving DecidableEq, Repr

/-- The wording of a fault. -/
def Fault.message : Fault → String
  | .unbalanced c line => "unbalanced '" ++ String.singleton c ++ "' on line " ++ toString line
  | .unterminatedString line => "unterminated string on line " ++ toString line
  | .unterminatedRegion => "unterminated comment or template literal at end of input"
  | .unclosedBrackets count => toString count ++ " unclosed bracket(s) at end of input"

/-- The fault of a line with its number. -/
def LineFault.onLine (line : Nat) : LineFault → Fault
  | .unbalanced c => .unbalanced c line
  | .unterminatedString => .unterminatedString line

/-- A formatter between two lines; `lines` holds what is written so far, the last line first. -/
structure Progress where
  scanner : Scanner
  lines : List (List Char)
  /-- Whether the last line read was empty. -/
  blankRun : Bool
deriving Repr

/-- Number of closing brackets with which a line begins. -/
def leadingClosers (line : List Char) : Nat :=
  (line.takeWhile fun c => c == '}' || c == ')' || c == ']').length

/-- So many copies of a text. -/
def repeatChars (unit : List Char) : Nat → List Char
  | 0 => []
  | n + 1 => unit ++ repeatChars unit n

/-- A trimmed line at its place. -/
def layLine (unit : List Char) (s : Scanner) (trimmed : List Char) : List Char :=
  if s.region == .block then
    repeatChars unit s.depth ++ (if trimmed.head? == some '*' then [' '] else []) ++ trimmed
  else repeatChars unit (s.depth - leadingClosers trimmed) ++ trimmed

/-- One line of the source. -/
def formatLine (unit : List Char) (number : Nat) (p : Progress) (raw : List Char) :
    Except Fault Progress :=
  let raw := Text.dropRightWhile (· == '\r') raw
  if p.scanner.region == .template then
    match p.scanner.scan raw with
    | .ok s => .ok ⟨s, raw :: p.lines, false⟩
    | .error f => .error (f.onLine number)
  else
    let trimmed := Text.trim raw
    if trimmed.isEmpty then
      let lines := if !p.blankRun && !p.lines.isEmpty then [] :: p.lines else p.lines
      .ok ⟨p.scanner, lines, true⟩
    else
      match p.scanner.scan trimmed with
      | .ok s => .ok ⟨s, layLine unit p.scanner trimmed :: p.lines, false⟩
      | .error f => .error (f.onLine number)

/-- The lines of the source from number `number` on. -/
def formatLines (unit : List Char) (number : Nat) (p : Progress) :
    List (List Char) → Except Fault Progress
  | [] => .ok p
  | raw :: rest => do
    let p ← formatLine unit number p raw
    formatLines unit (number + 1) p rest

/-- The text in the layout of a style. -/
def formatChars (source : List Char) (style : Style) : Except Fault (List Char) := do
  let p ← formatLines style.indentUnit 1 ⟨.initial, [], false⟩ (Text.lines source)
  if p.scanner.region != .code then throw .unterminatedRegion
  if !p.scanner.brackets.isEmpty then throw (.unclosedBrackets p.scanner.brackets.length)
  let newline := style.endOfLine.chars
  let lines := (p.lines.dropWhile List.isEmpty).reverse
  return Text.joinWith newline lines ++ newline

/-- The text in the layout of a style. -/
def format (source : String) (style : Style) : Except Fault String :=
  (formatChars source.toList style).map String.ofList

end DecoderForge.Layout
