/-!
# DecoderForge — scanning generated text

The scanner reads a line at a time and knows of two nested things: what kind of text it is in (code,
strings, templates, comments) and which brackets are open.  A template may hold code, which may hold
templates, so the kinds form a stack.

* `Scanner.scan` — a scanner behind a line, or why the line does not fit.
-/

namespace DecoderForge.Layout

/-- Kinds of text. -/
inductive Region where
  | code
  /-- A string in single quotes. -/
  | single
  /-- A string in double quotes. -/
  | double
  /-- A template between backticks. -/
  | template
  /-- A block comment. -/
  | block
deriving DecidableEq, Repr

/-- What stands open. -/
inductive Bracket where
  /-- A bracket of code. -/
  | opened (c : Char)
  /-- The start of code inside a template. -/
  | templateExpr
deriving DecidableEq, Repr

/-- A scanner between two characters; the innermost region and bracket come first. -/
structure Scanner where
  regions : List Region
  brackets : List Bracket
deriving DecidableEq, Repr

/-- Why a line does not fit. -/
inductive LineFault where
  | unbalanced (c : Char)
  | unterminatedString
deriving DecidableEq, Repr

namespace Scanner

/-- Before the first line. -/
def initial : Scanner := ⟨[.code], []⟩

/-- The innermost region. -/
def region (s : Scanner) : Region := s.regions.head?.getD .code

/-- How many brackets of code are open. -/
def depth (s : Scanner) : Nat :=
  s.brackets.countP fun
    | .opened _ => true
    | .templateExpr => false

def enter (s : Scanner) (r : Region) : Scanner := { s with regions := r :: s.regions }

def leave (s : Scanner) : Scanner := { s with regions := s.regions.tail }

/-- The bracket that a closing one closes. -/
def opener (c : Char) : Char := if c == '}' then '{' else if c == ')' then '(' else '['

/-- What a character does. -/
inductive Move where
  | fail (fault : LineFault)
  /-- The rest of the line is a comment. -/
  | endLine
  /-- Goes on behind the character. -/
  | one (s : Scanner)
  /-- Goes on behind the character and the next. -/
  | two (s : Scanner)

/-- A character of code. -/
def moveCode (s : Scanner) (c : Char) (next : Option Char) : Move :=
  if c == '/' && next == some '/' then .endLine
  else if c == '/' && next == some '*' then .two (s.enter .block)
  else if c == '\'' then .one (s.enter .single)
  else if c == '"' then .one (s.enter .double)
  else if c == '\x60' then .one (s.enter .template)
  else if c == '{' || c == '(' || c == '[' then .one { s with brackets := .opened c :: s.brackets }
  else if c == '}' || c == ')' || c == ']' then
    match s.brackets with
    | .templateExpr :: rest =>
      if c == '}' then .one ⟨s.regions.tail, rest⟩ else .fail (.unbalanced c)
    | .opened o :: rest =>
      if o == opener c then .one { s with brackets := rest } else .fail (.unbalanced c)
    | [] => .fail (.unbalanced c)
  else .one s

/-- A character of a string with that quote. -/
def moveString (s : Scanner) (quote c : Char) : Move :=
  if c == '\\' then .two s
  else if c == quote then .one s.leave
  else .one s

/-- A character of a template. -/
def moveTemplate (s : Scanner) (c : Char) (next : Option Char) : Move :=
  if c == '\\' then .two s
  else if c == '\x60' then .one s.leave
  else if c == '$' && next == some '{' then
    .two ⟨.code :: s.regions, .templateExpr :: s.brackets⟩
  else .one s

/-- A character of a block comment. -/
def moveBlock (s : Scanner) (c : Char) (next : Option Char) : Move :=
  if c == '*' && next == some '/' then .two s.leave else .one s

/-- A character with the one behind it. -/
def move (s : Scanner) (c : Char) (next : Option Char) : Move :=
  match s.region with
  | .code => s.moveCode c next
  | .single => s.moveString '\'' c
  | .double => s.moveString '"' c
  | .template => s.moveTemplate c next
  | .block => s.moveBlock c next

/-- The characters of a line. -/
def advance (s : Scanner) : List Char → Except LineFault Scanner
  | [] => .ok s
  | [c] =>
    match s.move c none with
    | .fail f => .error f
    | .endLine => .ok s
    | .one s' | .two s' => .ok s'
  | c :: d :: rest =>
    match s.move c (some d) with
    | .fail f => .error f
    | .endLine => .ok s
    | .one s' => advance s' (d :: rest)
    | .two s' => advance s' rest

/-- A whole line; a string has to end on it. -/
def scan (s : Scanner) (line : List Char) : Except LineFault Scanner :=
  match s.advance line with
  | .error f => .error f
  | .ok s' =>
    match s'.region with
    | .single | .double => .error .unterminatedString
    | _ => .ok s'

end Scanner

end DecoderForge.Layout
