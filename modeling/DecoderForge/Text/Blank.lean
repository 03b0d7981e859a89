/-!
# DecoderForge — blanks and lines

* `Text.trim` — a text without blanks at its ends, for the Unicode property White_Space.
* `Text.lines` — the lines of a text without their line ends.
-/

namespace DecoderForge.Text

/-- The characters with the Unicode property White_Space. -/
def isBlank (c : Char) : Bool :=
  let n := c.toNat
  (9 ≤ n && n ≤ 13) || n == 0x20 || n == 0x85 || n == 0xA0 || n == 0x1680
    || (0x2000 ≤ n && n ≤ 0x200A) || n == 0x2028 || n == 0x2029 || n == 0x202F
    || n == 0x205F || n == 0x3000

/-- Drops characters of a class from the end. -/
def dropRightWhile (p : Char → Bool) (s : List Char) : List Char :=
  (s.reverse.dropWhile p).reverse

/-- Drops blanks from both ends. -/
def trim (s : List Char) : List Char := dropRightWhile isBlank (s.dropWhile isBlank)

/-- The segments of a text between occurrences of a character; one more than there are occurrences. -/
def splitAt (sep : Char) : List Char → List (List Char)
  | [] => [[]]
  | c :: rest =>
    match splitAt sep rest with
    | [] => [[c]]
    | first :: more => if c == sep then [] :: first :: more else (c :: first) :: more

/-- A line without a carriage return at its end. -/
def dropReturn (line : List Char) : List Char :=
  if line.getLast? == some '\r' then line.dropLast else line

/-- Lines from the segments between line feeds: a line ends in a line feed or in a carriage return
and a line feed, and what follows the last line feed is a line only if it is not empty. -/
def linesOfSegments : List (List Char) → List (List Char)
  | [] => []
  | [last] => if last.isEmpty then [] else [last]
  | s :: rest => dropReturn s :: linesOfSegments rest

/-- The lines of a text without their line ends. -/
def lines (s : List Char) : List (List Char) := linesOfSegments (splitAt '\n' s)

/-- Segments joined with a separator in between. -/
def joinWith (sep : List Char) : List (List Char) → List Char
  | [] => []
  | [s] => s
  | s :: rest => s ++ sep ++ joinWith sep rest

/-- Every occurrence of a character replaced by a text. -/
def replaceChar (c : Char) (by' : List Char) (s : List Char) : List Char :=
  s.flatMap fun d => if d == c then by' else [d]

/-- Whether `part` begins `s`, and what follows it. -/
def dropStart? : (part s : List Char) → Option (List Char)
  | [], s => some s
  | _ :: _, [] => none
  | p :: part, c :: s => if p == c then dropStart? part s else none

def startsWith (part s : List Char) : Bool := (dropStart? part s).isSome

/-- Every occurrence of a non-empty text replaced by another, from left to right. -/
def replaceAll (part by' : List Char) : List Char → List Char
  | [] => []
  | c :: s =>
    match part, dropStart? part (c :: s) with
    | p :: part', some _ =>
      -- the occurrence begins here: skip the rest of it
      by' ++ skip part' p s
    | _, _ => c :: replaceAll part by' s
where
  /-- Replaces in what follows an occurrence, of which `part'` is still to be passed. -/
  skip (part' : List Char) (p : Char) : List Char → List Char
    | [] => []
    | c :: s =>
      match part' with
      | [] => replaceAll part by' (c :: s)
      | _ :: more => skip more p s

end DecoderForge.Text
