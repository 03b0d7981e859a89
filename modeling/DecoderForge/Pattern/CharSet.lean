import DecoderForge.Text.Blank
import DecoderForge.Text.Case

/-!
# DecoderForge — sets of characters in patterns

A character class is built from ranges and named properties by union, intersection and complement.

* `CharSet.has` — whether a character belongs to a set.
* `CharSet.ofProperty?` — the set that `\p` names.
-/

namespace DecoderForge.Pattern

/-- A set of characters. -/
inductive CharSet where
  | range (first last : Char)
  | letter
  | numeric
  | decimalDigit
  | alphabetic
  | lower
  | upper
  | mark
  | blank
  | word
  | compl (s : CharSet)
  | union (a b : CharSet)
  | inter (a b : CharSet)
deriving DecidableEq, Repr

namespace CharSet

/-- The empty set. -/
def none : CharSet := .range '\x01' '\x00'

def single (c : Char) : CharSet := .range c c

def ofList : List CharSet → CharSet
  | [] => none
  | [s] => s
  | s :: rest => .union s (ofList rest)

/-- Every character. -/
def all : CharSet := .compl none

/-- Whether a character belongs to a set. -/
def has : CharSet → Char → Bool
  | .range first last, c => first ≤ c && c ≤ last
  | .letter, c => Text.isLetter c
  | .numeric, c => Text.isNumeric c
  | .decimalDigit, c => Text.isDecimalDigit c
  | .alphabetic, c => Text.isAlphabetic c
  | .lower, c => Text.isLower c
  | .upper, c => Text.isUpper c
  | .mark, c => Text.marks.has c.toNat
  | .blank, c => Text.isBlank c
  | .word, c => Text.isWordCharacter c
  | .compl s, c => !s.has c
  | .union a b, c => a.has c || b.has c
  | .inter a b, c => a.has c && b.has c

/-- The characters that differ from `c` in case only, `c` among them. -/
def caseVariants (c : Char) : List Char :=
  let single (cs : List Char) : List Char := if cs.length == 1 then cs else []
  let ups := single (Text.toUpper c)
  c :: (ups ++ single (Text.toLower c) ++ ups.flatMap fun u => single (Text.toLower u))

/-- Whether a character or one that differs from it in case belongs to a set. -/
def hasFolded (s : CharSet) (c : Char) : Bool := (caseVariants c).any s.has

/-! ## Names -/

def asciiDigit : CharSet := .range '0' '9'

def hexDigit : CharSet := ofList [asciiDigit, .range 'a' 'f', .range 'A' 'F']

/-- The set of a property name, blanks, hyphens and underscores left out and in small letters. -/
def ofPropertyName? : String → Option CharSet
  | "l" | "letter" => some .letter
  | "n" | "number" => some .numeric
  | "nd" | "decimalnumber" | "digit" => some .decimalDigit
  | "m" | "mark" | "combiningmark" => some .mark
  | "alphabetic" | "alpha" => some .alphabetic
  | "lowercase" | "lower" => some .lower
  | "uppercase" | "upper" => some .upper
  | "ll" | "lowercaseletter" => some (.inter .letter .lower)
  | "lu" | "uppercaseletter" => some (.inter .letter .upper)
  | "whitespace" | "space" => some .blank
  | "any" => some all
  | "ascii" => some (.range '\x00' '\x7f')
  | _ => Option.none

/-- The set that a property names. -/
def ofProperty? (name : List Char) : Option CharSet :=
  let plain := (name.filter fun c => c != ' ' && c != '-' && c != '_').map Char.toLower
  ofPropertyName? (String.ofList plain)

/-- The set of a name between `[:` and `:]`. -/
def ofAsciiName? : String → Option CharSet
  | "alnum" => some (ofList [asciiDigit, .range 'A' 'Z', .range 'a' 'z'])
  | "alpha" => some (ofList [.range 'A' 'Z', .range 'a' 'z'])
  | "ascii" => some (.range '\x00' '\x7f')
  | "blank" => some (ofList [single '\t', single ' '])
  | "cntrl" => some (ofList [.range '\x00' '\x1f', single '\x7f'])
  | "digit" => some asciiDigit
  | "graph" => some (.range '!' '~')
  | "lower" => some (.range 'a' 'z')
  | "print" => some (.range ' ' '~')
  | "punct" => some (ofList [.range '!' '/', .range ':' '@', .range '[' '\x60', .range '\x7b' '~'])
  | "space" => some (ofList [.range '\t' '\r', single ' '])
  | "upper" => some (.range 'A' 'Z')
  | "word" => some (ofList [asciiDigit, .range 'A' 'Z', .range 'a' 'z', single '_'])
  | "xdigit" => some hexDigit
  | _ => Option.none

end CharSet

end DecoderForge.Pattern
