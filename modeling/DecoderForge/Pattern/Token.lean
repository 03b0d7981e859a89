import DecoderForge.Json.Token
import DecoderForge.Pattern.Basic

/-!
# DecoderForge — tokens of pattern text

* `Pattern.Token.ofChars?` — the tokens of a pattern, `none` where an escape, a class or a group head is
  malformed.
-/

namespace DecoderForge.Pattern

/-- What a group is for. -/
inductive GroupKind where
  | capture (name : Option (List Char))
  /-- Only grouping, with flags switched on and off inside. -/
  | plain (on off : List Char)
  | ahead (negative : Bool)
  | behind (negative : Bool)
  | atomic
deriving DecidableEq, Repr

/-- The smallest parts of a pattern. -/
inductive Token where
  | char (c : Char)
  | set (s : CharSet)
  | dot
  | caret
  | dollar
  | anchor (a : Anchor)
  | backref (index : Nat)
  | namedBackref (name : List Char)
  | open (kind : GroupKind)
  | close
  | bar
  /-- Flags switched on and off for the rest of the group. -/
  | flags (on off : List Char)
  | quantifier (min : Nat) (max : Option Nat) (lazy possessive : Bool)
deriving DecidableEq, Repr

namespace Token

/-! ## Escapes -/

/-- A character by its number. -/
def charOfNat? (n : Nat) : Option Char := if n.isValidChar then some (Char.ofNat n) else none

/-- The value of hexadecimal digits. -/
def hexValue? : List Char → Option Nat
  | [] => some 0
  | cs => cs.foldl (fun n c => n.bind fun n => (Json.Token.hexValue? c).map (n * 16 + ·)) (some 0)

/-- A character by its number in so many digits, or in braces. -/
def readHex (digits : Nat) (cs : List Char) : Option (Token × List Char) :=
  match cs with
  | '{' :: rest =>
    let ds := rest.takeWhile (· != '}')
    match rest.dropWhile (· != '}') with
    | '}' :: after =>
      if ds.isEmpty || ds.length > 8 then none
      else ((hexValue? ds).bind charOfNat?).map fun c => (.char c, after)
    | _ => none
  | cs =>
    let ds := cs.take digits
    if ds.length < digits then none
    else ((hexValue? ds).bind charOfNat?).map fun c => (.char c, cs.drop digits)

/-- The set that a property names, in braces or as one letter. -/
def readProperty (negative : Bool) (cs : List Char) : Option (Token × List Char) :=
  let finish (negative : Bool) (name after : List Char) : Option (Token × List Char) :=
    (CharSet.ofProperty? name).map fun s => (.set (if negative then .compl s else s), after)
  match cs with
  | '{' :: '^' :: rest =>
    match rest.dropWhile (· != '}') with
    | '}' :: after => finish (!negative) (rest.takeWhile (· != '}')) after
    | _ => none
  | '{' :: rest =>
    match rest.dropWhile (· != '}') with
    | '}' :: after => finish negative (rest.takeWhile (· != '}')) after
    | _ => none
  | c :: after => finish negative [c] after
  | [] => none

/-- A group name between two marks. -/
def readName (last : Char) (cs : List Char) : Option (List Char × List Char) :=
  match cs.dropWhile (· != last) with
  | _ :: after =>
    let name := cs.takeWhile (· != last)
    if name.isEmpty then none else some (name, after)
  | [] => none

/-- What an escape means inside and outside of classes, given what follows the backslash. -/
def readSharedEscape (c : Char) (rest : List Char) : Option (Token × List Char) :=
  match c with
  | 'd' => some (.set .decimalDigit, rest)
  | 'D' => some (.set (.compl .decimalDigit), rest)
  | 's' => some (.set .blank, rest)
  | 'S' => some (.set (.compl .blank), rest)
  | 'w' => some (.set .word, rest)
  | 'W' => some (.set (.compl .word), rest)
  | 'h' => some (.set .hexDigit, rest)
  | 'H' => some (.set (.compl .hexDigit), rest)
  | 'a' => some (.char '\x07', rest)
  | 'e' => some (.char '\x1b', rest)
  | 'f' => some (.char '\x0c', rest)
  | 'n' => some (.char '\n', rest)
  | 'r' => some (.char '\r', rest)
  | 't' => some (.char '\t', rest)
  | 'v' => some (.char '\x0b', rest)
  | 'x' => readHex 2 rest
  | 'u' => readHex 4 rest
  | 'U' => readHex 8 rest
  | 'p' => readProperty false rest
  | 'P' => readProperty true rest
  | c => if c.isAlphanum then none else some (.char c, rest)

/-- What an escape outside of classes means, given what follows the backslash. -/
def readEscape : List Char → Option (Token × List Char)
  | [] => none
  | 'A' :: rest => some (.anchor .textStart, rest)
  | 'z' :: rest => some (.anchor .textEnd, rest)
  | 'b' :: rest => some (.anchor .wordBoundary, rest)
  | 'B' :: rest => some (.anchor .noWordBoundary, rest)
  | 'k' :: '<' :: rest => (readName '>' rest).map fun (name, after) => (.namedBackref name, after)
  | 'k' :: '\'' :: rest => (readName '\'' rest).map fun (name, after) => (.namedBackref name, after)
  | c :: rest =>
    if Json.Token.isDigit c then
      let (ds, after) := Json.Token.readDigits (c :: rest)
      some (.backref (Json.Token.digitsValue ds), after)
    else readSharedEscape c rest

/-! ## Classes -/

/-- One character of a class or a set inside it, given that no bracket begins here. -/
def readClassAtom : List Char → Option (Token × List Char)
  | '\\' :: c :: rest => readSharedEscape c rest
  | '\\' :: [] => none
  | c :: rest => some (.char c, rest)
  | [] => none

/-- A set combined with what stands before an operator. -/
def combine : Option (Char × CharSet) → CharSet → CharSet
  | some ('&', left), right => .inter left right
  | some ('-', left), right => .inter left (.compl right)
  | some ('~', left), right => .union (.inter left (.compl right)) (.inter right (.compl left))
  | _, right => right

/-- A name between `[:` and `:]`, with what follows. -/
def readAsciiClass? (cs : List Char) : Option (CharSet × List Char) :=
  let (negative, cs) := match cs with
    | '^' :: rest => (true, rest)
    | cs => (false, cs)
  match cs.dropWhile (· != ':') with
  | ':' :: ']' :: after =>
    (CharSet.ofAsciiName? (String.ofList (cs.takeWhile (· != ':')))).map fun s =>
      (if negative then .compl s else s, after)
  | _ => none

/-- The items of a class up to its closing bracket.  `before` is what stands before an operator, `items`
what has been read since; `fuel` bounds the length of the text. -/
def readClassItems : (fuel : Nat) → Option (Char × CharSet) → CharSet → List Char →
    Option (CharSet × List Char)
  | 0, _, _, _ => none
  | _, _, _, [] => none
  | fuel + 1, before, items, cs =>
    match cs with
    | ']' :: rest => some (combine before items, rest)
    | '[' :: ':' :: rest =>
      match readAsciiClass? rest with
      | some (s, after) => readClassItems fuel before (.union items s) after
      | none => readNested fuel before items (':' :: rest)
    | '[' :: rest => readNested fuel before items rest
    | '&' :: '&' :: rest => readClassItems fuel (some ('&', combine before items)) .none rest
    | '-' :: '-' :: rest => readClassItems fuel (some ('-', combine before items)) .none rest
    | '~' :: '~' :: rest => readClassItems fuel (some ('~', combine before items)) .none rest
    | cs =>
      match readClassAtom cs with
      | some (.char first, '-' :: next :: after) =>
        if next == ']' || next == '-' then
          readClassItems fuel before (.union items (.single first)) ('-' :: next :: after)
        else
          match readClassAtom (next :: after) with
          | some (.char last, after) =>
            if next == '[' || last < first then none
            else readClassItems fuel before (.union items (.range first last)) after
          | _ => none
      | some (.char c, after) => readClassItems fuel before (.union items (.single c)) after
      | some (.set s, after) => readClassItems fuel before (.union items s) after
      | _ => none
where
  /-- A class inside a class. -/
  readNested (fuel : Nat) (before : Option (Char × CharSet)) (items : CharSet) (cs : List Char) :
      Option (CharSet × List Char) :=
    match fuel with
    | 0 => none
    | fuel + 1 =>
      let (negative, cs) := match cs with
        | '^' :: rest => (true, rest)
        | cs => (false, cs)
      let (first, cs) := match cs with
        | ']' :: rest => (.single ']', rest)
        | cs => (.none, cs)
      match readClassItems fuel none first cs with
      | some (s, after) =>
        readClassItems fuel before (.union items (if negative then .compl s else s)) after
      | none => none

/-- A class behind its opening bracket. -/
def readClass (cs : List Char) : Option (CharSet × List Char) :=
  let (negative, rest) := match cs with
    | '^' :: rest => (true, rest)
    | cs => (false, cs)
  let (first, rest) := match rest with
    | ']' :: rest => (.single ']', rest)
    | cs => (.none, cs)
  (readClassItems (cs.length + 1) none first rest).map fun (s, after) =>
    (if negative then .compl s else s, after)

/-! ## Quantifiers and groups -/

/-- A decimal number, if one begins here. -/
def readNumber? (cs : List Char) : Option (Nat × List Char) :=
  match Json.Token.readDigits cs with
  | ([], _) => none
  | (ds, rest) => some (Json.Token.digitsValue ds, rest)

/-- A number of repetitions behind an opening brace. -/
def readCount (cs : List Char) : Option (Nat × Option Nat × List Char) :=
  let start := match cs with
    | ',' :: _ => some (0, cs)
    | _ => readNumber? cs
  match start with
  | none => none
  | some (min, '}' :: rest) => some (min, some min, rest)
  | some (min, ',' :: rest) =>
    match readNumber? rest with
    | some (max, '}' :: rest) => some (min, some max, rest)
    | some _ => none
    | none =>
      match rest with
      | '}' :: rest => some (min, none, rest)
      | _ => none
  | some _ => none

/-- The marks behind a quantifier. -/
def readQuantifierMarks (min : Nat) (max : Option Nat) (cs : List Char) : Token × List Char :=
  let (lazy, cs) := match cs with
    | '?' :: rest => (true, rest)
    | cs => (false, cs)
  let (possessive, cs) := match cs with
    | '+' :: rest => (true, rest)
    | cs => (false, cs)
  (.quantifier min max lazy possessive, cs)

/-- Flags up to a colon or a closing parenthesis. -/
def readFlags (cs : List Char) : Option (Token × List Char) :=
  let isFlag (c : Char) : Bool := c.isAlpha || c == '-'
  let letters := cs.takeWhile isFlag
  let on := letters.takeWhile (· != '-')
  let off := (letters.dropWhile (· != '-')).drop 1
  if !(on ++ off).all (fun c => ['i', 'm', 's', 'x', 'U', 'u'].contains c) || off.contains 'u' then none
  else
    match cs.dropWhile isFlag with
    | ')' :: after => if letters.isEmpty then none else some (.flags on off, after)
    | ':' :: after => some (.open (.plain on off), after)
    | _ => none

/-- A group head behind its opening parenthesis. -/
def readGroup : List Char → Option (Token × List Char)
  | '?' :: '=' :: rest => some (.open (.ahead false), rest)
  | '?' :: '!' :: rest => some (.open (.ahead true), rest)
  | '?' :: '<' :: '=' :: rest => some (.open (.behind false), rest)
  | '?' :: '<' :: '!' :: rest => some (.open (.behind true), rest)
  | '?' :: '>' :: rest => some (.open .atomic, rest)
  | '?' :: 'P' :: '=' :: rest => (readName ')' rest).map fun (name, after) => (.namedBackref name, after)
  | '?' :: 'P' :: '<' :: rest => (readName '>' rest).map fun (name, after) => (.open (.capture (some name)), after)
  | '?' :: '<' :: rest => (readName '>' rest).map fun (name, after) => (.open (.capture (some name)), after)
  | '?' :: rest => readFlags rest
  | rest => some (.open (.capture none), rest)

/-- The next token.  `afterAtom` tells whether a quantifier may begin here. -/
def read (afterAtom : Bool) : List Char → Option (Token × List Char)
  | [] => none
  | '.' :: rest => some (.dot, rest)
  | '^' :: rest => some (.caret, rest)
  | '$' :: rest => some (.dollar, rest)
  | '|' :: rest => some (.bar, rest)
  | ')' :: rest => some (.close, rest)
  | '(' :: rest => readGroup rest
  | '[' :: rest => (readClass rest).map fun (s, after) => (.set s, after)
  | '\\' :: rest => readEscape rest
  | '*' :: rest => if afterAtom then some (readQuantifierMarks 0 none rest) else none
  | '+' :: rest => if afterAtom then some (readQuantifierMarks 1 none rest) else none
  | '?' :: rest => if afterAtom then some (readQuantifierMarks 0 (some 1) rest) else none
  | '{' :: rest =>
    if afterAtom then
      match readCount rest with
      | some (min, max, after) => some (readQuantifierMarks min max after)
      | none => some (.char '{', rest)
    else some (.char '{', rest)
  | c :: rest => some (.char c, rest)

/-- Whether a quantifier may follow a token. -/
def allowsQuantifier : Token → Bool
  | .open _ | .bar | .quantifier _ _ _ _ => false
  | _ => true

/-- All tokens; `fuel` bounds their number. -/
def readAll : (fuel : Nat) → (afterAtom : Bool) → List Char → Option (List Token)
  | _, _, [] => some []
  | 0, _, _ => none
  | fuel + 1, afterAtom, cs =>
    match read afterAtom cs with
    | none => none
    | some (t, rest) => (readAll fuel t.allowsQuantifier rest).map (t :: ·)

/-- The tokens of a pattern. -/
def ofChars? (cs : List Char) : Option (List Token) := readAll cs.length false cs

end Token

end DecoderForge.Pattern
