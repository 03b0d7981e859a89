import DecoderForge.Pattern.CharSet

/-!
# DecoderForge — patterns and matching

A pattern matches a part of a text.  Matching lists the ends of all parts that begin at a place, the
preferred one first; so choice, look-around, groups that never give back what they took, and references
to earlier groups all have the same kind of meaning.

* `Pattern.Node.ends` — where matches that begin at a state end.
* `Pattern.Node.isFoundIn` — whether a pattern matches some part of a text.
-/

namespace DecoderForge.Pattern

/-- A condition on a place in a text. -/
inductive Anchor where
  | textStart
  | textEnd
  | lineStart
  | lineEnd
  | wordBoundary
  | noWordBoundary
deriving DecidableEq, Repr

/-- A pattern. -/
inductive Node where
  | empty
  /-- One character of a set; with `fold` also one that differs in case only. -/
  | char (set : CharSet) (fold : Bool)
  | cat (a b : Node)
  | alt (a b : Node)
  /-- At least `min` and at most `max` times, as often as possible if `greedy`. -/
  | rep (node : Node) (min : Nat) (max : Option Nat) (greedy : Bool)
  | group (index : Nat) (node : Node)
  | backref (index : Nat) (fold : Bool)
  | anchor (a : Anchor)
  /-- Holds where the text ahead matches, or does not. -/
  | ahead (negative : Bool) (node : Node)
  /-- Holds where the `width` characters behind match, or do not. -/
  | behind (negative : Bool) (width : Nat) (node : Node)
  /-- Only the preferred match of the pattern inside. -/
  | atomic (node : Node)
deriving Repr

/-- A place in a text, and where the groups passed so far began and ended. -/
structure State where
  position : Nat
  groups : List (Nat × (Nat × Nat)) := []
deriving DecidableEq, Repr

namespace State

/-- The part of a text that a group holds. -/
def groupText? (s : State) (text : Array Char) (index : Nat) : Option (List Char) :=
  (s.groups.lookup index).map fun (first, last) => (text.extract first last).toList

end State

/-- Whether the characters on the two sides of a place make it the border of a word. -/
def isWordBorder (text : Array Char) (position : Nat) : Bool :=
  let before := if position == 0 then false else (text[position - 1]?).any Text.isWordCharacter
  let after := (text[position]?).any Text.isWordCharacter
  before != after

/-- Whether a condition holds at a place. -/
def Anchor.holds (text : Array Char) (position : Nat) : Anchor → Bool
  | .textStart => position == 0
  | .textEnd => position == text.size
  | .lineStart => position == 0 || text[position - 1]? == some '\n'
  | .lineEnd => position == text.size || text[position]? == some '\n'
  | .wordBoundary => isWordBorder text position
  | .noWordBoundary => !isWordBorder text position

/-- Each state once, at its first place. -/
def distinctStates : List State → List State
  | [] => []
  | s :: rest => s :: (distinctStates rest).filter (· != s)

/-- Whether two characters agree, with `fold` up to case. -/
def agrees (fold : Bool) (a b : Char) : Bool :=
  a == b || (fold && (CharSet.caseVariants a).contains b)

/-- Whether a text continues with given characters at a place. -/
def continuesWith (fold : Bool) (text : Array Char) (position : Nat) : List Char → Bool
  | [] => true
  | c :: rest =>
    (text[position]?).any (agrees fold c) && continuesWith fold text (position + 1) rest

/-! ## Repetition -/

/-- The ends of exactly so many repetitions. -/
def repeatExactly (once : State → List State) : Nat → State → List State
  | 0, s => [s]
  | n + 1, s => distinctStates ((once s).flatMap (repeatExactly once n))

/-- The ends of one more repetition, which has to move on. -/
def advances (once : State → List State) (s : State) : List State :=
  (once s).filter fun t => s.position < t.position

/-- The ends of at most so many repetitions. -/
def repeatAtMost (once : State → List State) (greedy : Bool) : Nat → State → List State
  | 0, s => [s]
  | n + 1, s =>
    let more := (advances once s).flatMap (repeatAtMost once greedy n)
    distinctStates (if greedy then more ++ [s] else s :: more)

/-- The ends of any number of repetitions, the last first, added to those found before.  A state that
was found before leads to nothing new; `fuel` bounds the places that are still ahead. -/
def repeatFreely (once : State → List State) (greedy : Bool) :
    Nat → List State → State → List State
  | 0, found, s => if found.contains s then found else s :: found
  | fuel + 1, found, s =>
    if found.contains s then found
    else if greedy then s :: (advances once s).foldl (repeatFreely once greedy fuel) found
    else (advances once s).foldl (repeatFreely once greedy fuel) (s :: found)

/-- The ends of a number of repetitions; `places` is the length of the text. -/
def repeatEnds (once : State → List State) (greedy : Bool) (places min : Nat) (max : Option Nat)
    (s : State) : List State :=
  let rest (t : State) : List State :=
    match max with
    | some n => repeatAtMost once greedy (n - min) t
    | none => (repeatFreely once greedy places [] t).reverse
  match min with
  | 0 => rest s
  | n => distinctStates ((repeatExactly once n s).flatMap rest)

namespace Node

/-- The ends of all matches that begin at a state, preferred ones first. -/
def ends (text : Array Char) : Node → State → List State
  | .empty, s => [s]
  | .char set fold, s =>
    match text[s.position]? with
    | none => []
    | some c =>
      if (if fold then set.hasFolded c else set.has c) then [{ s with position := s.position + 1 }]
      else []
  | .cat a b, s => distinctStates ((ends text a s).flatMap (ends text b))
  | .alt a b, s => distinctStates (ends text a s ++ ends text b s)
  | .rep node min max greedy, s =>
    repeatEnds (ends text node) greedy text.size min max s
  | .group index node, s =>
    (ends text node s).map fun t =>
      { t with groups := (index, (s.position, t.position)) :: t.groups.filter (·.1 != index) }
  | .backref index fold, s =>
    match s.groupText? text index with
    | none => []
    | some part =>
      if continuesWith fold text s.position part then
        [{ s with position := s.position + part.length }]
      else []
  | .anchor a, s => if a.holds text s.position then [s] else []
  | .ahead negative node, s =>
    match ends text node s, negative with
    | [], true => [s]
    | [], false => []
    | _ :: _, true => []
    | t :: _, false => [{ t with position := s.position }]
  | .behind negative width node, s =>
    let found := if s.position < width then []
      else (ends text node { s with position := s.position - width }).filter
        fun t => t.position == s.position
    match found, negative with
    | [], true => [s]
    | [], false => []
    | _ :: _, true => []
    | t :: _, false => [t]
  | .atomic node, s => (ends text node s).take 1

/-- Whether the pattern matches at a place from `position` on; `fuel` counts the places left. -/
def matchesFrom (node : Node) (text : Array Char) : (fuel position : Nat) → Bool
  | 0, position => !(node.ends text ⟨position, []⟩).isEmpty
  | fuel + 1, position =>
    !(node.ends text ⟨position, []⟩).isEmpty || matchesFrom node text fuel (position + 1)

/-- Whether the pattern matches some part of a text. -/
def isFoundIn (node : Node) (text : String) : Bool :=
  let chars := text.toList.toArray
  node.matchesFrom chars chars.size 0

/-- The number of characters that every match has, if it is fixed. -/
def width? : Node → Option Nat
  | .empty | .anchor _ | .ahead _ _ | .behind _ _ _ => some 0
  | .char _ _ => some 1
  | .cat a b =>
    match a.width?, b.width? with
    | some m, some n => some (m + n)
    | _, _ => none
  | .alt a b =>
    match a.width?, b.width? with
    | some m, some n => if m == n then some m else none
    | _, _ => none
  | .rep node min max _ =>
    match node.width?, max with
    | some n, some k => if min == k then some (n * k) else none
    | _, none => none
    | none, _ => none
  | .group _ node | .atomic node => node.width?
  | .backref _ _ => none

/-- Whether a quantifier may follow. -/
def isRepeatable : Node → Bool
  | .empty | .ahead _ _ | .behind _ _ _ => false
  | _ => true

/-- The references to groups inside a pattern. -/
def backrefs : Node → List Nat
  | .backref index _ => [index]
  | .cat a b | .alt a b => a.backrefs ++ b.backrefs
  | .rep node _ _ _ | .group _ node | .ahead _ node | .behind _ _ node | .atomic node => node.backrefs
  | _ => []

/-- Patterns one after another. -/
def catAll : List Node → Node
  | [] => .empty
  | [n] => n
  | n :: rest => .cat n (catAll rest)

/-- A choice of patterns. -/
def altAll : List Node → Node
  | [] => .empty
  | [n] => n
  | n :: rest => .alt n (altAll rest)

end Node

end DecoderForge.Pattern
