import DecoderForge.Pattern.Token

/-!
# DecoderForge — reading patterns

The reader is a stack machine over tokens: the stack holds the groups that are still open.

* `Pattern.read?` — the pattern of a text, `none` when the text is none.
* `Pattern.readPortable?` — the same with `\d`, `\w` and `\s` restricted to ASCII and `\cX` as a control
  character.
-/

namespace DecoderForge.Pattern

/-- Flags in force. -/
structure Flags where
  /-- Whether case is ignored. -/
  fold : Bool := false
  /-- Whether `^` and `$` stand for the ends of lines. -/
  multiLine : Bool := false
  /-- Whether a dot stands for a line feed too. -/
  dotAll : Bool := false
  /-- Whether quantifiers take as little as possible unless marked. -/
  swapGreed : Bool := false
deriving DecidableEq, Repr

/-- Flags with some switched on and some off. -/
def Flags.change (f : Flags) (on off : List Char) : Flags where
  fold := (f.fold || on.contains 'i') && !off.contains 'i'
  multiLine := (f.multiLine || on.contains 'm') && !off.contains 'm'
  dotAll := (f.dotAll || on.contains 's') && !off.contains 's'
  swapGreed := (f.swapGreed || on.contains 'U') && !off.contains 'U'

/-- A group that is read at present: finished alternatives and the sequence so far, both in reverse. -/
structure Level where
  alternatives : List Node := []
  sequence : List Node := []
  flags : Flags := {}

/-- The pattern of a finished group. -/
def Level.branches (l : Level) : List Node :=
  (Node.catAll l.sequence.reverse :: l.alternatives).reverse

/-- A reader between two tokens. -/
structure Reader where
  level : Level := {}
  /-- Groups around the present one, each with what the present one or the next is for. -/
  outer : List (GroupKind × Nat × Level) := []
  groupCount : Nat := 0
  names : List (List Char × Nat) := []

namespace Reader

/-- Adds a pattern to the sequence. -/
def push (r : Reader) (n : Node) : Reader :=
  { r with level := { r.level with sequence := n :: r.level.sequence } }

/-- A look behind; each alternative has a fixed width. -/
def lookBehind? (negative : Bool) (branches : List Node) : Option Node :=
  let one (n : Node) : Option Node := n.width?.map fun w => .behind negative w n
  (branches.mapM one).map fun ns => if negative then Node.catAll ns else Node.altAll ns

/-- The pattern of a group. -/
def closeGroup? (kind : GroupKind) (index : Nat) (branches : List Node) : Option Node :=
  match kind with
  | .capture _ => some (.group index (Node.altAll branches))
  | .plain _ _ => some (Node.altAll branches)
  | .ahead negative => some (.ahead negative (Node.altAll branches))
  | .behind negative => lookBehind? negative branches
  | .atomic => some (.atomic (Node.altAll branches))

/-- Opens a group. -/
def openGroup (r : Reader) (kind : GroupKind) : Reader :=
  let flags := match kind with
    | .plain on off => r.level.flags.change on off
    | _ => r.level.flags
  match kind with
  | .capture name =>
    let index := r.groupCount + 1
    { level := { flags }
      outer := (kind, index, r.level) :: r.outer
      groupCount := index
      names := match name with
        | some n => (n, index) :: r.names
        | none => r.names }
  | _ => { r with level := { flags }, outer := (kind, 0, r.level) :: r.outer }

/-- Repeats the last pattern of the sequence. -/
def quantify? (r : Reader) (min : Nat) (max : Option Nat) (lazy possessive : Bool) : Option Reader :=
  match r.level.sequence with
  | [] => none
  | n :: before =>
    if !n.isRepeatable || max.any (· < min) then none
    else
      let repeated : Node := .rep n min max (lazy == r.level.flags.swapGreed)
      let whole := if possessive then .atomic repeated else repeated
      some { r with level := { r.level with sequence := whole :: before } }

/-- One token. -/
def step? (r : Reader) (t : Token) : Option Reader :=
  let flags := r.level.flags
  match t with
  | .char c => some (r.push (.char (.single c) flags.fold))
  | .set s => some (r.push (.char s flags.fold))
  | .dot => some (r.push (.char (if flags.dotAll then .all else .compl (.single '\n')) false))
  | .caret => some (r.push (.anchor (if flags.multiLine then .lineStart else .textStart)))
  | .dollar => some (r.push (.anchor (if flags.multiLine then .lineEnd else .textEnd)))
  | .anchor a => some (r.push (.anchor a))
  | .backref index => some (r.push (.backref index flags.fold))
  | .namedBackref name => (r.names.lookup name).map fun index => r.push (.backref index flags.fold)
  | .open kind => some (r.openGroup kind)
  | .close =>
    match r.outer with
    | [] => none
    | (kind, index, outer) :: rest =>
      (closeGroup? kind index r.level.branches).map fun n =>
        { r with level := { outer with sequence := n :: outer.sequence }, outer := rest }
  | .bar =>
    some { r with level := { r.level with
      alternatives := Node.catAll r.level.sequence.reverse :: r.level.alternatives
      sequence := [] } }
  | .flags on off =>
    some ({ r with level := { r.level with flags := flags.change on off } }.push .empty)
  | .quantifier min max lazy possessive => r.quantify? min max lazy possessive

/-- All tokens in turn. -/
def run? (r : Reader) : List Token → Option Reader
  | [] => some r
  | t :: rest => (r.step? t).bind fun r => run? r rest

/-- The pattern once all groups are closed.  A reference has to name a group. -/
def finish? (r : Reader) : Option Node :=
  match r.outer with
  | _ :: _ => none
  | [] =>
    let n := Node.altAll r.level.branches
    if n.backrefs.all fun i => 1 ≤ i && i ≤ r.groupCount then some n else none

end Reader

/-- The pattern of a text. -/
def read? (text : List Char) : Option Node :=
  ((Token.ofChars? text).bind fun ts => Reader.run? {} ts).bind Reader.finish?

/-! ## Portable patterns -/

/-- Control characters written as `\c` and a letter. -/
def replaceControls : List Char → List Char
  | '\\' :: 'c' :: c :: rest =>
    if c.isAlpha then Char.ofNat (c.toUpper.toNat - 64) :: replaceControls rest
    else '\\' :: 'c' :: replaceControls (c :: rest)
  | c :: rest => c :: replaceControls rest
  | [] => []

/-- The ASCII class for an escaped letter. -/
def portableClass? : Char → Option String
  | 'd' => some "[0-9]"
  | 'D' => some "[^0-9]"
  | 'w' => some "[A-Za-z0-9_]"
  | 'W' => some "[^A-Za-z0-9_]"
  | 's' => some "[ \t\n\r\x0b\x0c\u2003\ufeff\u2029]"
  | 'S' => some "[^ \t\n\r\x0b\x0c\u2003\ufeff\u2029]"
  | _ => none

/-- Escaped class letters replaced by ASCII classes. -/
def replaceClasses : List Char → List Char
  | '\\' :: c :: rest =>
    match portableClass? c with
    | some s => s.toList ++ replaceClasses rest
    | none => '\\' :: c :: replaceClasses rest
  | c :: rest => c :: replaceClasses rest
  | [] => []

/-- The pattern of a text with escaped class letters restricted to ASCII. -/
def readPortable? (text : String) : Option Node :=
  read? (replaceClasses (replaceControls text.toList))

end DecoderForge.Pattern
