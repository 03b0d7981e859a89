import DecoderForge.Text.Blank

/-!
# DecoderForge — lines and edits

* `Diff.lines` — the lines of a text, each with its line end.
* `Diff.Edit` — a step on the way from one list of lines to another.
-/

namespace DecoderForge.Diff

/-- The lines of a text, each with its line end; `before` is the line so far in reverse. -/
def linesFrom (before : List Char) : List Char → List (List Char)
  | [] => if before.isEmpty then [] else [before.reverse]
  | '\r' :: '\n' :: rest => ('\n' :: '\r' :: before).reverse :: linesFrom [] rest
  | c :: rest =>
    if c == '\n' || c == '\r' then (c :: before).reverse :: linesFrom [] rest
    else linesFrom (c :: before) rest

/-- The lines of a text, each with its line end. -/
def lines (text : List Char) : List (List Char) := linesFrom [] text

/-- Whether a line has a line end. -/
def isTerminated (line : List Char) : Bool :=
  match line.getLast? with
  | some c => c == '\n' || c == '\r'
  | none => false

/-- What an edit does. -/
inductive EditKind where
  | keep
  | delete
  | insert
  /-- Deletes lines and inserts others in their place. -/
  | replace
deriving DecidableEq, Repr

/-- A run of lines of the old and of the new text that are treated alike. -/
structure Edit where
  kind : EditKind
  oldStart : Nat
  oldLength : Nat
  newStart : Nat
  newLength : Nat
deriving DecidableEq, Repr

namespace Edit

def oldEnd (e : Edit) : Nat := e.oldStart + e.oldLength

def newEnd (e : Edit) : Nat := e.newStart + e.newLength

/-- Keeps lines. -/
def kept (old new length : Nat) : Edit := ⟨.keep, old, length, new, length⟩

/-- Deletes lines of the old text. -/
def deleted (old length new : Nat) : Edit := ⟨.delete, old, length, new, 0⟩

/-- Inserts lines of the new text. -/
def inserted (old new length : Nat) : Edit := ⟨.insert, old, 0, new, length⟩

/-- Whether the edit concerns no line. -/
def isEmpty (e : Edit) : Bool := e.oldLength == 0 && e.newLength == 0

/-- The edit moved towards the end. -/
def moveDown (e : Edit) (n : Nat) : Edit :=
  { e with oldStart := e.oldStart + n, newStart := e.newStart + n }

/-- The edit moved towards the beginning. -/
def moveUp (e : Edit) (n : Nat) : Edit :=
  { e with oldStart := e.oldStart - n, newStart := e.newStart - n }

/-- The edit with more lines; only the texts that it touches grow. -/
def lengthen (e : Edit) (n : Nat) : Edit :=
  match e.kind with
  | .keep | .replace => { e with oldLength := e.oldLength + n, newLength := e.newLength + n }
  | .delete => { e with oldLength := e.oldLength + n }
  | .insert => { e with newLength := e.newLength + n }

/-- The edit with fewer lines. -/
def shorten (e : Edit) (n : Nat) : Edit :=
  match e.kind with
  | .keep | .replace => { e with oldLength := e.oldLength - n, newLength := e.newLength - n }
  | .delete => { e with oldLength := e.oldLength - n }
  | .insert => { e with newLength := e.newLength - n }

end Edit

/-! ## Common lines -/

/-- Two lists of lines. -/
structure Pair where
  old : Array (List Char)
  new : Array (List Char)

namespace Pair

/-- How many lines agree from two places on, of at most so many. -/
def commonAfter (p : Pair) (i j : Nat) : Nat → Nat
  | 0 => 0
  | n + 1 => if p.old[i]? == p.new[j]? then p.commonAfter (i + 1) (j + 1) n + 1 else 0

/-- How many lines agree before two places, of at most so many. -/
def commonBefore (p : Pair) (i j : Nat) : Nat → Nat
  | 0 => 0
  | n + 1 => if p.old[i - 1]? == p.new[j - 1]? then p.commonBefore (i - 1) (j - 1) n + 1 else 0

end Pair

end DecoderForge.Diff
