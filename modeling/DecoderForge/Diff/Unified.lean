import DecoderForge.Diff.Settle

/-!
# DecoderForge — differences as text

Changes are shown with three lines around them, deleted lines behind `-` and inserted ones behind `+`.

* `Diff.unified` — the differences between two texts under a label.
-/

namespace DecoderForge.Diff

/-- How many lines are shown around a change. -/
def context : Nat := 3

/-- The first edit with only the last lines that count as context. -/
def trimFirst : List Edit → List Edit
  | [] => []
  | e :: rest =>
    if e.kind == .keep then
      let n := e.oldLength - context
      (e.moveDown n).shorten n :: rest
    else e :: rest

/-- The last edit with only the first lines that count as context. -/
def trimLast : List Edit → List Edit
  | [] => []
  | [e] => [if e.kind == .keep then e.shorten (e.oldLength - context) else e]
  | e :: rest => e :: trimLast rest

/-- Edits cut into groups where many lines are kept; `group` is the present one in reverse. -/
def groupsFrom (group : List Edit) : List Edit → List (List Edit)
  | [] => if group.all fun e => e.kind == .keep then [] else [group.reverse]
  | e :: rest =>
    if e.kind == .keep && e.oldLength > 2 * context then
      let n := e.oldLength - context
      (e.shorten n :: group).reverse :: groupsFrom [(e.moveDown n).shorten n] rest
    else groupsFrom (e :: group) rest

/-- Edits in groups with their context. -/
def groups (edits : List Edit) : List (List Edit) := groupsFrom [] (trimLast (trimFirst edits))

/-! ## Text -/

/-- Lines from `start` to `stop` as a range: the first, and how many unless it is one. -/
def rangeText (start stop : Nat) : String :=
  let length := stop - start
  if length == 1 then toString (start + 1)
  else if length == 0 then toString start ++ ",0"
  else toString (start + 1) ++ "," ++ toString length

/-- The line above a group. -/
def headText (group : List Edit) : String :=
  match group.head?, group.getLast? with
  | some first, some last =>
    "@@ -" ++ rangeText first.oldStart last.oldEnd ++ " +" ++ rangeText first.newStart last.newEnd
      ++ " @@\n"
  | _, _ => ""

/-- A line behind its mark; a missing line end is pointed out. -/
def lineText (mark : String) (line : List Char) : String :=
  mark ++ String.ofList line ++ if isTerminated line then "" else "\n\\ No newline at end of file\n"

/-- Lines from a place on behind a mark. -/
def linesText (mark : String) (lines : Array (List Char)) (start length : Nat) : String :=
  String.join (((lines.extract start (start + length)).toList).map (lineText mark))

/-- The lines of an edit. -/
def editText (p : Pair) (e : Edit) : String :=
  match e.kind with
  | .keep => linesText " " p.old e.oldStart e.oldLength
  | _ => linesText "-" p.old e.oldStart e.oldLength ++ linesText "+" p.new e.newStart e.newLength

/-- The differences between two texts under a label; nothing where the lines are the same. -/
def unified (label : String) (old new : List Char) : String :=
  let p : Pair := ⟨(lines old).toArray, (lines new).toArray⟩
  match groups (merge (settle p (script p))) with
  | [] => ""
  | gs =>
    "--- a/" ++ label ++ "\n+++ b/" ++ label ++ "\n"
      ++ String.join (gs.map fun g => headText g ++ String.join (g.map (editText p)))

end DecoderForge.Diff
