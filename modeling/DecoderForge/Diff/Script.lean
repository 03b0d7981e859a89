import DecoderForge.Diff.Edit

/-!
# DecoderForge — a shortest way from one text to another

The search runs from both ends at once.  After `d` deletions and insertions it knows how far each diagonal
of the grid of lines can be followed; where the two searches meet the grid is cut, and both parts are
treated in the same way.

* `Diff.script` — the edits that lead from the old lines to the new ones.
-/

namespace DecoderForge.Diff

/-- How far each diagonal has been followed; `zero` is where the main one is kept. -/
structure Frontier where
  reach : Array Nat
  zero : Nat

namespace Frontier

/-- A frontier for diagonals up to `size` on each side. -/
def empty (size : Nat) : Frontier := ⟨Array.replicate (2 * size + 1) 0, size⟩

/-- How far a diagonal has been followed. -/
def get (f : Frontier) (k : Int) : Nat := (f.reach[(k + f.zero).toNat]?).getD 0

/-- Records how far a diagonal has been followed. -/
def set (f : Frontier) (k : Int) (x : Nat) : Frontier :=
  { f with reach := f.reach.setIfInBounds (k + f.zero).toNat x }

/-- Where the next step on a diagonal starts: from the neighbour that reaches farther. -/
def next (f : Frontier) (d : Nat) (k : Int) : Nat :=
  if k == -(d : Int) || (k != d && f.get (k - 1) < f.get (k + 1)) then f.get (k + 1)
  else f.get (k - 1) + 1

end Frontier

/-- Part of the grid: lines of the old text and of the new one. -/
structure Window where
  oldStart : Nat
  oldEnd : Nat
  newStart : Nat
  newEnd : Nat

namespace Window

def oldLength (w : Window) : Nat := w.oldEnd - w.oldStart

def newLength (w : Window) : Nat := w.newEnd - w.newStart

/-- The diagonal on which the window ends. -/
def delta (w : Window) : Int := (w.oldLength : Int) - w.newLength

/-- A number of steps after which the searches have met. -/
def enough (w : Window) : Nat := (w.oldLength + w.newLength + 1) / 2 + 1

end Window

/-- The diagonals that `d` steps can reach, from the highest. -/
def diagonals (d : Nat) : List Int := (List.range (d + 1)).map fun (i : Nat) => (d : Int) - 2 * (i : Int)

/-- The place on the old and on the new side where the window is cut. -/
abbrev Cut := Nat × Nat

/-- One step of the search from the beginning, on the diagonals in turn. -/
def searchForward (p : Pair) (w : Window) (d : Nat) (backward : Frontier) :
    List Int → Frontier → Option Cut × Frontier
  | [], f => (none, f)
  | k :: rest, f =>
    let x := f.next d k
    let y := ((x : Int) - k).toNat
    let run := if x < w.oldLength && y < w.newLength then
        p.commonAfter (w.oldStart + x) (w.newStart + y) (min (w.oldLength - x) (w.newLength - y))
      else 0
    let f := f.set k (x + run)
    if w.delta % 2 == 1 && (k - w.delta).natAbs + 1 ≤ d
        && x + run + backward.get (-(k - w.delta)) ≥ w.oldLength then
      (some (w.oldStart + x, w.newStart + y), f)
    else searchForward p w d backward rest f

/-- One step of the search from the end, on the diagonals in turn. -/
def searchBackward (p : Pair) (w : Window) (d : Nat) (forward : Frontier) :
    List Int → Frontier → Option Cut × Frontier
  | [], f => (none, f)
  | k :: rest, f =>
    let x := f.next d k
    let y := ((x : Int) - k).toNat
    let run := if x < w.oldLength && y < w.newLength then
        p.commonBefore (w.oldEnd - x) (w.newEnd - y) (min (w.oldLength - x) (w.newLength - y))
      else 0
    let f := f.set k (x + run)
    if w.delta % 2 == 0 && (k - w.delta).natAbs ≤ d
        && x + run + forward.get (-(k - w.delta)) ≥ w.oldLength then
      (some (w.oldEnd - (x + run), w.newEnd - (y + run)), f)
    else searchBackward p w d forward rest f

/-- The cut that the two searches find, from `d` steps on. -/
def findCut (p : Pair) (w : Window) : (fuel d : Nat) → (forward backward : Frontier) → Option Cut
  | 0, _, _, _ => none
  | fuel + 1, d, forward, backward =>
    match searchForward p w d backward (diagonals d) forward with
    | (some cut, _) => some cut
    | (none, forward) =>
      match searchBackward p w d forward (diagonals d) backward with
      | (some cut, _) => some cut
      | (none, backward) => findCut p w fuel (d + 1) forward backward

/-- The cut of a window of which both sides have lines. -/
def cut? (p : Pair) (w : Window) : Option Cut :=
  let start := Frontier.empty (w.enough + 1)
  findCut p w w.enough 0 start start

/-- An edit, unless it concerns no line. -/
def unlessEmpty (e : Edit) : List Edit := if e.isEmpty then [] else [e]

/-- The edits of a window.  Common lines at its ends are kept; the number bounds how often it is cut. -/
def editsWithin (p : Pair) : Nat → Window → List Edit
  | 0, w => [.deleted w.oldStart w.oldLength w.newStart, .inserted w.oldStart w.newStart w.newLength]
  | fuel + 1, w =>
    let head := p.commonAfter w.oldStart w.newStart (min w.oldLength w.newLength)
    let inner := { w with oldStart := w.oldStart + head, newStart := w.newStart + head }
    let tail := p.commonBefore inner.oldEnd inner.newEnd (min inner.oldLength inner.newLength)
    let inner := { inner with oldEnd := inner.oldEnd - tail, newEnd := inner.newEnd - tail }
    let changes :=
      if inner.newLength == 0 then
        unlessEmpty (.deleted inner.oldStart inner.oldLength inner.newStart)
      else if inner.oldLength == 0 then
        [.inserted inner.oldStart inner.newStart inner.newLength]
      else
        match cut? p inner with
        | some (i, j) =>
          editsWithin p fuel { inner with oldEnd := i, newEnd := j }
            ++ editsWithin p fuel { inner with oldStart := i, newStart := j }
        | none =>
          [.deleted inner.oldStart inner.oldLength inner.newStart,
            .inserted inner.oldStart inner.newStart inner.newLength]
    unlessEmpty (.kept w.oldStart w.newStart head) ++ changes
      ++ unlessEmpty (.kept inner.oldEnd inner.newEnd tail)

/-- The edits that lead from the old lines to the new ones. -/
def script (p : Pair) : List Edit :=
  editsWithin p (p.old.size + p.new.size + 1) ⟨0, p.old.size, 0, p.new.size⟩

end DecoderForge.Diff
