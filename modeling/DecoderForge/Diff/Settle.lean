import DecoderForge.Diff.Script

/-!
# DecoderForge — edits in their final places

An insertion between equal lines can stand in several places.  Each change is moved up as far as it goes
and then down as far as it goes; changes that meet become one.

* `Diff.settle` — edits with every change in its place.
* `Diff.merge` — edits in which a deletion and an insertion side by side are one replacement.
-/

namespace DecoderForge.Diff

/-- A change among the edits before it, nearest first, and those after it. -/
structure Spot where
  before : List Edit
  change : Edit
  after : List Edit

namespace Spot

/-- Moves the change by one edit, or part of one, towards the beginning; none where it stays. -/
def raise? (p : Pair) (s : Spot) : Option Spot :=
  match s.before with
  | [] => none
  | prev :: before =>
    match s.change.kind, prev.kind with
    | .insert, .insert | .delete, .delete =>
      some ⟨before, prev.lengthen (max s.change.oldLength s.change.newLength), s.after⟩
    | .insert, .delete | .delete, .insert => some ⟨before, s.change, prev :: s.after⟩
    | _, _ =>
      let run := p.commonBefore prev.oldEnd s.change.newEnd (min prev.oldLength s.change.newLength)
      if run == 0 then
        if prev.isEmpty then some { s with before } else none
      else
        let after := match s.after with
          | next :: rest =>
            if next.kind == .keep then (next.moveUp run).lengthen run :: rest
            else .kept (prev.oldEnd - run) (s.change.newEnd - run) run :: s.after
          | [] => [.kept (prev.oldEnd - run) (s.change.newEnd - run) run]
        let prev := prev.shorten run
        some ⟨if prev.isEmpty then before else prev :: before, s.change.moveUp run, after⟩

/-- Moves the change by one edit, or part of one, towards the end; none where it stays. -/
def lower? (p : Pair) (s : Spot) : Option Spot :=
  match s.after with
  | [] => none
  | next :: after =>
    match s.change.kind, next.kind with
    | .insert, .insert | .delete, .delete =>
      some { s with change := s.change.lengthen (max next.oldLength next.newLength), after }
    | .insert, .delete | .delete, .insert => some ⟨next :: s.before, s.change, after⟩
    | _, _ =>
      let run := p.commonAfter next.oldStart s.change.newStart (min next.oldLength s.change.newLength)
      if run == 0 then
        if next.isEmpty then some { s with after } else none
      else
        let before := match s.before with
          | prev :: rest =>
            if prev.kind == .keep then prev.lengthen run :: rest
            else .kept next.oldStart s.change.newStart run :: s.before
          | [] => [.kept next.oldStart s.change.newStart run]
        let next := (next.moveDown run).shorten run
        some ⟨before, s.change.moveDown run, if next.isEmpty then after else next :: after⟩

/-- Repeats a move as long as there is one, at most so often. -/
def exhaust (move : Spot → Option Spot) : Nat → Spot → Spot
  | 0, s => s
  | fuel + 1, s =>
    match move s with
    | some t => exhaust move fuel t
    | none => s

end Spot

/-- Moves every change of a kind; `before` holds the edits passed, nearest first. -/
def settleKind (p : Pair) (kind : EditKind) (moves : Nat) :
    (fuel : Nat) → (before after : List Edit) → List Edit
  | 0, before, after => before.reverse ++ after
  | _, before, [] => before.reverse
  | fuel + 1, before, e :: after =>
    if e.kind == kind then
      let s := Spot.exhaust (Spot.lower? p) moves (Spot.exhaust (Spot.raise? p) moves ⟨before, e, after⟩)
      settleKind p kind moves fuel (s.change :: s.before) s.after
    else settleKind p kind moves fuel (e :: before) after

/-- Edits with every deletion and then every insertion in its place. -/
def settle (p : Pair) (edits : List Edit) : List Edit :=
  -- a move passes a line or an edit, or leaves one edit less
  let moves := p.old.size + p.new.size + edits.length + 1
  settleKind p .insert moves (moves * moves) [] (settleKind p .delete moves (moves * moves) [] edits)

/-- Edits with neighbours of one kind joined, and a deletion and an insertion side by side as one
replacement. -/
def merge : List Edit → List Edit
  | [] => []
  | e :: rest =>
    match merge rest with
    | [] => [e]
    | next :: more =>
      match e.kind, next.kind with
      | .keep, .keep => { e with oldLength := e.oldLength + next.oldLength
                                 newLength := e.newLength + next.newLength } :: more
      | .delete, .delete => { e with oldLength := e.oldLength + next.oldLength } :: more
      | .insert, .insert => { e with newLength := e.newLength + next.newLength } :: more
      | .delete, .insert => ⟨.replace, e.oldStart, e.oldLength, next.newStart, next.newLength⟩ :: more
      | .insert, .delete => ⟨.replace, next.oldStart, next.oldLength, e.newStart, e.newLength⟩ :: more
      | .delete, .replace => { next with oldStart := e.oldStart
                                         oldLength := e.oldLength + next.oldLength } :: more
      | .insert, .replace => { next with newStart := e.newStart
                                         newLength := e.newLength + next.newLength } :: more
      | _, _ => e :: next :: more

end DecoderForge.Diff
