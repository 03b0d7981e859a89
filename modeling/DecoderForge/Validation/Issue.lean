import DecoderForge.Text.Blank

/-!
# DecoderForge — failures of a validation

* `Issue` — one failure: where it is and what is wrong.
* `Issue.below` — the place of a member or an item of the value at a place.
-/

namespace DecoderForge

/-- One failure of a validation. -/
structure Issue where
  /-- Pointer to the failing value. -/
  path : String
  message : String
deriving DecidableEq, Repr

namespace Issue

/-- The failure as one text. -/
def text (i : Issue) : String :=
  String.ofList (Text.trim (i.path.toList ++ [' '] ++ i.message.toList))

/-- A token of a path with `~` as `~0` and `/` as `~1`. -/
def escapeToken (token : String) : String :=
  String.ofList (token.toList.flatMap fun c =>
    if c == '~' then ['~', '0'] else if c == '/' then ['~', '1'] else [c])

/-- The place of the member called `name`. -/
def below (path name : String) : String := path ++ "/" ++ escapeToken name

/-- The place of the item at an index. -/
def belowIndex (path : String) (index : Nat) : String := path ++ "/" ++ toString index

end Issue

end DecoderForge
