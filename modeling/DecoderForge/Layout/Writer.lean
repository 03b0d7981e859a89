/-!
# DecoderForge — indented text from calls

Generated text is described as a list of calls: lines, and lines that open or close a level of
indentation.  `Writer.run` turns calls into text.
-/

namespace DecoderForge.Layout

/-- One step in writing indented text. -/
inductive Call where
  /-- A line at the current level; an empty one is written without indentation. -/
  | line (text : String)
  /-- A line behind which a level opens. -/
  | opening (text : String)
  /-- A line before which a level closes. -/
  | closing (text : String)
  /-- A line before which a level closes and behind which one opens. -/
  | reopening (text : String)
  /-- An empty line. -/
  | blank
  /-- Lines written elsewhere, as they are. -/
  | raw (text : String)
deriving DecidableEq, Repr

/-- Text written so far, and the level at which it goes on. -/
structure Writer where
  indent : String
  depth : Nat := 0
  text : String := ""
deriving DecidableEq, Repr

namespace Writer

/-- The indentation of a level. -/
def indentation (indent : String) : Nat → String
  | 0 => ""
  | depth + 1 => indent ++ indentation indent depth

/-- Appends a line at the current level. -/
def writeLine (w : Writer) (line : String) : Writer :=
  if line.isEmpty then { w with text := w.text ++ "\n" }
  else { w with text := w.text ++ indentation w.indent w.depth ++ line ++ "\n" }

def deeper (w : Writer) : Writer := { w with depth := w.depth + 1 }

def shallower (w : Writer) : Writer := { w with depth := w.depth - 1 }

/-- One call. -/
def step (w : Writer) : Call → Writer
  | .line s => w.writeLine s
  | .opening s => (w.writeLine s).deeper
  | .closing s => w.shallower.writeLine s
  | .reopening s => (w.shallower.writeLine s).deeper
  | .blank => { w with text := w.text ++ "\n" }
  | .raw s =>
    if s.isEmpty || s.endsWith "\n" then { w with text := w.text ++ s }
    else { w with text := w.text ++ s ++ "\n" }

/-- All calls in order. -/
def run (w : Writer) (calls : List Call) : Writer := calls.foldl step w

end Writer

/-- The text of a list of calls. -/
def render (indent : String) (calls : List Call) : String := (Writer.run ⟨indent, 0, ""⟩ calls).text

end DecoderForge.Layout
