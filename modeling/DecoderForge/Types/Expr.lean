import DecoderForge.Name
import DecoderForge.Style
import DecoderForge.Text.Blank
import DecoderForge.Types.Operator

/-!
# DecoderForge — type expressions

A type is built as a tree and then written.  `TypeExpr.render` is the only way from a tree to text.

* `TypeExpr.union` keeps each member once, by its text.
* `TypeExpr.parenthesize` and `TypeExpr.strip` add and take away parentheses.
-/

namespace DecoderForge

/-- A member of an object type without its type. -/
structure Types.MemberHead where
  /-- The lines of its comment. -/
  doc : Option (List (List Char))
  name : String
  isOptional : Bool
deriving DecidableEq, Repr

/-- A type. -/
inductive TypeExpr where
  /-- A name, a keyword, a literal or text given by the schema, written as it is. -/
  | word (text : List Char)
  /-- `a | b | c` -/
  | join (members : List TypeExpr)
  /-- `a & b & c` -/
  | meet (members : List TypeExpr)
  /-- `(a)` -/
  | paren (inner : TypeExpr)
  /-- `a[]` -/
  | array (item : TypeExpr)
  /-- `[a, b, ...c[]]` -/
  | tuple (items : List TypeExpr) (rest : Option TypeExpr)
  /-- Members with one per line, and the type of all other members. -/
  | object (members : List (Types.MemberHead × TypeExpr)) (index : Option TypeExpr)

namespace Types

/-! ## Pieces of text -/

/-- The lines of a comment as a comment of its own. -/
def docText : Option (List (List Char)) → List Char
  | none => []
  | some lines =>
    "/**\n".toList ++ lines.flatMap (fun line =>
      (if line.isEmpty then " *".toList else " * ".toList ++ line) ++ ['\n']) ++ " */\n".toList

/-- A property name: plain where it can stand unquoted. -/
def keyText (style : Style) (name : String) : List Char :=
  if isPlainIdentifier name.toList then name.toList else style.quoteChars name.toList

/-- Every line that is not empty one level deeper. -/
def indentLines (unit text : List Char) : List Char :=
  Text.joinWith ['\n'] ((Text.lines text).map fun line =>
    if line.isEmpty then [] else unit ++ line)

/-- The text of a member. -/
def memberText (style : Style) (head : MemberHead) (type : List Char) : List Char :=
  docText head.doc ++ keyText style head.name ++ (if head.isOptional then ['?'] else [])
    ++ ": ".toList ++ type ++ [';']

/-- The text of the member that stands for all others. -/
def indexText (type : List Char) : List Char := "[k: string]: ".toList ++ type ++ [';']

/-- Members between braces, one level deeper. -/
def bracesText (unit : List Char) (members : List (List Char)) : List Char :=
  if members.isEmpty then "\x7b\x7d".toList
  else "\x7b\n".toList ++ members.flatMap (fun m => indentLines unit m ++ ['\n']) ++ ['}']

end Types

namespace TypeExpr

open DecoderForge.Types

/-! ## Text -/

mutual

/-- The text of a type. -/
def render (style : Style) : TypeExpr → List Char
  | .word text => text
  | .join members => Text.joinWith " | ".toList (renderAll style members)
  | .meet members => Text.joinWith " & ".toList (renderAll style members)
  | .paren inner => '(' :: render style inner ++ [')']
  | .array item => render style item ++ "[]".toList
  | .tuple items rest =>
    '[' :: Text.joinWith ", ".toList (renderAll style items ++ renderRest style rest) ++ [']']
  | .object members index =>
    bracesText style.indentUnit (renderMembers style members ++ renderIndex style index)

/-- The text of each type. -/
def renderAll (style : Style) : List TypeExpr → List (List Char)
  | [] => []
  | e :: rest => render style e :: renderAll style rest

/-- The last part of a tuple. -/
def renderRest (style : Style) : Option TypeExpr → List (List Char)
  | none => []
  | some e => ["...".toList ++ render style e ++ "[]".toList]

/-- The text of each member. -/
def renderMembers (style : Style) : List (MemberHead × TypeExpr) → List (List Char)
  | [] => []
  | (head, e) :: rest => memberText style head (render style e) :: renderMembers style rest

/-- The member that stands for all others. -/
def renderIndex (style : Style) : Option TypeExpr → List (List Char)
  | none => []
  | some e => [indexText (render style e)]

end

/-! ## Building -/

/-- A word of the language. -/
def ofString (s : String) : TypeExpr := .word s.toList

def unknown : TypeExpr := ofString "unknown"

def never : TypeExpr := ofString "never"

/-- Members that differ in their text from all before them; `seen` holds texts from before. -/
def distinctBy (style : Style) (seen : List (List Char)) : List TypeExpr → List TypeExpr
  | [] => []
  | e :: rest =>
    let text := e.render style
    if seen.contains text then distinctBy style seen rest
    else e :: distinctBy style (text :: seen) rest

/-- The union of types, each once; of none it is empty. -/
def union (style : Style) (members : List TypeExpr) : TypeExpr :=
  match distinctBy style [] members with
  | [] => never
  | [e] => e
  | es => .join es

/-- In parentheses if an operator stands outside all brackets of its text. -/
def parenthesize (style : Style) (e : TypeExpr) : TypeExpr :=
  if hasTopLevelOperator (e.render style) then .paren e else e

/-- Without one pair of parentheses around the whole. -/
def strip (style : Style) (e : TypeExpr) : TypeExpr :=
  match stripParens? (e.render style) with
  | none => e
  | some text =>
    match e with
    | .paren inner => inner
    | _ => .word text

end TypeExpr

end DecoderForge
