import DecoderForge.Json.Token

/-!
# DecoderForge — reading JSON text

The reader is a stack machine over tokens: the stack holds the arrays and objects that are still
open.  It takes one step per token, so it stops with the text, and the limit on nesting is a limit on
the height of the stack.

* `Json.read?` — the value of a text, `none` when the text is no JSON.
-/

namespace DecoderForge

namespace Json

/-- An array or object that is still open, with what it holds so far. -/
inductive Frame where
  /-- An open array, items in reverse. -/
  | array (items : List Json)
  /-- An open object that has just read the name of its next member. -/
  | object (members : Members) (name : String)
deriving Repr

/-- What the reader expects of the next token. -/
inductive Reader.Mode where
  /-- A value. -/
  | value
  /-- A value, or the end of an array that is still empty. -/
  | firstItem
  /-- The name of a member of the object with these members, or its end if it is still empty. -/
  | name (members : Members) (first : Bool)
  /-- The colon behind a name. -/
  | colon (members : Members) (name : String)
  /-- A comma or the end of the open array. -/
  | afterItem (items : List Json)
  /-- A comma or the end of the open object. -/
  | afterMember (members : Members)
  /-- The end of the text. -/
  | finished (value : Json)
deriving Repr

/-- A reader between two tokens. -/
structure Reader where
  stack : List Frame
  mode : Reader.Mode
deriving Repr

namespace Reader

/-- At most this many arrays and objects may be open at once. -/
def maxDepth : Nat := 127

/-- Hands a complete value to the frame that waits for it. -/
def deliver (value : Json) : List Frame → Reader
  | [] => ⟨[], .finished value⟩
  | .array items :: rest => ⟨rest, .afterItem (value :: items)⟩
  | .object members name :: rest => ⟨rest, .afterMember (members.insert name value)⟩

/-- The height of the stack, the frame in the mode included. -/
def depth (r : Reader) : Nat :=
  match r.mode with
  | .value | .finished _ => r.stack.length
  | _ => r.stack.length + 1

/-- Starts a value with its first token. -/
def startValue (stack : List Frame) : Token → Option Reader
  | .null => some (deliver .null stack)
  | .bool b => some (deliver (.bool b) stack)
  | .num n => some (deliver (.num n) stack)
  | .str s => some (deliver (.str s) stack)
  | .openBracket => if stack.length < maxDepth then some ⟨stack, .firstItem⟩ else none
  | .openBrace => if stack.length < maxDepth then some ⟨stack, .name [] true⟩ else none
  | _ => none

/-- One token. -/
def step (r : Reader) (t : Token) : Option Reader :=
  match r.mode with
  | .value => startValue r.stack t
  | .firstItem =>
    match t with
    | .closeBracket => some (deliver (.arr []) r.stack)
    | t => startValue (.array [] :: r.stack) t
  | .name members first =>
    match t with
    | .str s => some ⟨r.stack, .colon members s⟩
    | .closeBrace => if first then some (deliver (.obj members) r.stack) else none
    | _ => none
  | .colon members name =>
    match t with
    | .colon => some ⟨.object members name :: r.stack, .value⟩
    | _ => none
  | .afterItem items =>
    match t with
    | .comma => some ⟨.array items :: r.stack, .value⟩
    | .closeBracket => some (deliver (.arr items.reverse) r.stack)
    | _ => none
  | .afterMember members =>
    match t with
    | .comma => some ⟨r.stack, .name members false⟩
    | .closeBrace => some (deliver (.obj members) r.stack)
    | _ => none
  | .finished _ => none

/-- All tokens in turn. -/
def run (r : Reader) : List Token → Option Reader
  | [] => some r
  | t :: ts => (r.step t).bind fun r => run r ts

end Reader

/-- The value that a list of tokens spells. -/
def ofTokens? (tokens : List Token) : Option Json :=
  match Reader.run ⟨[], .value⟩ tokens with
  | some ⟨_, .finished value⟩ => some value
  | _ => none

/-- The value of a text; `none` when the text is no JSON. -/
def read? (text : String) : Option Json := (Token.ofText? text).bind ofTokens?

end Json

end DecoderForge
